import FilterClause.Text.Basic

/-!
# Command-line arguments

Arguments are read from left to right. A value may stand behind its option or be attached to it.
What has been read of an option or of a run of files is only settled when the next option or file
comes, or at the end: an unknown option in between is reported first.
-/

namespace FilterClause

/-- How results are told. -/
inductive Format where
  | text
  | json
deriving DecidableEq

/-- What the arguments ask for. -/
structure Settings where
  files : List Text
  exprs : List Text
  withWhere : Bool
  format : Format
  dateFields : List Text
  config : Option Text
  columns : List Text
  output : Option Text
  compact : Bool
  quiet : Bool
deriving DecidableEq

/-- Why arguments lead to no run. -/
inductive NoRun where
  | unknownArgument (argument : Text)
  /-- A value is missing, or it is none that the option takes. -/
  | invalidValue (option : Text)
  /-- An option that may stand once is given again. -/
  | repeated (option : Text)
  /-- A value is attached to an option that takes none. -/
  | tooManyValues (option : Text)
  | help
  | version
deriving DecidableEq

/-- Options without a value. -/
inductive Switch where
  | withWhere
  | compact
  | quiet
deriving DecidableEq

/-- Options with a value. -/
inductive Valued where
  | expr
  | format
  | dateField
  | config
  | columns
  | output
deriving DecidableEq

/-- An option. -/
inductive Flag where
  | switch (s : Switch)
  | valued (v : Valued)
  | help
  | version
deriving DecidableEq

namespace Flag

/-- Long names, without their dashes. -/
def longNames : List (Text × Flag) :=
  [("expr".toList, .valued .expr), ("format".toList, .valued .format),
    ("with-where".toList, .switch .withWhere), ("date-field".toList, .valued .dateField),
    ("config".toList, .valued .config), ("columns".toList, .valued .columns),
    ("output".toList, .valued .output), ("compact".toList, .switch .compact),
    ("quiet".toList, .switch .quiet), ("help".toList, .help), ("version".toList, .version)]

/-- Short names. -/
def shortNames : List (Char × Flag) :=
  [('e', .valued .expr), ('f', .valued .format), ('o', .valued .output), ('c', .switch .compact),
    ('q', .switch .quiet), ('h', .help), ('V', .version)]

end Flag

/-- The long name of an option with a value. -/
def Valued.name : Valued → Text
  | .expr => "expr".toList
  | .format => "format".toList
  | .dateField => "date-field".toList
  | .config => "config".toList
  | .columns => "columns".toList
  | .output => "output".toList

/-- The long name of a switch. -/
def Switch.name : Switch → Text
  | .withWhere => "with-where".toList
  | .compact => "compact".toList
  | .quiet => "quiet".toList

/-- The format that a value names. -/
def Format.ofName? (name : Text) : Option Format :=
  if name = "text".toList then some .text
  else if name = "json".toList then some .json
  else none

namespace Settings

/-- Settings as far as they have been read; the format is absent until it is given. -/
structure Draft where
  files : List Text
  exprs : List Text
  withWhere : Bool
  format : Option Format
  dateFields : List Text
  config : Option Text
  columns : List Text
  output : Option Text
  compact : Bool
  quiet : Bool

/-- What has been read but not settled. -/
inductive Pending where
  | nothing
  /-- An option, and its value once it has come. -/
  | option (v : Valued) (value : Option Text)
  /-- Files one after the other. -/
  | files (paths : List Text)

/-- Nothing has been read. -/
def Draft.empty : Draft := ⟨[], [], false, none, [], none, [], none, false, false⟩

/-- The settings once everything has been read. -/
def Draft.settings (d : Draft) : Settings :=
  ⟨d.files, d.exprs, d.withWhere, d.format.getD .text, d.dateFields, d.config, d.columns, d.output,
    d.compact, d.quiet⟩

/-- Turns a switch on, which may happen once. -/
def Draft.turnOn (d : Draft) (s : Switch) : Except NoRun Draft :=
  match s with
  | .withWhere => if d.withWhere then .error (.repeated s.name) else .ok { d with withWhere := true }
  | .compact => if d.compact then .error (.repeated s.name) else .ok { d with compact := true }
  | .quiet => if d.quiet then .error (.repeated s.name) else .ok { d with quiet := true }

/-- Gives an option its value. That it stands once is checked before its value is. -/
def Draft.give (d : Draft) (v : Valued) (value : Text) : Except NoRun Draft :=
  match v with
  | .expr => .ok { d with exprs := d.exprs ++ [value] }
  | .dateField => .ok { d with dateFields := d.dateFields ++ [value] }
  | .columns => .ok { d with columns := d.columns ++ Text.split ',' value }
  | .format =>
    if d.format.isSome then .error (.repeated v.name)
    else match Format.ofName? value with
      | some format => .ok { d with format := some format }
      | none => .error (.invalidValue v.name)
  | .config =>
    if d.config.isSome then .error (.repeated v.name)
    else if value.isEmpty then .error (.invalidValue v.name)
    else .ok { d with config := some value }
  | .output =>
    if d.output.isSome then .error (.repeated v.name)
    else if value.isEmpty then .error (.invalidValue v.name)
    else .ok { d with output := some value }

/-- Settles what has been read. -/
def Draft.settle (d : Draft) : Pending → Except NoRun Draft
  | .nothing => .ok d
  | .option v none => .error (.invalidValue v.name)
  | .option v (some value) => d.give v value
  | .files paths =>
    if paths.any List.isEmpty then .error (.invalidValue "FILES".toList)
    else .ok { d with files := d.files ++ paths }

/-- Reads an option that may have a value attached. -/
def Draft.takeFlag (d : Draft) (pending : Pending) (flag : Flag) (attached : Option Text) :
    Except NoRun (Draft × Pending) := do
  match flag, attached with
  | .switch s, some _ => .error (.tooManyValues s.name)
  | .help, some _ => .error (.tooManyValues "help".toList)
  | .version, some _ => .error (.tooManyValues "version".toList)
  | .switch s, none => return (← (← d.settle pending).turnOn s, .nothing)
  | .help, none => let _ ← d.settle pending; .error .help
  | .version, none => let _ ← d.settle pending; .error .version
  | .valued v, some value => return (← (← d.settle pending).give v value, .nothing)
  | .valued v, none => return (← d.settle pending, .option v none)

/-- Reads a long option, given without its dashes. -/
def Draft.takeLong (d : Draft) (pending : Pending) (argument : Text) :
    Except NoRun (Draft × Pending) :=
  let name := argument.takeWhile (· != '=')
  match Flag.longNames.lookup name with
  | some flag => d.takeFlag pending flag ((argument.dropWhile (· != '=')).tail?)
  | none => .error (.unknownArgument ('-' :: '-' :: name))

/-- Reads short options that stand together. What follows one with a value is its value, with or
without a sign of equality. -/
def Draft.takeShort (d : Draft) (pending : Pending) : Text → Except NoRun (Draft × Pending)
  | [] => .ok (d, pending)
  | c :: rest =>
    match Flag.shortNames.lookup c with
    | none => .error (.unknownArgument ['-', c])
    | some (.valued v) =>
      d.takeFlag pending (.valued v) <|
        match rest with
        | [] => none
        | '=' :: value => some value
        | value => some value
    | some flag => do
      let (d, pending) ← d.takeFlag pending flag none
      d.takeShort pending rest

/-- Reads an argument that is no option. -/
def Draft.takePlain (d : Draft) (pending : Pending) (argument : Text) :
    Except NoRun (Draft × Pending) :=
  match pending with
  | .option v none => .ok (d, .option v (some argument))
  | .files paths => .ok (d, .files (paths ++ [argument]))
  | pending => do return (← d.settle pending, .files [argument])

/-- Reads the arguments that are left. Behind `--` all are files. -/
def Draft.take (d : Draft) (pending : Pending) : List Text → Except NoRun Draft
  | [] => d.settle pending
  | ['-', '-'] :: rest => do (← d.settle pending).settle (.files rest)
  | argument :: rest => do
    let (d, pending) ← match argument with
      | '-' :: '-' :: long => d.takeLong pending long
      | '-' :: c :: more => d.takeShort pending (c :: more)
      | plain => d.takePlain pending plain
    d.take pending rest

/-- The settings that arguments ask for. -/
def ofArguments (arguments : List Text) : Except NoRun Settings :=
  (Draft.empty.take .nothing arguments).map Draft.settings

end Settings

end FilterClause
