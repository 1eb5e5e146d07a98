import FilterClause.CommandLine.Input
import FilterClause.CommandLine.Settings

/-!
# Runs of the program

A run reads its options and then its clauses, tells its warnings, and prints what it made of the
clauses or writes it to a file. Its steps are taken one after the other in a system, and the first
that fails ends it. The output file is only touched when everything has been read, so it may be one
of the files that were read.
-/

namespace FilterClause

/-- What a run is about to print and write. -/
structure Plan where
  /-- Lines about issues. -/
  warnings : Text
  content : Text
  /-- The path of the output file, none for standard output. -/
  output : Option Text
  /-- Whether a clause met an error. -/
  hasErrors : Bool

/-- The end of a run as the caller sees it. -/
structure Outcome where
  exit : Nat
  stdout : Text
  stderr : Text
deriving DecidableEq

/-- The end of a run and the folder as it is left. -/
structure Run where
  outcome : Outcome
  folder : Folder

/-- The program's version. -/
def version : Text := "0.2.0".toList

/-- The usage of the program in brief. -/
def usage : Text :=
  "Clean up loosely written WHERE clauses\n\nUsage: wherefix [OPTIONS] [FILES]...\n".toList

/-- The line that tells why a run failed. -/
def RunError.line (why : RunError) : Text :=
  "wherefix: error: ".toList ++ why.message ++ ['\n']

namespace Plan

/-- The plan of a run, once its input has been read. -/
def ofReports (s : Settings) (reports : List Report) : Plan where
  warnings :=
    match s.format with
    | .json => []
    | .text => if s.quiet then [] else Report.issues reports
  content :=
    match s.format with
    | .json => Report.json (if s.compact then .compact else .indented) reports
    | .text => Report.text s.withWhere reports
  output := s.output
  hasErrors := reports.any fun r => r.result.hasErrors

/-- The plan of a run with these options, and with these clauses for its input. -/
def ofInput (s : Settings) (o : Options) (clauses : List Located) : Plan :=
  ofReports s
    (clauses.map (Report.ofLocated (if s.columns.isEmpty then none else some s.columns) (some o)))

/-- What is printed. Standard output ends in a line feed, unless it is empty. -/
def printed (p : Plan) : Text :=
  if p.content.isEmpty || p.content.getLast? = some '\n' then p.content else p.content ++ ['\n']

/-- The exit code of a run that is carried out. -/
def exit (p : Plan) : Nat := if p.hasErrors then 1 else 0

end Plan

/-- The end of a run that the arguments do not lead to. -/
def Outcome.noRun : NoRun → Outcome
  | .help => ⟨0, usage, []⟩
  | .version => ⟨0, "wherefix ".toList ++ version ++ ['\n'], []⟩
  | .unknownArgument a => ⟨2, [], "error: unexpected argument ".toList ++ a ++ '\n' :: usage⟩
  | .invalidValue o => ⟨2, [], "error: invalid value for ".toList ++ o ++ '\n' :: usage⟩
  | .repeated o => ⟨2, [], "error: repeated argument ".toList ++ o ++ '\n' :: usage⟩
  | .tooManyValues o => ⟨2, [], "error: unexpected value for ".toList ++ o ++ '\n' :: usage⟩

/-! ## Steps -/

/-- What a run can do to the world around it. -/
structure System (m : Type → Type) where
  /-- The bytes of the file that a path leads to. -/
  read : Text → m (Except FileError ByteArray)
  /-- All bytes that are left of standard input. -/
  readStdin : m ByteArray
  /-- Writes the file that a path leads to. -/
  write : Text → ByteArray → m (Except FileError Unit)
  /-- Prints on standard output. -/
  print : Text → m Unit
  /-- Prints on standard error. -/
  warn : Text → m Unit

namespace System

variable {m : Type → Type} [Monad m] (system : System m)

/-- The text behind a path; `fails` tells what the run is told if it cannot be read. -/
def readText (fails : FileError → RunError) (path : Text) : ExceptT RunError m Text := do
  ofExcept (((← system.read path).bind decodeUtf8).mapError fails)

/-- The options of a run: those of the configuration file, if there is one, and further date
fields. They are checked once all of them are known. -/
def readOptions (config : Option Text) (dateFields : List Text) : ExceptT RunError m Options := do
  let options ← match config with
    | none => pure Options.standard
    | some path => do
      let content ← system.readText (.unreadableConfig path) path
      ofExcept ((Options.ofJson content).mapError (.malformedConfig path))
  ofExcept (options.addDateFields dateFields).checked

/-- The clauses of files, read one after the other. -/
def readFiles : List Text → ExceptT RunError m (List Located)
  | [] => return []
  | path :: rest => do
    let content ← system.readText (.unreadableFile path) path
    return Located.ofLines path content ++ (← readFiles rest)

/-- The clauses of standard input. -/
def readStdinClauses : ExceptT RunError m (List Located) := do
  let content ← ofExcept ((decodeUtf8 (← system.readStdin)).mapError .unreadableStdin)
  return Located.ofLines "<stdin>".toList content

/-- The clauses of a run: expressions, then files. Standard input is read where there is neither. -/
def readInput (paths exprs : List Text) : ExceptT RunError m (List Located) := do
  let more ←
    if !paths.isEmpty then system.readFiles paths
    else if exprs.isEmpty then system.readStdinClauses
    else pure []
  return Located.ofExprs exprs ++ more

/-- Reads all that a run needs. -/
def readPlan (s : Settings) : ExceptT RunError m Plan := do
  let options ← system.readOptions s.config s.dateFields
  return .ofInput s options (← system.readInput s.files s.exprs)

/-- Tells the warnings of a plan, and prints or writes its content. -/
def carryOut (p : Plan) : ExceptT RunError m Unit := do
  system.warn p.warnings
  match p.output with
  | none => system.print p.printed
  | some path =>
    ofExcept ((← system.write path (encodeUtf8 p.content)).mapError (.unwritableFile path))

/-- A run with settings as far as nothing fails, and its exit code. -/
def proceed (s : Settings) : ExceptT RunError m Nat := do
  let plan ← system.readPlan s
  system.carryOut plan
  return plan.exit

/-- A run with settings, and its exit code. -/
def runSettings (s : Settings) : m Nat := do
  match ← (system.proceed s).run with
  | .ok code => return code
  | .error why =>
    system.warn why.line
    return 66

/-- A run with arguments, and its exit code. -/
def run (arguments : List Text) : m Nat := do
  match Settings.ofArguments arguments with
  | .ok settings => system.runSettings settings
  | .error why =>
    let outcome := Outcome.noRun why
    system.print outcome.stdout
    system.warn outcome.stderr
    return outcome.exit

end System

/-! ## Runs in a folder -/

/-- A folder, what is left of standard input, and what has been printed. -/
structure World where
  folder : Folder
  stdin : ByteArray
  stdout : Text
  stderr : Text

namespace World

/-- Writes the file that a path leads to. A file that cannot be written is left as it was. -/
def write (path : Text) (bytes : ByteArray) (w : World) : Except FileError Unit × World :=
  match w.folder.write path bytes with
  | .ok after => (.ok (), { w with folder := after })
  | .error why => (.error why, w)

/-- Prints on standard output. -/
def print (t : Text) (w : World) : World := { w with stdout := w.stdout ++ t }

/-- Prints on standard error. -/
def warn (t : Text) (w : World) : World := { w with stderr := w.stderr ++ t }

/-- The steps of a run in a folder. -/
def system : System (StateM World) where
  read path := do return (← get).folder.read path
  readStdin := modifyGet fun w => (w.stdin, { w with stdin := .empty })
  write path bytes := modifyGet (write path bytes)
  print t := modify (print t)
  warn t := modify (warn t)

end World

/-- A run in a folder. -/
def Run.ofArguments (f : Folder) (stdin : ByteArray) (arguments : List Text) : Run :=
  let (code, w) := (World.system.run arguments).run ⟨f, stdin, [], []⟩
  ⟨⟨code, w.stdout, w.stderr⟩, w.folder⟩

end FilterClause
