import FilterClause.CommandLine.Folder
import FilterClause.Report

/-!
# Input of a run

The options and the clauses of a run. Everything is read before anything is written, and the first
thing that cannot be read ends the run.
-/

namespace FilterClause

/-- Why a run fails. -/
inductive RunError where
  | unreadableConfig (path : Text) (why : FileError)
  | malformedConfig (path : Text) (why : Json.ReadError)
  | invalidOptions (why : OptionsError)
  | unreadableFile (path : Text) (why : FileError)
  | unreadableStdin (why : FileError)
  | unwritableFile (path : Text) (why : FileError)
deriving DecidableEq

/-- The error in words, from the outer cause to the inner one. -/
def RunError.message : RunError → Text
  | .unreadableConfig path why =>
    "Failed to read config file: ".toList ++ path ++ ": ".toList ++ why.message
  | .malformedConfig path why =>
    "Failed to parse config file: ".toList ++ path ++ ": ".toList ++ why.message
  | .invalidOptions why => "Invalid cleaning options: ".toList ++ why.message
  | .unreadableFile path why =>
    "Failed to read file: ".toList ++ path ++ ": ".toList ++ why.message
  | .unreadableStdin why => "Failed to read from stdin: ".toList ++ why.message
  | .unwritableFile path why =>
    "Failed to write to ".toList ++ path ++ ": ".toList ++ why.message

/-- Options that a run can honour. -/
def Options.checked (o : Options) : Except RunError Options :=
  match o.error? with
  | none => .ok o
  | some why => .error (.invalidOptions why)

/-- What a run can read: the bytes behind a path, and those of standard input. -/
structure Sources where
  read : Text → Except FileError ByteArray
  stdin : ByteArray

namespace Sources

/-- The text behind a path. -/
def readText (s : Sources) (path : Text) : Except FileError Text := do
  decodeUtf8 (← s.read path)

/-- The options of a run: those of the configuration file, if there is one, and further date
fields. -/
def options (s : Sources) (config : Option Text) (dateFields : List Text) :
    Except RunError Options := do
  let options ← match config with
    | none => pure Options.standard
    | some path => do
      let content ← (s.readText path).mapError (.unreadableConfig path)
      (Options.ofJson content).mapError (.malformedConfig path)
  (options.addDateFields dateFields).checked

end Sources

namespace Located

/-- The clauses of a text with one on a line. Blank lines hold none, but count. -/
def ofLines (source : Text) (content : Text) : List Located :=
  (content.lines.zipIdx.filter fun (line, _) => !line.trim.isEmpty).map fun (line, i) =>
    ⟨source, i + 1, line⟩

/-- The clauses given as expressions. -/
def ofExprs (exprs : List Text) : List Located :=
  exprs.zipIdx.map fun (expr, i) => ⟨"<expr>".toList, i + 1, expr⟩

/-- The clauses of a file. -/
def ofFile (s : Sources) (path : Text) : Except RunError (List Located) :=
  ((s.readText path).mapError (.unreadableFile path)).map (ofLines path)

/-- The clauses of files, one after the other. -/
def ofFiles (s : Sources) (paths : List Text) : Except RunError (List Located) :=
  (paths.mapM (ofFile s)).map List.flatten

/-- The clauses of standard input. -/
def ofStdin (s : Sources) : Except RunError (List Located) :=
  ((decodeUtf8 s.stdin).mapError .unreadableStdin).map (ofLines "<stdin>".toList)

/-- The clauses of a run: expressions, then files. Standard input is read where there is neither. -/
def ofInput (s : Sources) (paths exprs : List Text) : Except RunError (List Located) :=
  (if !paths.isEmpty then ofFiles s paths
    else if exprs.isEmpty then ofStdin s
    else .ok []).map (ofExprs exprs ++ ·)

end Located

end FilterClause
