import FilterClause.CommandLine.Run

/-!
# The program

The steps of a run on the system that the program runs on.
-/

namespace FilterClause.Program

/-- The cause of a failed access to a file. -/
def fileError (e : IO.Error) : FileError :=
  match e with
  | .noFileOrDirectory .. => .notFound
  | .inappropriateType .. => .isDirectory
  | e => .other e.toString.toList

/-- What an access to a file gives, or why it failed. -/
def access {α : Type} (action : IO α) : IO (Except FileError α) := do
  try return .ok (← action)
  catch e => return .error (fileError e)

/-- All bytes of a stream behind those in `before`. -/
partial def readAll (stream : IO.FS.Stream) (before : ByteArray) : IO ByteArray := do
  let bytes ← stream.read 65536
  if bytes.isEmpty then return before else readAll stream (before ++ bytes)

/-- The files and the streams of the program. -/
def system : System IO where
  read path := access (IO.FS.readBinFile (String.ofList path))
  readStdin := do readAll (← IO.getStdin) .empty
  write path bytes := access (IO.FS.writeBinFile (String.ofList path) bytes)
  print t := IO.print (String.ofList t)
  warn t := IO.eprint (String.ofList t)

end FilterClause.Program

/-- The program cleans the clauses that its arguments name. -/
def main (arguments : List String) : IO UInt32 := do
  return (← FilterClause.Program.system.run (arguments.map String.toList)).toUInt32
