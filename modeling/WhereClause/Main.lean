import WhereClause.Command.Program

/-!
# Running the program

The program with its arguments, its environment and its streams.
-/

namespace WhereClause

/-- The variable of the environment that sets the depth. -/
def depthVariable : String :=
  "QWALK_MAX_DEPTH"

/-- Everything that is left on a stream. -/
partial def readAll (stream : IO.FS.Stream) (taken : ByteArray) : IO ByteArray := do
  let chunk ← stream.read 65536
  if chunk.isEmpty then return taken else readAll stream (taken ++ chunk)

/-- The standard input, unless it is a terminal. -/
def readStandardInput : IO (Option ByteArray) := do
  let stdin ← IO.getStdin
  if ← stdin.isTty then return none else return some (← readAll stdin ByteArray.empty)

end WhereClause

/-- Runs the program; its standard input is read only where it is wanted. -/
def main (arguments : List String) : IO UInt32 := do
  let environment ← IO.getEnv WhereClause.depthVariable
  let wanted := (WhereClause.Invocation.ofArguments? environment arguments).any (·.ReadsInput)
  let stdin ← if wanted then WhereClause.readStandardInput else pure none
  let outcome := WhereClause.Program.run arguments environment stdin
  IO.print outcome.stdout
  IO.eprint outcome.stderr
  return outcome.exit
