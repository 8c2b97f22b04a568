import WhereClause.Command
import WhereClause.Command.Invocation

/-!
# The program

The program as a function: from its arguments, the depth that the environment sets, and its standard
input, to what it writes and the code it exits with.
-/

namespace WhereClause

/-- What a run of the program leaves behind. -/
structure Outcome where
  exit : UInt32
  stdout : String
  stderr : String
deriving DecidableEq, Repr

/-- The outcome of an answer, which is written on a line of its own, or of an error. -/
def Outcome.ofAnswer : Except CommandError String → Outcome
  | .ok text => ⟨0, text ++ "\n", ""⟩
  | .error e => ⟨1, "", e.message ++ "\n"⟩

namespace Program

/-- The name of the program and its version. -/
def versionText : String :=
  "qwalk 0.1.0\n"

/-- What is written when the arguments make no sense. -/
def usageText : String :=
  "usage: qwalk trace [-i TEXT] [-p] [--max-depth N] | sql [-i TEXT] [--max-depth N] | tags\n"

/-- The input of a command: the one among the arguments, or else the standard input, which is absent
if it is a terminal and has to be UTF-8. -/
def inputOf (request : WalkRequest) (stdin : Option ByteArray) :
    Except CommandError (Option String) :=
  match request.input, stdin with
  | some text, _ => .ok (some text)
  | none, none => .ok none
  | none, some bytes =>
    match String.fromUTF8? bytes with
    | some text => .ok (some text)
    | none => .error .notText

/-- Carries out an invocation. -/
def execute (stdin : Option ByteArray) : Invocation → Outcome
  | .version => ⟨0, versionText, ""⟩
  | .tags => ⟨0, Tag.table, ""⟩
  | .trace request pretty => Outcome.ofAnswer do
    let document ← Command.trace (← inputOf request stdin) request.maxDepth
    return if pretty then document.indented else document.compact
  | .sql request => Outcome.ofAnswer do
    Command.clauseText (← inputOf request stdin) request.maxDepth

/-- Runs the program. -/
def run (arguments : List String) (environment : Option String) (stdin : Option ByteArray) :
    Outcome :=
  match Invocation.ofArguments? environment arguments with
  | some invocation => execute stdin invocation
  | none => ⟨2, "", usageText⟩

end Program

end WhereClause
