import WhereClause.Json.Document
import WhereClause.Rendering
import WhereClause.Trace
import WhereClause.Tree.Document

/-!
# Commands

What can be asked of a clause given as a JSON text: the trace of a walk through it, and its text.
A document that is `null` stands for a clause that is absent.
-/

namespace WhereClause

/-- Why a command has no answer. -/
inductive CommandError
  /-- There is no input at all. -/
  | noInput
  /-- The input is not text. -/
  | notText
  | notJson
  | notATree (error : TreeError)
  | halted (halt : Halt)
deriving DecidableEq, Repr

/-- The error in words. -/
def CommandError.message : CommandError → String
  | noInput => "No input provided. Use --input or pipe a JSON tree to stdin."
  | notText => "IO error: stream did not contain valid UTF-8"
  | notJson => "Invalid JSON: the input is not a JSON value"
  | notATree e => "Invalid tree: " ++ e.message
  | halted (.error e) => "Query error: " ++ e.message
  | halted (.defect .missingChild) => "Defective tree: a node has too few children"
  | halted (.defect .unprintable) => "Defective tree: a value has no text"

namespace Command

/-- How many arrays and objects may lie around each other in an input. -/
def nestingLimit : Nat :=
  127

/-- The clause that an input denotes. -/
def load (input : Option String) : Except CommandError (Option Tree) :=
  match input with
  | none => .error .noInput
  | some text =>
    match Json.read? nestingLimit text with
    | none => .error .notJson
    | some .null => .ok none
    | some document =>
      match Tree.ofJson document with
      | .ok t => .ok (some t)
      | .error e => .error (.notATree e)

/-- The limit of levels of a walk, the default limit unless another is given. -/
def levelLimit (maxDepth : Option Nat) : Nat :=
  maxDepth.getD Walk.defaultLimit

/-- What a handler that starts in state `s` makes of a walk through an input. -/
def walkInput {σ : Type} (handle : Handler σ) (s : σ) (input : Option String)
    (maxDepth : Option Nat) : Except CommandError σ := do
  let root ← load input
  match (walk handle (some (levelLimit maxDepth)) root).runFrom s with
  | (.ok (), s) => return s
  | (.error halt, _) => throw (.halted halt)

/-- The trace of a walk through the clause, as a document. -/
def trace (input : Option String) (maxDepth : Option Nat) : Except CommandError Json := do
  return (← walkInput (Trace.record none) #[] input maxDepth).toJson

/-- The text of the clause. -/
def clauseText (input : Option String) (maxDepth : Option Nat) : Except CommandError String :=
  walkInput Rendering.render "" input maxDepth

end Command

end WhereClause
