import WhereClause.Call

/-!
# Failures

Why a literal has no value, and why a walk ends early. A walk ends either with an error, which is an
answer about the clause, or at a defect, which no well-formed tree brings about.
-/

namespace WhereClause

/-- Why a handler refuses to go on. -/
inductive Rejection
  /-- A recorder was told to refuse this hook. -/
  | hook (hook : Hook)
  /-- A node with this tag cannot be written as an operand. -/
  | operand (tag : Tag)
  /-- A reason in the words of some other handler. -/
  | other (reason : String)
deriving DecidableEq, Repr

/-- The reason in words. -/
def Rejection.message : Rejection → String
  | hook h => h.name ++ " rejected by recorder"
  | operand tag => "cannot translate " ++ tag.grammarName ++ " as an operand"
  | other reason => reason

/-- Why a clause, or a literal in it, cannot be dealt with. -/
inductive QueryError
  /-- A literal was expected at a node with another tag. -/
  | unexpectedLiteral (tag : Tag)
  | malformedTimestamp (text : String)
  | malformedNumber (text : String)
  /-- The clause has more levels than the limit. -/
  | tooComplex (limit : Nat)
  | rejected (reason : Rejection)
deriving DecidableEq, Repr

/-- The error in words. -/
def QueryError.message : QueryError → String
  | unexpectedLiteral tag => "unexpected literal kind: " ++ tag.grammarName ++ " is not a literal"
  | malformedTimestamp text => "malformed timestamp literal: " ++ text
  | malformedNumber text => "malformed numeric literal: " ++ text
  | tooComplex limit => "query too complex: nesting exceeds " ++ toString limit ++ " levels"
  | rejected reason => reason.message

/-- A flaw in what a walk is given. -/
inductive Defect
  /-- A node has fewer children than its tag needs. -/
  | missingChild
  /-- A value has no text. -/
  | unprintable
deriving DecidableEq, Repr

/-- Why a walk ends early. -/
inductive Halt
  | error (error : QueryError)
  | defect (defect : Defect)
deriving DecidableEq, Repr

end WhereClause
