import WhereClause.Proofs.Literal.Text
import WhereClause.Proofs.Rendering.Predicate
import WhereClause.Proofs.Rendering.Token

/-!
# A reader of clause text

The reader makes a tree of the tokens of a clause.  It is a recursive descent that tries the forms
of predicates one after the other.  A predicate that begins with an operand is told from a group by
its first tokens, because a list holds literals only.

What the reader makes of the clauses of trees is proved elsewhere; here are only its steps, each of
which takes tokens from the front or fails.
-/

namespace WhereClause

namespace Rendering

/-- A step of the reader: it takes tokens from the front, or fails. -/
abbrev ReadStep (α : Type) :=
  StateT (List Token) Option α

namespace ReadStep

/-! ### Tokens -/

/-- Takes the given token. -/
def take (token : Token) : ReadStep Unit
  | [] => none
  | t :: ts => if t = token then some ((), ts) else none

/-- Takes a word that satisfies the condition. -/
def word (p : String → Prop) [DecidablePred p] : ReadStep String
  | .word w :: ts => if p w then some (w, ts) else none
  | _ => none

/-- Takes a text between the given quotes. -/
def quoted (quote : Char) : ReadStep String
  | .quoted q text :: ts => if q = quote then some (text, ts) else none
  | _ => none

/-! ### Operands -/

/-- A text between the quotes of strings. -/
def quote (text : String) : String :=
  String.ofList (Quoted.encode Literal.quote text.toList)

/-- Takes a literal. -/
def literal : ReadStep Tree :=
  (do return .literal .string (quote (← quoted Literal.quote))) <|>
  (do return .literal .boolean (← word fun w => w = "TRUE" ∨ w = "FALSE")) <|>
  (do return .literal .number (← word fun w => StartsNumber w.toList)) <|>
  (do
    take (.word "TIMESTAMP")
    return .literal .timestamp ("TIMESTAMP " ++ quote (← quoted Literal.quote)))

/-- Takes a name. -/
def name : ReadStep Tree :=
  (do return .column (← quoted '"')) <|>
  (do return .column (← word fun w => IsBare w.toList ∧ w ∉ reservedWords))

/-- Takes the items of a list that has items, up to the parenthesis behind them. -/
def items : Nat → ReadStep (List Tree)
  | 0 => failure
  | n + 1 => do
    let item ← literal
    (do take .closing; return [item]) <|> (do take .comma; return item :: (← items n))

/-- Takes a list of literals. -/
def list (n : Nat) : ReadStep Tree := do
  take .opening
  (do take .closing; return .list []) <|> (do return .list (← items n))

/-- Takes an operand, a list of no more than `n` items. -/
def operand (n : Nat) : ReadStep Tree :=
  name <|> literal <|> list n

/-! ### Operators -/

/-- Takes the words between the operands of a binary operator. -/
def binaryOp : ReadStep BinaryOp
  | .word "=" :: .word "ANY" :: ts => some (.equalAny, ts)
  | .word "=" :: ts => some (.equal, ts)
  | .word "<>" :: ts => some (.notEqual, ts)
  | .word ">" :: ts => some (.greater, ts)
  | .word ">=" :: ts => some (.greaterEqual, ts)
  | .word "<" :: ts => some (.less, ts)
  | .word "<=" :: ts => some (.lessEqual, ts)
  | .word "IN" :: ts => some (.inList, ts)
  | .word "NOT" :: .word "IN" :: ts => some (.notInList, ts)
  | .word "LIKE" :: ts => some (.like, ts)
  | .word "NOT" :: .word "LIKE" :: ts => some (.notLike, ts)
  | _ => none

/-- Takes the words between the operands of a membership test of any value. -/
def anyOp : ReadStep BinaryOp
  | .word "IN" :: ts => some (.anyInList, ts)
  | .word "NOT" :: .word "IN" :: ts => some (.anyNotInList, ts)
  | _ => none

/-- Takes a null test without its operand. -/
def nullTest : ReadStep NullTest
  | .word "IS" :: .word "NULL" :: ts => some (.isNull, ts)
  | .word "IS" :: .word "NOT" :: .word "NULL" :: ts => some (.isNotNull, ts)
  | _ => none

/-- Takes the name of a function and the parenthesis behind it. -/
def functionOp : ReadStep FunctionOp
  | .word "CONTAINS" :: .opening :: ts => some (.contains, ts)
  | .word "IN_FOLDER" :: .opening :: ts => some (.inFolder, ts)
  | .word "IN_TREE" :: .opening :: ts => some (.inTree, ts)
  | _ => none

/-- Takes the word between two predicates. -/
def connective : ReadStep Connective
  | .word "AND" :: ts => some (.and, ts)
  | .word "OR" :: ts => some (.or, ts)
  | _ => none

/-! ### Predicates -/

/-- Takes a predicate that begins with an operand. -/
def test (n : Nat) : ReadStep Tree := do
  let left ← operand n
  (do
    let op ← binaryOp
    return .branch (.binary op) [left, ← operand n]) <|>
  (do return .branch (.nullTest (← nullTest)) [left])

/-- Takes a membership test of any value. -/
def anyTest (n : Nat) : ReadStep Tree := do
  take (.word "ANY")
  let left ← operand n
  let op ← anyOp
  return .branch (.binary op) [left, ← operand n]

/-- Takes a function of one operand or two. -/
def call (n : Nat) : ReadStep Tree := do
  let op ← functionOp
  let first ← operand n
  (do
    take .closing
    return .branch (.function op) [first]) <|>
  (do
    take .comma
    let second ← operand n
    take .closing
    return .branch (.function op) [first, second])

/-- Takes the relevance. -/
def score : ReadStep Tree := do
  take (.word "SCORE")
  take .opening
  take .closing
  return .branch .score []

/-- Takes what follows the left predicate of a group. -/
def groupTail (predicate : ReadStep Tree) (left : Tree) : ReadStep Tree := do
  let op ← connective
  let right ← predicate
  take .closing
  return .branch (.connective op) [left, right]

/-- Takes a group. -/
def group (predicate : ReadStep Tree) : ReadStep Tree := do
  take .opening
  groupTail predicate (← predicate)

/-- Takes a negation.  The parenthesis behind `NOT` is the first one of a group if a connective
follows the predicate. -/
def negation (predicate : ReadStep Tree) : ReadStep Tree := do
  take (.word "NOT")
  take .opening
  let operand ← predicate
  (do
    take .closing
    return .branch .negation [operand]) <|>
  (do return .branch .negation [← groupTail predicate operand])

/-- Takes a predicate of no more than `n` levels, in which no list has more than `n` items. -/
def predicate : Nat → ReadStep Tree
  | 0 => failure
  | n + 1 =>
    test n <|> anyTest n <|> call n <|> score <|> group (predicate n) <|> negation (predicate n)

end ReadStep

/-- The tree of a clause text.  No text has more levels or longer lists than it has characters. -/
def read? (text : String) : Option Tree :=
  match ReadStep.predicate (text.length + 1) (scan text.toList) with
  | some (t, []) => some t
  | _ => none

example : read? "(a = 1 AND NOT (b IN ('x, y', 2)))" = some (.branch (.connective .and)
    [.branch (.binary .equal) [.column "a", .literal .number "1"],
      .branch .negation [.branch (.binary .inList)
        [.column "b", .list [.literal .string "'x, y'", .literal .number "2"]]]]) := by
  decide +kernel

end Rendering

end WhereClause
