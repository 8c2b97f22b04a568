import WhereClause.Failure
import WhereClause.LetterCase
import WhereClause.Literal

/-!
# Values of literal nodes

A literal node carries the spelling of a literal, and its kind says how the spelling is read.
-/

namespace WhereClause

namespace Literal

/-! ### Spellings -/

/-- The integers that fit into 64 bits with a sign. -/
def FitsInt64 (i : Int) : Prop :=
  -9223372036854775808 ≤ i ∧ i ≤ 9223372036854775807

instance (i : Int) : Decidable (FitsInt64 i) :=
  inferInstanceAs (Decidable (_ ∧ _))

/-- The value of a numeral: an integer of 64 bits if it has neither point nor exponent, and
otherwise the nearest binary64 number, which has to be finite. -/
def ofNumeral? (n : Numeral) : Option Literal :=
  if n.IsWhole then
    if FitsInt64 n.wholePart then some (integer n.wholePart) else none
  else
    let x := Binary64.ofDecimal n.toDecimal
    if x.IsFinite then some (float x) else none

/-- The value of a spelled number. -/
def readNumber (spelling : String) : Except QueryError Literal :=
  match (Numeral.read? spelling.toList).bind ofNumeral? with
  | some value => .ok value
  | none => .error (.malformedNumber spelling)

/-- The text without its first and its last character, which are taken for quotes. -/
def unquote (text : List Char) : List Char :=
  text.tail.dropLast

/-- What lies between the first and the last quote of a text that has two quotes. -/
def quotedSection? (text : List Char) : Option (List Char) :=
  match text.dropWhile (· ≠ quote) with
  | [] => none
  | _ :: rest =>
    match rest.reverse.dropWhile (· ≠ quote) with
    | [] => none
    | _ :: inner => some inner.reverse

/-- The timestamp of a text. -/
def readTimestamp (text : String) : Except QueryError Timestamp :=
  match Timestamp.read? text.toList with
  | some t => .ok t
  | none => .error (.malformedTimestamp text)

/-- The value of a spelling of the given kind. Every spelling but that of truth is false, and a
string keeps what is between its quotes as it is. -/
def ofSpelling : LiteralKind → String → Except QueryError Literal
  | .boolean, spelling => .ok (boolean (foldCase spelling = foldCase "true"))
  | .number, spelling => readNumber spelling
  | .string, spelling => .ok (string (String.ofList (unquote spelling.toList)))
  | .timestamp, spelling =>
    match quotedSection? spelling.toList with
    | some inner => (readTimestamp (String.ofList inner)).map timestamp
    | none => .error (.malformedTimestamp spelling)

/-! ### Nodes -/

/-- The value of a literal node. -/
def ofTree : Tree → Except QueryError Literal
  | .node (.literal kind) spelling _ => ofSpelling kind spelling
  | .node tag _ _ => .error (.unexpectedLiteral tag)

/-- The values of the children of a node, in order, or the error of the first that has none. -/
def listOfTree (t : Tree) : Except QueryError (List Literal) :=
  t.children.mapM ofTree

end Literal

end WhereClause
