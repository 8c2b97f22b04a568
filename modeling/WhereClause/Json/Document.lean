import WhereClause.Json.Token.Scan

/-!
# JSON texts

A JSON value is written as a sequence of tokens, and read from one by a machine with a stack of the
arrays and objects that are still open. The machine is told how many of them may be open at a time.
-/

namespace WhereClause

namespace Json

/-! ### Writing -/

mutual

/-- The tokens of a value, followed by others. -/
def tokensThen : Json → List Token → List Token
  | null, rest => .null :: rest
  | boolean b, rest => .boolean b :: rest
  | number d, rest => .number d :: rest
  | string s, rest => .string s :: rest
  | array [], rest => .openBracket :: .closeBracket :: rest
  | array (v :: vs), rest => .openBracket :: tokensThen v (itemsThen vs (.closeBracket :: rest))
  | object [], rest => .openBrace :: .closeBrace :: rest
  | object ((k, v) :: ms), rest =>
    .openBrace :: .string k :: .colon :: tokensThen v (membersThen ms (.closeBrace :: rest))

/-- The tokens of further items of an array, each after a comma, followed by others. -/
def itemsThen : List Json → List Token → List Token
  | [], rest => rest
  | v :: vs, rest => .comma :: tokensThen v (itemsThen vs rest)

/-- The tokens of further members of an object, each after a comma, followed by others. -/
def membersThen : List (String × Json) → List Token → List Token
  | [], rest => rest
  | (k, v) :: ms, rest => .comma :: .string k :: .colon :: tokensThen v (membersThen ms rest)

end

/-- The tokens of a value. -/
def tokens (v : Json) : List Token :=
  tokensThen v []

/-- The text of a value without blanks. -/
def compact (v : Json) : String :=
  String.ofList (Token.compact v.tokens)

/-- The text of a value on indented lines. -/
def indented (v : Json) : String :=
  String.ofList (Token.indented v.tokens)

/-! ### Reading -/

/-- An open array or object around the value that is being read, with what was read of it, the last
item first. -/
inductive Frame
  | array (items : List Json)
  /-- The value that is being read belongs to `key`. -/
  | object (members : List (String × Json)) (key : String)

/-- What may follow in a text, and the arrays and objects that are open around it. -/
inductive State
  | value (stack : List Frame)
  /-- Directly after an opening bracket: an item or the closing bracket. -/
  | firstItem (stack : List Frame)
  | afterItem (items : List Json) (stack : List Frame)
  /-- Directly after an opening brace: a name or the closing brace. -/
  | firstKey (stack : List Frame)
  | key (members : List (String × Json)) (stack : List Frame)
  | colon (members : List (String × Json)) (key : String) (stack : List Frame)
  | afterMember (members : List (String × Json)) (stack : List Frame)
  | finished (value : Json)

namespace State

/-- The state after a value that lies directly in the innermost open array or object. -/
def complete (v : Json) : List Frame → State
  | [] => finished v
  | .array items :: stack => afterItem (v :: items) stack
  | .object members k :: stack => afterMember ((k, v) :: members) stack

/-- The state after the first token of a value. A bracket or brace may be opened while fewer than
`limit` are open. -/
def begin (limit : Nat) (stack : List Frame) : Token → Option State
  | .null => some (complete .null stack)
  | .boolean b => some (complete (.boolean b) stack)
  | .number d => some (complete (.number d) stack)
  | .string s => some (complete (.string s) stack)
  | .openBracket => if stack.length < limit then some (firstItem stack) else none
  | .openBrace => if stack.length < limit then some (firstKey stack) else none
  | _ => none

/-- The state after one more token. -/
def step (limit : Nat) : State → Token → Option State
  | value stack, t => begin limit stack t
  | firstItem stack, .closeBracket => some (complete (.array []) stack)
  | firstItem stack, t => begin limit (.array [] :: stack) t
  | afterItem items stack, .comma => some (value (.array items :: stack))
  | afterItem items stack, .closeBracket => some (complete (.array items.reverse) stack)
  | firstKey stack, .closeBrace => some (complete (.object []) stack)
  | firstKey stack, .string k => some (colon [] k stack)
  | key members stack, .string k => some (colon members k stack)
  | colon members k stack, .colon => some (value (.object members k :: stack))
  | afterMember members stack, .comma => some (key members stack)
  | afterMember members stack, .closeBrace => some (complete (.object members.reverse) stack)
  | _, _ => none

end State

/-- The value that a sequence of tokens denotes, if it is a value with at most `limit` arrays and
objects around each other. -/
def ofTokens? (limit : Nat) (tokens : List Token) : Option Json :=
  match tokens.foldlM (State.step limit) (.value []) with
  | some (.finished v) => some v
  | _ => none

/-- Reads a text that is a JSON value with at most `limit` arrays and objects around each other. -/
def read? (limit : Nat) (text : String) : Option Json := do
  ofTokens? limit (← Token.scan? text.toList)

end Json

end WhereClause
