import WhereClause.Json

/-!
# JSON tokens

The tokens of a JSON text, and what is written for each. Between tokens only blanks may stand, and
they mean nothing; a text is therefore laid out in two ways, closed up (`Token.compact`) and on
indented lines (`Token.indented`).
-/

namespace WhereClause

namespace Json

/-- A token of a JSON text. -/
inductive Token
  | openBrace
  | closeBrace
  | openBracket
  | closeBracket
  | colon
  | comma
  | null
  | boolean (value : Bool)
  | number (value : Decimal)
  | string (value : String)
deriving DecidableEq, Repr

namespace Token

/-! ### Text -/

/-- How a character is written inside quotes: quotes, backslashes and control characters are
escaped, with a letter where there is one for them, and all others stand for themselves. -/
def escape (c : Char) : List Char :=
  if c = '"' ∨ c = '\\' then ['\\', c]
  else if c = '\x08' then ['\\', 'b']
  else if c = '\x0c' then ['\\', 'f']
  else if c = '\n' then ['\\', 'n']
  else if c = '\r' then ['\\', 'r']
  else if c = '\t' then ['\\', 't']
  else if c.toNat < 32 then
    ['\\', 'u', '0', '0', Nat.digitChar (c.toNat / 16), Nat.digitChar (c.toNat % 16)]
  else [c]

/-- A text in quotes. -/
def quoted (text : String) : List Char :=
  '"' :: (text.toList.flatMap escape ++ ['"'])

/-- A decimal, with a power of ten if it is not a whole number of ones. -/
def decimalText (d : Decimal) : List Char :=
  let digits := Numeral.ofNat d.significand
  (if d.negative then '-' :: digits else digits) ++
    (if d.exponent = 0 then [] else 'e' :: Numeral.ofInt d.exponent)

/-- What is written for a token. -/
def text : Token → List Char
  | openBrace => ['\x7b']
  | closeBrace => ['\x7d']
  | openBracket => ['[']
  | closeBracket => [']']
  | colon => [':']
  | comma => [',']
  | null => ['n', 'u', 'l', 'l']
  | boolean true => ['t', 'r', 'u', 'e']
  | boolean false => ['f', 'a', 'l', 's', 'e']
  | number d => decimalText d
  | string s => quoted s

/-! ### Layout -/

/-- The tokens without blanks. -/
def compact (ts : List Token) : List Char :=
  ts.flatMap text

/-- A new line, indented by two blanks for each open array or object. -/
def newline (level : Nat) : List Char :=
  '\n' :: List.replicate (2 * level) ' '

/-- The blanks between two tokens on indented lines, where `level` arrays and objects are open:
each item and each closing bracket has a line of its own, but an array or object without items
stays on one line, and a blank follows a colon. -/
def gap (level : Nat) : (before after : Token) → List Char
  | openBracket, closeBracket | openBrace, closeBrace => []
  | openBracket, _ | openBrace, _ | comma, _ => newline level
  | _, closeBracket | _, closeBrace => newline (level - 1)
  | colon, _ => [' ']
  | _, _ => []

/-- The number of open arrays and objects after a token. -/
def levelAfter (level : Nat) : Token → Nat
  | openBracket | openBrace => level + 1
  | closeBracket | closeBrace => level - 1
  | _ => level

/-- The tokens on indented lines, after a token that has been written. -/
def indentedAfter (level : Nat) (before : Token) : List Token → List Char
  | [] => []
  | t :: ts => gap level before t ++ text t ++ indentedAfter (levelAfter level t) t ts

/-- The tokens on indented lines. -/
def indented : List Token → List Char
  | [] => []
  | t :: ts => text t ++ indentedAfter (levelAfter 0 t) t ts

end Token

end Json

end WhereClause
