import WhereClause.Binary64
import WhereClause.Json.Token

/-!
# Tokens of a text

A text is divided into tokens one character at a time. What a character means depends on where it
stands, between tokens, in a word or number, or inside quotes; `Token.Scanner` keeps track of that.

Numbers have to fit into a binary64 number. The reader of tokens decides this by an approximation
that works with a 64-bit significand, described at `Token.Significand`.
-/

namespace WhereClause

namespace Json

namespace Token

/-! ### Numbers -/

/-- The numeral is a number of JSON: it has no plus in front, at least one digit before the point
and no zero in front of others, and at least one digit after the point if there is one. -/
def IsJsonNumeral (n : Numeral) : Prop :=
  n.sign ≠ some .plus ∧ n.whole ≠ [] ∧ (n.whole.head? = some '0' → n.whole.length = 1) ∧
    n.fraction ≠ some []

instance (n : Numeral) : Decidable (IsJsonNumeral n) :=
  inferInstanceAs (Decidable (_ ∧ _ ∧ _ ∧ _))

/-- A number with as many digits of a numeral as 64 bits hold, scaled by a power of ten. -/
structure Significand where
  value : Nat
  exponent : Int

namespace Significand

/-- Appends digits before the point. From the first digit that no longer fits they are counted in
the exponent only. -/
def appendWhole : Significand → List Char → Significand
  | s, [] => s
  | s, c :: cs =>
    let value := 10 * s.value + (c.toNat - '0'.toNat)
    if value < UInt64.size then appendWhole { s with value } cs
    else { s with exponent := s.exponent + (cs.length + 1 : Nat) }

/-- Appends digits after the point. From the first digit that does not fit they are dropped. -/
def appendFraction : Significand → List Char → Significand
  | s, [] => s
  | s, c :: cs =>
    let value := 10 * s.value + (c.toNat - '0'.toNat)
    if value < UInt64.size then appendFraction ⟨value, s.exponent - 1⟩ cs else s

/-- The significand of a numeral with its full exponent. -/
def ofNumeral (n : Numeral) : Significand :=
  let s := (appendWhole ⟨0, 0⟩ n.whole).appendFraction (n.fraction.getD [])
  { s with exponent := s.exponent + n.exponent.getD 0 }

/-- The product of the significand and the power of ten, both rounded to binary64 numbers, is too
great for a binary64 number. Dividing by a power of ten never is. -/
def Overflows (s : Significand) : Prop :=
  s.value ≠ 0 ∧ 0 ≤ s.exponent ∧
    Binary64.mul (Binary64.nearest s.value 1) (Binary64.nearestDecimal ⟨false, 1, s.exponent⟩) =
      Binary64.infinity

instance (s : Significand) : Decidable s.Overflows :=
  inferInstanceAs (Decidable (_ ∧ _ ∧ _))

end Significand

/-- The token of a word without quotes, if it is one: `null`, a truth value, or a number that does
not overflow. -/
def ofWord? (word : List Char) : Option Token :=
  match String.ofList word with
  | "null" => some null
  | "true" => some (boolean true)
  | "false" => some (boolean false)
  | _ => do
    let n ← Numeral.read? word
    if IsJsonNumeral n ∧ ¬(Significand.ofNumeral n).Overflows then some (number n.toDecimal)
    else none

/-! ### Escapes -/

/-- The character that a letter after a backslash stands for. -/
def unescape? : Char → Option Char
  | '"' => some '"'
  | '\\' => some '\\'
  | '/' => some '/'
  | 'b' => some '\x08'
  | 'f' => some '\x0c'
  | 'n' => some '\n'
  | 'r' => some '\r'
  | 't' => some '\t'
  | _ => none

/-- The value of a hexadecimal digit of either case. -/
def hexValue? (c : Char) : Option Nat :=
  if c.isDigit then some (c.toNat - '0'.toNat)
  else if 'a' ≤ c ∧ c ≤ 'f' then some (c.toNat - 'a'.toNat + 10)
  else if 'A' ≤ c ∧ c ≤ 'F' then some (c.toNat - 'A'.toNat + 10)
  else none

/-- The unit is the first half of a character beyond the first 65536. -/
def IsHighSurrogate (unit : Nat) : Prop :=
  0xD800 ≤ unit ∧ unit < 0xDC00

instance (unit : Nat) : Decidable (IsHighSurrogate unit) :=
  inferInstanceAs (Decidable (_ ∧ _))

/-- The unit is the second half of a character beyond the first 65536. -/
def IsLowSurrogate (unit : Nat) : Prop :=
  0xDC00 ≤ unit ∧ unit < 0xE000

instance (unit : Nat) : Decidable (IsLowSurrogate unit) :=
  inferInstanceAs (Decidable (_ ∧ _))

/-! ### Scanning -/

/-- Where the next character stands. -/
inductive Mode
  | between
  /-- In a word whose characters so far are given, the last one first. -/
  | word (taken : List Char)
  /-- Inside quotes, after the given characters, the last one first. If the last escape was the
  first half of a character, it is `high`, and the second half has to follow. -/
  | quotes (taken : List Char) (high : Option Nat)
  /-- After a backslash. -/
  | escape (taken : List Char) (high : Option Nat)
  /-- In the four hexadecimal digits of an escape, after so many digits of the given value. -/
  | hex (taken : List Char) (high : Option Nat) (count value : Nat)
deriving Repr

/-- The state of a division into tokens: the tokens so far, the last one first, and where the next
character stands. -/
structure Scanner where
  tokens : List Token
  mode : Mode
deriving Repr

/-- The character may stand between tokens. -/
def IsBlank (c : Char) : Prop :=
  c = ' ' ∨ c = '\t' ∨ c = '\n' ∨ c = '\r'

instance (c : Char) : Decidable (IsBlank c) :=
  inferInstanceAs (Decidable (_ ∨ _ ∨ _ ∨ _))

/-- The character may stand in a word or number. -/
def IsWordChar (c : Char) : Prop :=
  c.isAlphanum ∨ c = '+' ∨ c = '-' ∨ c = '.'

instance (c : Char) : Decidable (IsWordChar c) :=
  inferInstanceAs (Decidable (_ ∨ _ ∨ _ ∨ _))

/-- The token of a single character. -/
def ofChar? : Char → Option Token
  | '\x7b' => some openBrace
  | '\x7d' => some closeBrace
  | '[' => some openBracket
  | ']' => some closeBracket
  | ':' => some colon
  | ',' => some comma
  | _ => none

/-- What follows the tokens when a character comes between them. -/
def begin (tokens : List Token) (c : Char) : Option Scanner :=
  if IsBlank c then some ⟨tokens, .between⟩
  else if c = '"' then some ⟨tokens, .quotes [] none⟩
  else if IsWordChar c then some ⟨tokens, .word [c]⟩
  else (ofChar? c).map fun t => ⟨t :: tokens, .between⟩

/-- What follows inside quotes when an escape has given a unit of text. A first half waits for the
second, and no half stands alone. -/
def ofUnit (tokens : List Token) (taken : List Char) (high : Option Nat) (unit : Nat) :
    Option Scanner :=
  match high with
  | none =>
    if IsHighSurrogate unit then some ⟨tokens, .quotes taken (some unit)⟩
    else if IsLowSurrogate unit then none
    else some ⟨tokens, .quotes (Char.ofNat unit :: taken) none⟩
  | some first =>
    if IsLowSurrogate unit then
      let c := Char.ofNat (0x10000 + (first - 0xD800) * 0x400 + (unit - 0xDC00))
      some ⟨tokens, .quotes (c :: taken) none⟩
    else
      none

/-- The state after one more character. -/
def Scanner.step (s : Scanner) (c : Char) : Option Scanner :=
  match s.mode with
  | .between => begin s.tokens c
  | .word taken =>
    if IsWordChar c then some ⟨s.tokens, .word (c :: taken)⟩
    else do
      let t ← ofWord? taken.reverse
      begin (t :: s.tokens) c
  | .quotes taken none =>
    if c = '"' then some ⟨string (String.ofList taken.reverse) :: s.tokens, .between⟩
    else if c = '\\' then some ⟨s.tokens, .escape taken none⟩
    else if c.toNat < 32 then none
    else some ⟨s.tokens, .quotes (c :: taken) none⟩
  | .quotes taken (some high) =>
    if c = '\\' then some ⟨s.tokens, .escape taken (some high)⟩ else none
  | .escape taken high =>
    if c = 'u' then some ⟨s.tokens, .hex taken high 0 0⟩
    else if high = none then
      (unescape? c).map fun d => ⟨s.tokens, .quotes (d :: taken) none⟩
    else none
  | .hex taken high count value => do
    let value := 16 * value + (← hexValue? c)
    if count < 3 then some ⟨s.tokens, .hex taken high (count + 1) value⟩
    else ofUnit s.tokens taken high value

/-- The tokens at the end of a text. A word may end with it, quotes may not be open. -/
def Scanner.finish? (s : Scanner) : Option (List Token) :=
  match s.mode with
  | .between => some s.tokens.reverse
  | .word taken => (ofWord? taken.reverse).map fun t => (t :: s.tokens).reverse
  | _ => none

/-- The tokens of a text, if it consists of tokens and blanks. -/
def scan? (text : List Char) : Option (List Token) := do
  (← text.foldlM Scanner.step ⟨[], .between⟩).finish?

end Token

end Json

end WhereClause
