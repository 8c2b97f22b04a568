import WhereClause.Binary64.Text
import WhereClause.Quoted
import WhereClause.Timestamp.Text

/-!
# Literals

The value of a literal, and the text of a value as a literal of the clause language.
-/

namespace WhereClause

/-- The value of a literal. -/
inductive Literal
  | boolean (value : Bool)
  | integer (value : Int)
  | float (value : Binary64)
  | string (value : String)
  | timestamp (value : Timestamp)
deriving DecidableEq, Repr

namespace Literal

/-! ### Parts -/

/-- The word for the kind of the value. -/
def kind : Literal → String
  | boolean _ => "boolean"
  | integer _ => "integer"
  | float _ => "float"
  | string _ => "string"
  | timestamp _ => "timestamp"

/-- The truth value, if it is one. -/
def asBool? : Literal → Option Bool
  | boolean b => some b
  | _ => none

/-- The integer, if it is one. -/
def asInt? : Literal → Option Int
  | integer i => some i
  | _ => none

/-- The number, an integer being rounded to the nearest binary64 number. -/
def asFloat? : Literal → Option Binary64
  | integer i => some (Binary64.ofInt i)
  | float x => some x
  | _ => none

/-- The string, if it is one. -/
def asString? : Literal → Option String
  | string s => some s
  | _ => none

/-- The timestamp, if it is one. -/
def asTimestamp? : Literal → Option Timestamp
  | timestamp t => some t
  | _ => none

/-! ### Equality of values -/

/-- The values are of one kind and equal: floats as numbers, timestamps as moments. -/
def SameValue : Literal → Literal → Prop
  | boolean a, boolean b => a = b
  | integer a, integer b => a = b
  | float a, float b => a.NumEq b
  | string a, string b => a = b
  | timestamp a, timestamp b => a.moment = b.moment
  | _, _ => False

instance (a b : Literal) : Decidable (SameValue a b) := by
  cases a <;> cases b <;> unfold SameValue <;> infer_instance

/-! ### Text -/

/-- Floats are written with a power of ten from `10 ^ 16` on, and below `10 ^ -4`. -/
def floatLayout : Binary64.Layout where
  least := -4
  beyond := 16

/-- The quote around strings and timestamps. -/
def quote : Char :=
  '\x27'

/-- The value as a literal of the clause language. Only a timestamp may be without a text. -/
def text? : Literal → Option String
  | boolean true => some "TRUE"
  | boolean false => some "FALSE"
  | integer i => some (String.ofList (Numeral.ofInt i))
  | float x => some (String.ofList (x.text floatLayout))
  | string s => some (String.ofList (Quoted.encode quote s.toList))
  | timestamp t =>
    t.write?.map fun text => "TIMESTAMP " ++ String.ofList (quote :: (text ++ [quote]))

end Literal

end WhereClause
