import WhereClause.Numeral

/-!
# JSON values

A JSON value as a document gives it: the members of an object stay in the order in which they are
written, and where a name is written twice the last member counts (`Json.field?`).
-/

namespace WhereClause

/-- A JSON value. -/
inductive Json
  | null
  | boolean (value : Bool)
  | number (value : Decimal)
  | string (value : String)
  | array (items : List Json)
  | object (members : List (String × Json))
deriving Repr

namespace Json

/-- The value of the last member of that name in a list of members. -/
def lookup? (name : String) (members : List (String × Json)) : Option Json :=
  (members.reverse.find? fun member => member.1 == name).map Prod.snd

@[simp] theorem lookup?_nil (name : String) : lookup? name [] = none := rfl

/-- A member counts only if no later one has its name. -/
theorem lookup?_cons (name k : String) (v : Json) (ms : List (String × Json)) :
    lookup? name ((k, v) :: ms) = (lookup? name ms).or (if k = name then some v else none) := by
  simp only [lookup?, List.reverse_cons, List.find?_append, List.find?_singleton, Option.map_or]
  by_cases h : k = name <;> simp [h]

/-- The value of an object's member of that name, of the last one if there are several. -/
def field? (name : String) : Json → Option Json
  | object members => lookup? name members
  | _ => none

/-! ### Forms -/

/-- The forms of values. -/
inductive Form
  | null
  | boolean
  | number
  | string
  | array
  | object
deriving DecidableEq, Repr

/-- The word for a form. -/
def Form.name : Form → String
  | null => "null"
  | boolean => "boolean"
  | number => "number"
  | string => "string"
  | array => "array"
  | object => "object"

/-- The form of a value. -/
def form : Json → Form
  | null => .null
  | boolean _ => .boolean
  | number _ => .number
  | string _ => .string
  | array _ => .array
  | object _ => .object

/-! ### Nesting -/

mutual

/-- How many arrays and objects lie around each other in the value. -/
def nesting : Json → Nat
  | array items => 1 + nestingItems items
  | object members => 1 + nestingMembers members
  | _ => 0

/-- The greatest nesting among the items. -/
def nestingItems : List Json → Nat
  | [] => 0
  | v :: vs => max (nesting v) (nestingItems vs)

/-- The greatest nesting among the members. -/
def nestingMembers : List (String × Json) → Nat
  | [] => 0
  | (_, v) :: ms => max (nesting v) (nestingMembers ms)

end

end Json

end WhereClause
