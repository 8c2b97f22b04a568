import WhereClause.LetterCase

/-!
# Tags of clause trees

Every node of a clause tree carries a tag, and the set of tags is closed. The tags fall into
families that a walk treats alike, so a family is a constructor of `Tag` and its members are an
enumeration of their own.

Each tag has a grammar name, which is found again whatever its letter case (`Tag.ofName?_name`), and
an `Arity` saying how many children it takes.
-/

namespace WhereClause

/-! ### Families -/

/-- An operator between two operands that is neither `AND` nor `OR`. -/
inductive BinaryOp
  | equal
  | notEqual
  | greater
  | greaterEqual
  | less
  | lessEqual
  /-- The left operand is a member of the list on the right. -/
  | inList
  | notInList
  /-- Some value of a multi-valued column is a member of the list. -/
  | anyInList
  | anyNotInList
  /-- The literal on the left equals some value of the multi-valued column on the right. -/
  | equalAny
  | like
  | notLike
deriving DecidableEq, Repr

/-- An operator that joins two predicates. -/
inductive Connective
  | and
  | or
deriving DecidableEq, Repr

/-- A test whether a column has a value at all. -/
inductive NullTest
  | isNull
  | isNotNull
deriving DecidableEq, Repr

/-- A predicate written as a function of an argument and, optionally, a qualifying column. -/
inductive FunctionOp
  | contains
  | inFolder
  | inTree
deriving DecidableEq, Repr

/-- A kind of literal. -/
inductive LiteralKind
  | boolean
  | number
  | string
  | timestamp
deriving DecidableEq, Repr

/-- A kind of name. -/
inductive NameKind
  /-- A reference to a column. -/
  | column
  /-- A bare identifier, such as a qualifier or an alias. -/
  | identifier
deriving DecidableEq, Repr

/-- The syntactic category of a tree node. -/
inductive Tag
  /-- The marker of a whole clause, which is no predicate itself. -/
  | clause
  | binary (op : BinaryOp)
  | negation
  | connective (op : Connective)
  | nullTest (test : NullTest)
  | function (op : FunctionOp)
  /-- The relevance of a row, a function without arguments. -/
  | score
  | literal (kind : LiteralKind)
  /-- A parenthesised list of literals. -/
  | list
  | name (kind : NameKind)
deriving DecidableEq, Repr

namespace Tag

/-- Every tag once, in the order of the grammar. -/
def all : List Tag :=
  [clause,
    binary .equal, binary .notEqual, binary .greater, binary .greaterEqual, binary .less,
    binary .lessEqual,
    negation, connective .and, connective .or,
    binary .inList, binary .notInList, binary .anyInList, binary .anyNotInList, binary .equalAny,
    nullTest .isNull, nullTest .isNotNull,
    binary .like, binary .notLike,
    function .contains, function .inFolder, function .inTree, score,
    literal .boolean, literal .number, literal .string, literal .timestamp,
    list, name .column, name .identifier]

/-- No tag is missing from `all`. -/
theorem mem_all (t : Tag) : t ∈ all := by
  rcases t with _ | op | _ | op | test | op | _ | kind | _ | kind
  · decide
  · cases op <;> decide
  · decide
  · cases op <;> decide
  · cases test <;> decide
  · cases op <;> decide
  · decide
  · cases kind <;> decide
  · decide
  · cases kind <;> decide

/-! ### Grammar names -/

/-- The name of the tag in the grammar and in tree documents. -/
def grammarName : Tag → String
  | clause => "WHERE"
  | binary .equal => "EQ"
  | binary .notEqual => "NEQ"
  | binary .greater => "GT"
  | binary .greaterEqual => "GTEQ"
  | binary .less => "LT"
  | binary .lessEqual => "LTEQ"
  | negation => "NOT"
  | connective .and => "AND"
  | connective .or => "OR"
  | binary .inList => "IN"
  | binary .notInList => "NOT_IN"
  | binary .anyInList => "IN_ANY"
  | binary .anyNotInList => "NOT_IN_ANY"
  | binary .equalAny => "EQ_ANY"
  | nullTest .isNull => "IS_NULL"
  | nullTest .isNotNull => "IS_NOT_NULL"
  | binary .like => "LIKE"
  | binary .notLike => "NOT_LIKE"
  | function .contains => "CONTAINS"
  | function .inFolder => "IN_FOLDER"
  | function .inTree => "IN_TREE"
  | score => "SCORE"
  | literal .boolean => "BOOL_LIT"
  | literal .number => "NUM_LIT"
  | literal .string => "STRING_LIT"
  | literal .timestamp => "TIME_LIT"
  | list => "IN_LIST"
  | name .column => "COL"
  | name .identifier => "ID"

/-- The tag with the given grammar name, whatever the case of its letters. -/
def ofName? (word : String) : Option Tag :=
  all.find? fun t => foldCase t.grammarName == foldCase word

/-- The name of a tag names that tag and no other. -/
@[simp]
theorem ofName?_grammarName (t : Tag) : ofName? t.grammarName = some t := by
  have key : ∀ t ∈ all, ofName? t.grammarName = some t := by decide +kernel
  exact key t (mem_all t)

/-- A word names a tag exactly when it is the name of that tag up to the case of its letters. -/
theorem ofName?_eq_some_iff {word : String} {t : Tag} :
    ofName? word = some t ↔ foldCase word = foldCase t.grammarName := by
  constructor
  · intro h
    have hp := List.find?_some h
    exact (eq_of_beq hp).symm
  · intro h
    have hcongr : ofName? word = ofName? t.grammarName := by simp only [ofName?, h]
    rw [hcongr, ofName?_grammarName]

/-! ### Child counts -/

/-- True for the tags whose nodes stand for a value. -/
def isLiteral : Tag → Bool
  | literal _ => true
  | _ => false

end Tag

/-- The least and the greatest number of children a node may have. -/
structure Arity where
  least : Nat
  most : Nat
deriving DecidableEq, Repr

namespace Arity

/-- A child count lies between the bounds. -/
def Allows (a : Arity) (count : Nat) : Prop :=
  a.least ≤ count ∧ count ≤ a.most

instance (a : Arity) (count : Nat) : Decidable (a.Allows count) :=
  inferInstanceAs (Decidable (_ ∧ _))

/-- The demand in words. -/
def description (a : Arity) : String :=
  match a.least, a.most with
  | 0, 0 => "no children"
  | 1, 1 => "exactly 1 child"
  | 2, 2 => "exactly 2 children"
  | _, _ => "1 or 2 children"

end Arity

namespace Tag

/-- The child counts the grammar allows for a tag, or `none` where it does not constrain them. -/
def arity? : Tag → Option Arity
  | binary _ | connective _ => some ⟨2, 2⟩
  | negation | nullTest _ => some ⟨1, 1⟩
  | function _ => some ⟨1, 2⟩
  | score | literal _ => some ⟨0, 0⟩
  | clause | list | name _ => none

/-- The grammar lets a node of this tag have so many children. -/
def Admits (t : Tag) (count : Nat) : Prop :=
  ∀ a ∈ t.arity?, a.Allows count

instance (t : Tag) (count : Nat) : Decidable (t.Admits count) :=
  inferInstanceAs (Decidable (∀ a ∈ t.arity?, a.Allows count))

/-! ### The table of tags -/

/-- What the nodes of a tag are to a walk, in words. -/
def role : Tag → String
  | literal _ => "literal"
  | clause => "root marker"
  | list | name _ => "operand"
  | _ => "operator"

/-- The row of a tag in the table: its name, filled up to twelve columns, and its role. -/
def tableRow (t : Tag) : String :=
  String.ofList (t.grammarName.toList.rightpad 12 ' ') ++ " " ++ t.role ++ "\n"

/-- The table of all tags, one row a line. -/
def table : String :=
  String.join (all.map tableRow)

end Tag

end WhereClause
