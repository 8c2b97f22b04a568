import WhereClause.Tree
import Mathlib.Data.List.Basic

/-!
# The shapes of well-formed trees

The tags fall into operators and operands, and the operators into those that group predicates and
those that are predicates themselves.  In a well-formed tree the tag of a node fixes the number of
its children up to a choice for the functions, and `Tree.WellFormed.induct` is the induction with
one case for each of these shapes.

`Tree.levels` counts the levels of a tree that a walk goes down to.
-/

namespace WhereClause

namespace Tag

/-- The tag is that of an operator: neither a clause marker, nor a literal, a list or a name. -/
def IsOperator : Tag → Prop
  | binary _ | connective _ | negation | nullTest _ | function _ | score => True
  | clause | literal _ | list | name _ => False

instance (t : Tag) : Decidable t.IsOperator := by
  cases t <;> unfold IsOperator <;> infer_instance

/-- The operands of the tag are predicates. -/
def Groups : Tag → Prop
  | connective _ | negation => True
  | _ => False

instance (t : Tag) : Decidable t.Groups := by
  cases t <;> unfold Groups <;> infer_instance

/-- The operands of the tag are values: it is a comparison, a membership test, a pattern match, a
null test or a function. -/
def TakesValues : Tag → Prop
  | binary _ | nullTest _ | function _ => True
  | _ => False

instance (t : Tag) : Decidable t.TakesValues := by
  cases t <;> unfold TakesValues <;> infer_instance

/-- The number of children that a visit of a node goes down to, as far as the node has them. -/
def reach : Tag → Nat
  | binary _ | connective _ | function _ => 2
  | negation | nullTest _ => 1
  | _ => 0

lemma TakesValues.isOperator {t : Tag} (h : t.TakesValues) : t.IsOperator := by
  cases t <;> simp_all [TakesValues, IsOperator]

lemma Groups.isOperator {t : Tag} (h : t.Groups) : t.IsOperator := by
  cases t <;> simp_all [Groups, IsOperator]

lemma TakesValues.not_groups {t : Tag} (h : t.TakesValues) : ¬t.Groups := by
  cases t <;> simp_all [TakesValues, Groups]

/-- A visit goes no further down from a literal, a list, a name or a clause marker. -/
lemma reach_of_not_isOperator {t : Tag} (h : ¬t.IsOperator) : t.reach = 0 := by
  cases t <;> simp_all [IsOperator, reach]

/-! ### Child counts -/

@[simp] lemma admits_binary {op : BinaryOp} {n : Nat} : (binary op).Admits n ↔ n = 2 := by
  simp [Admits, arity?, Arity.Allows]
  omega

@[simp] lemma admits_connective {op : Connective} {n : Nat} :
    (connective op).Admits n ↔ n = 2 := by
  simp [Admits, arity?, Arity.Allows]
  omega

@[simp] lemma admits_negation {n : Nat} : negation.Admits n ↔ n = 1 := by
  simp [Admits, arity?, Arity.Allows]
  omega

@[simp] lemma admits_nullTest {test : NullTest} {n : Nat} : (nullTest test).Admits n ↔ n = 1 := by
  simp [Admits, arity?, Arity.Allows]
  omega

@[simp] lemma admits_function {op : FunctionOp} {n : Nat} :
    (function op).Admits n ↔ n = 1 ∨ n = 2 := by
  simp [Admits, arity?, Arity.Allows]
  omega

@[simp] lemma admits_score {n : Nat} : score.Admits n ↔ n = 0 := by
  simp [Admits, arity?, Arity.Allows]

end Tag

namespace Tree

/-! ### Induction over shapes -/

/-- What holds of a node of every shape that the grammar allows, whenever it holds of the children
that a visit goes down to, holds of every well-formed tree. -/
@[elab_as_elim]
theorem WellFormed.induct {motive : (t : Tree) → t.WellFormed → Prop}
    (binary : ∀ op text left right hleft hright h, motive left hleft → motive right hright →
      motive (.node (.binary op) text [left, right]) h)
    (connective : ∀ op text left right hleft hright h, motive left hleft → motive right hright →
      motive (.node (.connective op) text [left, right]) h)
    (negation : ∀ text operand hoperand h, motive operand hoperand →
      motive (.node .negation text [operand]) h)
    (nullTest : ∀ test text operand hoperand h, motive operand hoperand →
      motive (.node (.nullTest test) text [operand]) h)
    (functionOfArgument : ∀ op text argument hargument h, motive argument hargument →
      motive (.node (.function op) text [argument]) h)
    (functionOfColumn : ∀ op text column argument hcolumn hargument h,
      motive column hcolumn → motive argument hargument →
      motive (.node (.function op) text [column, argument]) h)
    (score : ∀ text h, motive (.node .score text []) h)
    (operand : ∀ tag text children h, ¬tag.IsOperator → motive (.node tag text children) h)
    {t : Tree} (h : t.WellFormed) : motive t h := by
  induction h with
  | @node tag text children hadmits hchildren ih =>
    cases tag with
    | binary op =>
      obtain ⟨left, right, rfl⟩ := List.length_eq_two.mp (Tag.admits_binary.mp hadmits)
      exact binary op text left right _ _ _ (ih left (by simp)) (ih right (by simp))
    | connective op =>
      obtain ⟨left, right, rfl⟩ := List.length_eq_two.mp (Tag.admits_connective.mp hadmits)
      exact connective op text left right _ _ _ (ih left (by simp)) (ih right (by simp))
    | negation =>
      obtain ⟨x, rfl⟩ := List.length_eq_one_iff.mp (Tag.admits_negation.mp hadmits)
      exact negation text x _ _ (ih x (by simp))
    | nullTest test =>
      obtain ⟨x, rfl⟩ := List.length_eq_one_iff.mp (Tag.admits_nullTest.mp hadmits)
      exact nullTest test text x _ _ (ih x (by simp))
    | function op =>
      rcases Tag.admits_function.mp hadmits with hone | htwo
      · obtain ⟨argument, rfl⟩ := List.length_eq_one_iff.mp hone
        exact functionOfArgument op text argument _ _ (ih argument (by simp))
      · obtain ⟨column, argument, rfl⟩ := List.length_eq_two.mp htwo
        exact functionOfColumn op text column argument _ _ _ (ih column (by simp))
          (ih argument (by simp))
    | score =>
      obtain rfl := List.length_eq_zero_iff.mp (Tag.admits_score.mp hadmits)
      exact score text _
    | clause => exact operand .clause text children _ id
    | literal kind => exact operand (.literal kind) text children _ id
    | list => exact operand .list text children _ id
    | name kind => exact operand (.name kind) text children _ id

/-! ### Levels of a walk -/

mutual

/-- The number of levels of the tree that a walk goes down to.  The children of literals, lists,
names and clause markers do not count, whatever they contain. -/
def levels : Tree → Nat
  | node tag _ children => 1 + levelsOfFirst tag.reach children

/-- The greatest number of levels among the first so many trees of the list. -/
def levelsOfFirst : Nat → List Tree → Nat
  | 0, _ | _, [] => 0
  | count + 1, t :: ts => max (levels t) (levelsOfFirst count ts)

end

/-- A walk goes down to one level at least. -/
lemma levels_pos (t : Tree) : 0 < t.levels := by
  cases t
  rw [levels]
  omega

end Tree

end WhereClause
