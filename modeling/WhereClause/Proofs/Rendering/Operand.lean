import WhereClause.Rendering.Operand
import WhereClause.Proofs.Literal.Kind
import WhereClause.Proofs.Sequence

/-!
# The operands that have a text

`Tree.Renderable` says which trees clause text has a form for as operands, and `Tree.printOperand`
is that form as a function of the tree alone.  `Rendering.operandText_of_renderable` and
`Rendering.operandText_of_not_renderable` say that writing an operand succeeds exactly on renderable
trees, and what it writes then.
-/

namespace WhereClause

/-! ## Renderable operands -/

namespace Tree

/-- The tree is a literal whose spelling has a value. -/
def HasValue (t : Tree) : Prop :=
  ∃ value, Literal.ofTree t = .ok value

/-- The tree is an operand that clause text has a form for: a name, a literal with a value, or a
list of literals with values. -/
def Renderable (t : Tree) : Prop :=
  match t.tag with
  | .name _ => True
  | .literal _ => t.HasValue
  | .list => ∀ item ∈ t.children, item.HasValue
  | _ => False

/-- The text of a literal: a string as it is spelled, any other literal by its value. -/
def printLiteral (t : Tree) : String :=
  match Literal.ofTree t with
  | .ok (.string _) => t.text
  | .ok value => value.text?.getD ""
  | .error _ => ""

/-- The text of an operand. -/
def printOperand (t : Tree) : String :=
  match t.tag with
  | .name _ => String.ofList (Rendering.nameText t.text.toList)
  | .literal _ => t.printLiteral
  | .list => "(" ++ String.intercalate ", " (t.children.map printLiteral) ++ ")"
  | _ => ""

end Tree

namespace Rendering

/-! ## Writing operands -/

variable {item : Tree} {items : List Tree} {halt : Halt}

/-- A literal with a value is written. -/
lemma literalText_of_hasValue {t : Tree} (h : t.HasValue) :
    literalText t = .ok t.printLiteral := by
  obtain ⟨value, hvalue⟩ := h
  obtain ⟨text, htext⟩ := Literal.exists_text?_of_ofTree hvalue
  rw [literalText, Tree.printLiteral, hvalue]
  cases value with
  | string s => rfl
  | boolean b => simp [htext]
  | integer i => simp [htext]
  | float x => simp [htext]
  | timestamp u => simp [htext]

/-- A literal is not written for the reason why it has no value. -/
lemma literalText_eq_error_iff : literalText item = .error halt ↔
    ∃ e, halt = .error e ∧ Literal.ofTree item = .error e := by
  rcases hvalue : Literal.ofTree item with e | value
  · rw [literalText, hvalue, Except.error.injEq]
    constructor
    · rintro rfl
      exact ⟨e, rfl, rfl⟩
    · rintro ⟨e', rfl, he⟩
      exact congrArg Halt.error (Except.error.inj he)
  · rw [literalText_of_hasValue ⟨value, hvalue⟩]
    exact ⟨nofun, nofun⟩

/-- A literal is written exactly if it has a value. -/
lemma exists_literalText_iff : (∃ text, literalText item = .ok text) ↔ item.HasValue := by
  constructor
  · rintro ⟨text, htext⟩
    rcases hvalue : Literal.ofTree item with e | value
    · rw [literalText_eq_error_iff.mpr ⟨e, rfl, hvalue⟩] at htext
      exact nomatch htext
    · exact ⟨value, hvalue⟩
  · intro h
    exact ⟨_, literalText_of_hasValue h⟩

/-- A tree without a value is not written as a literal. -/
lemma literalText_of_not_hasValue (h : ¬item.HasValue) :
    ∃ halt, literalText item = .error halt := by
  rcases hvalue : Literal.ofTree item with e | value
  · exact ⟨_, literalText_eq_error_iff.mpr ⟨e, rfl, hvalue⟩⟩
  · exact absurd ⟨value, hvalue⟩ h

/-- A list whose items all have values is written. -/
lemma listText_of_hasValue (h : ∀ item ∈ items, item.HasValue) :
    listText items = .ok ("(" ++ String.intercalate ", " (items.map Tree.printLiteral) ++ ")") := by
  have hitems : items.mapM literalText = .ok (items.map Tree.printLiteral) := by
    rw [mapM_eq_ok_iff, List.forall₂_map_right_iff, List.forall₂_same]
    exact fun item hitem => literalText_of_hasValue (h item hitem)
  rw [listText, hitems]
  rfl

/-- A list is not written for the reason why the values of its items cannot be read. -/
lemma listText_eq_error_iff : listText items = .error halt ↔
    ∃ e, halt = .error e ∧ items.mapM Literal.ofTree = .error e := by
  have hlist : listText items = .error halt ↔ items.mapM literalText = .error halt := by
    constructor
    · intro h
      rcases eq_error_or_of_bind_eq_error h with hitems | ⟨texts, -, h⟩
      · exact hitems
      · exact nomatch h
    · intro h
      rw [listText, h]
      rfl
  -- Both fail at the first item without a value, so the two can be compared item by item.
  simp only [hlist, mapM_eq_error_iff, exists_literalText_iff, literalText_eq_error_iff]
  constructor
  · rintro ⟨before, item, after, rfl, hbefore, e, rfl, he⟩
    exact ⟨e, rfl, before, item, after, rfl, hbefore, he⟩
  · rintro ⟨e, rfl, before, item, after, rfl, hbefore, he⟩
    exact ⟨before, item, after, rfl, hbefore, e, rfl, he⟩

/-- A list is not written if one of its items has no value. -/
lemma listText_of_not_hasValue (hmem : item ∈ items) (h : ¬item.HasValue) :
    ∃ halt, listText items = .error halt := by
  rcases hlist : listText items with halt | text
  · exact ⟨halt, rfl⟩
  · obtain ⟨texts, htexts, -⟩ := exists_of_bind_eq_ok hlist
    exact absurd (exists_literalText_iff.mp (exists_of_mapM_eq_ok htexts item hmem)) h

/-- A renderable operand is written. -/
theorem operandText_of_renderable {t : Tree} (h : t.Renderable) :
    operandText t = .ok t.printOperand := by
  obtain ⟨tag, text, children⟩ := t
  cases tag with
  | name kind => rfl
  | literal kind => exact literalText_of_hasValue h
  | list => exact listText_of_hasValue h
  | _ => exact h.elim

/-- An operand that is not renderable is not written. -/
theorem operandText_of_not_renderable {t : Tree} (h : ¬t.Renderable) :
    ∃ halt, operandText t = .error halt := by
  obtain ⟨tag, text, children⟩ := t
  cases tag with
  | name kind => exact absurd trivial h
  | literal kind => exact literalText_of_not_hasValue h
  | list =>
    obtain ⟨item, hitem⟩ := Classical.not_forall.mp h
    obtain ⟨hmem, hvalue⟩ := Classical.not_imp.mp hitem
    exact listText_of_not_hasValue hmem hvalue
  | _ => exact ⟨_, rfl⟩

end Rendering

end WhereClause
