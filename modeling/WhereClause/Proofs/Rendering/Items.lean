import WhereClause.Proofs.Rendering.Operand
import WhereClause.Proofs.Sequence

/-!
# Lists of literals

The items of a list are written one after the other, and their values are read one after the other.
The two never disagree (`Rendering.operandText_list_iff`): a list is written exactly if its items
have values, and is refused exactly as the reading of the values is, for the first item that has
none.  Where there are values, the text of an item is that of its value, but for strings, which are
written as they are spelled.
-/

namespace WhereClause

namespace Rendering

/-! ## Items -/

/-- The text of an item that has the given value: a string as it is spelled, any other value by its
own text. -/
def itemText? (item : Tree) : Literal → Option String
  | .string _ => some item.text
  | value => value.text?

variable {item : Tree} {items : List Tree} {text : String}

/-- A literal is written by its value. -/
lemma literalText_eq_ok_iff : literalText item = .ok text ↔
    ∃ value, Literal.ofTree item = .ok value ∧ itemText? item value = some text := by
  rcases hvalue : Literal.ofTree item with e | value
  · rw [literalText_eq_error_iff.mpr ⟨e, rfl, hvalue⟩]
    constructor
    · intro h
      cases h
    · rintro ⟨value, h, -⟩
      cases h
  · obtain ⟨written, hwritten⟩ := Literal.exists_text?_of_ofTree hvalue
    have hitem : ∃ t, literalText item = .ok t ∧ itemText? item value = some t := by
      rw [literalText, hvalue]
      cases value with
      | string s => exact ⟨item.text, rfl, rfl⟩
      | _ => exact ⟨written, by simp only [hwritten], hwritten⟩
    obtain ⟨t, ht, htext⟩ := hitem
    rw [ht, Except.ok.injEq]
    constructor
    · rintro rfl
      exact ⟨value, rfl, htext⟩
    · rintro ⟨value', hvalue', htext'⟩
      obtain rfl := Except.ok.inj hvalue'
      exact Option.some.inj (htext.symm.trans htext')

/-! ## Lists -/

/-- The texts of the items of a list are those that belong to their values. -/
lemma mapM_literalText_eq_ok_iff {texts : List String} : items.mapM literalText = .ok texts ↔
    ∃ values, items.mapM Literal.ofTree = .ok values ∧
      List.zipWith itemText? items values = texts.map some := by
  simp only [mapM_eq_ok_iff, literalText_eq_ok_iff]
  constructor
  · intro h
    induction h with
    | nil => exact ⟨[], .nil, rfl⟩
    | cons hitem _ ih =>
      obtain ⟨value, hvalue, htext⟩ := hitem
      obtain ⟨values, hvalues, htexts⟩ := ih
      exact ⟨value :: values, .cons hvalue hvalues, List.cons_eq_cons.mpr ⟨htext, htexts⟩⟩
  · rintro ⟨values, hvalues, htexts⟩
    induction hvalues generalizing texts with
    | nil =>
      obtain rfl := List.map_eq_nil_iff.mp htexts.symm
      exact .nil
    | cons hvalue _ ih =>
      obtain ⟨text, texts, rfl, htext, htexts⟩ := List.map_eq_cons_iff.mp htexts.symm
      exact .cons ⟨_, hvalue, htext.symm⟩ (ih htexts.symm)

/-- The text of a list is made of the texts that belong to the values of its items. -/
lemma listText_eq_ok_iff : listText items = .ok text ↔
    ∃ values texts, items.mapM Literal.ofTree = .ok values ∧
      List.zipWith itemText? items values = texts.map some ∧
      text = "(" ++ String.intercalate ", " texts ++ ")" := by
  constructor
  · intro h
    obtain ⟨texts, hitems, h⟩ := exists_of_bind_eq_ok h
    obtain ⟨values, hvalues, htexts⟩ := mapM_literalText_eq_ok_iff.mp hitems
    exact ⟨values, texts, hvalues, htexts, (Except.ok.inj h).symm⟩
  · rintro ⟨values, texts, hvalues, htexts, rfl⟩
    rw [listText, mapM_literalText_eq_ok_iff.mpr ⟨values, hvalues, htexts⟩]
    rfl

/-- Writing a list and reading the values of its items agree.

* The values that are read are one for each item, in order.
* Reading them fails for the first item that has no value, with the error of this item, whatever
  the items behind it are.
* The list is written exactly if the values can be read, and if it is not, then with the same error.
* The text of the list has the items between parentheses, with commas: a string as it is spelled,
  and any other item by the text of its value. -/
theorem operandText_list_iff (spelling : String) (items : List Tree) :
    let list : Tree := .node .list spelling items
    (∀ values, Literal.listOfTree list = .ok values ↔
      List.Forall₂ (fun item value => Literal.ofTree item = .ok value) items values) ∧
    (∀ e, Literal.listOfTree list = .error e ↔
      ∃ before item after, items = before ++ item :: after ∧
        (∀ t ∈ before, ∃ value, Literal.ofTree t = .ok value) ∧ Literal.ofTree item = .error e) ∧
    ((∃ text, operandText list = .ok text) ↔ ∃ values, Literal.listOfTree list = .ok values) ∧
    (∀ halt, operandText list = .error halt ↔
      ∃ e, halt = .error e ∧ Literal.listOfTree list = .error e) ∧
    ∀ text, operandText list = .ok text ↔
      ∃ values texts, Literal.listOfTree list = .ok values ∧
        List.zipWith itemText? items values = texts.map some ∧
        text = "(" ++ String.intercalate ", " texts ++ ")" := by
  intro list
  refine ⟨fun _ => mapM_eq_ok_iff, fun _ => mapM_eq_error_iff, ⟨?_, ?_⟩,
    fun _ => listText_eq_error_iff, fun _ => listText_eq_ok_iff⟩
  · rintro ⟨text, h⟩
    obtain ⟨values, -, hvalues, -⟩ := listText_eq_ok_iff.mp h
    exact ⟨values, hvalues⟩
  · rintro ⟨values, hvalues⟩
    rcases h : operandText list with halt | text
    · obtain ⟨e, -, he⟩ := listText_eq_error_iff.mp h
      exact nomatch hvalues.symm.trans he
    · exact ⟨text, rfl⟩

example : operandText (.list [.literal .string "'it''s'", .literal .boolean "no",
    .literal .number "+07", .literal .number "+07"]) = .ok "('it''s', FALSE, 7, 7)" := by
  decide +kernel

end Rendering

end WhereClause
