import WhereClause.Proofs.Literal.RoundTrip
import WhereClause.Proofs.Walk.Related

/-!
# Clauses with other spellings

Clause text spells literals in its own way: words for truth in capitals, integers without zeros in
front, floats with the fewest digits, timestamps in one format.  `Tree.respelled` is the clause with
every literal spelled like that, and it has the same text as the clause itself
(`walk_render_respelled`).

The handler cannot tell the two clauses apart, and that is enough: a walk goes the same way through
trees that have the same tags and the same number of children everywhere (`Walk.visit_map`).
-/

namespace WhereClause

/-! ## Walks through changed trees -/

/-- The call about changed trees. -/
def Call.map (f : Tree → Tree) : Call → Call
  | start root => start (f root)
  | stop => stop
  | binary op node left right => binary op (f node) (f left) (f right)
  | connective op phase node left right => connective op phase (f node) (f left) (f right)
  | negation phase node operand => negation phase (f node) (f operand)
  | nullTest test node operand => nullTest test (f node) (f operand)
  | function op node column argument => function op (f node) (column.map f) (f argument)
  | score node => score (f node)

/-- The function changes texts at most: it keeps the tag and goes on to the children. -/
def KeepsShape (f : Tree → Tree) : Prop :=
  ∀ t, (f t).tag = t.tag ∧ (f t).children = t.children.map f

variable {f : Tree → Tree}

/-- A changed tree is visited along the tree itself. -/
lemma KeepsShape.relatesVisits (hf : KeepsShape f) : RelatesVisits fun s t => s = f t := by
  rintro _ t rfl
  obtain ⟨htag, hchildren⟩ := hf t
  refine ⟨htag, ?_⟩
  rw [Tree.visited, htag, hchildren, ← List.map_take, List.forall₂_map_left_iff]
  exact List.forall₂_same.mpr fun _ _ => rfl

/-- The calls about changed trees are the changed calls. -/
lemma Call.related_iff_eq_map {c d : Call} : c.Related (fun s t => s = f t) d ↔ c = d.map f := by
  constructor
  · intro h
    cases h with
    | function hnode hcolumn hargument =>
      subst hnode hargument
      cases hcolumn with
      | none => rfl
      | some hcolumn => rw [hcolumn, map, Option.map_some]
    | _ =>
      subst_vars
      rfl
  · rintro rfl
    cases d with
    | start => exact .start rfl
    | stop => exact .stop
    | binary => exact .binary rfl rfl rfl
    | connective => exact .connective rfl rfl rfl
    | negation => exact .negation rfl rfl
    | nullTest => exact .nullTest rfl rfl
    | function op node column argument =>
      cases column with
      | none => exact .function rfl .none rfl
      | some column => exact .function rfl (.some rfl) rfl
    | score => exact .score rfl

/-- A walk goes the same way through a changed tree if the handler does not notice the change. -/
theorem Walk.visit_map {σ : Type} {handle : Handler σ} (hf : KeepsShape f)
    (hhandle : ∀ call : Call, handle (call.map f) = handle call) (limit : Option Nat) (level : Nat)
    (t : Tree) : visit handle limit level (f t) = visit handle limit level t := by
  refine visit_congr hf.relatesVisits (fun c d hcd => ?_) limit level rfl
  rw [Call.related_iff_eq_map.mp hcd, hhandle]

/-! ## Respelled trees -/

namespace Tree

mutual

/-- The tree with every literal that has a value spelled as clause text writes it, wherever it
stands. -/
def respelled : Tree → Tree
  | node tag text children =>
    node tag ((Rendering.literalText (node tag text children)).toOption.getD text)
      (respelledList children)

/-- The trees of the list with their literals spelled as clause text writes them. -/
def respelledList : List Tree → List Tree
  | [] => []
  | t :: ts => respelled t :: respelledList ts

end

lemma respelledList_eq_map (ts : List Tree) : respelledList ts = ts.map respelled := by
  induction ts with
  | nil => rfl
  | cons t ts ih => rw [respelledList, ih, List.map_cons]

/-- Respelling changes texts at most. -/
lemma keepsShape_respelled : KeepsShape respelled := by
  rintro ⟨tag, text, children⟩
  rw [respelled, respelledList_eq_map]
  exact ⟨rfl, rfl⟩

/-- The text of a respelled tree is what is written for it as a literal, if anything is. -/
lemma text_respelled (t : Tree) :
    t.respelled.text = (Rendering.literalText t).toOption.getD t.text := by
  cases t
  rw [respelled, text_node, text_node]

end Tree

namespace Rendering

/-- A literal that is no string is written by the text of its value. -/
lemma literalText_of_text? {kind : LiteralKind} {spelling text : String} {value : Literal}
    (hvalue : Literal.ofSpelling kind spelling = .ok value) (hkind : kind ≠ .string)
    (htext : value.text? = some text) (children : List Tree) :
    literalText (.node (.literal kind) spelling children) = .ok text := by
  have hread : Literal.ofTree (.node (.literal kind) spelling children) = .ok value := hvalue
  rw [literalText, hread]
  cases Literal.ofKind_of_ofSpelling hvalue with
  | string => exact absurd rfl hkind
  | boolean | integer | float | timestamp => simp [htext]

/-- A literal is written alike if it is respelled. -/
lemma literalText_respelled (t : Tree) : literalText t.respelled = literalText t := by
  obtain ⟨tag, spelling, children⟩ := t
  rw [Tree.respelled]
  cases tag with
  | literal kind =>
    rcases hvalue : Literal.ofSpelling kind spelling with e | value
    · have hread (children : List Tree) :
          literalText (.node (.literal kind) spelling children) = .error (.error e) := by
        have hread : Literal.ofTree (.node (.literal kind) spelling children) = .error e := hvalue
        rw [literalText, hread]
      rw [hread, Except.toOption, Option.getD_none, hread]
    · by_cases hkind : kind = .string
      · subst hkind
        rfl
      · obtain ⟨text, htext⟩ := (Literal.ofKind_of_ofSpelling hvalue).exists_text?
        have hagain := Literal.ofSpelling_of_text? hvalue hkind htext
        rw [literalText_of_text? hvalue hkind htext, Except.toOption, Option.getD_some,
          literalText_of_text? hagain hkind htext]
  | _ => rfl

/-- An operand is written alike if it is respelled. -/
lemma operandText_respelled (t : Tree) : operandText t.respelled = operandText t := by
  have hlist (items : List Tree) : listText (items.map Tree.respelled) = listText items := by
    have hitems : literalText ∘ Tree.respelled = literalText := funext literalText_respelled
    rw [listText, List.mapM_map, listText]
    exact congrArg (· >>= _) (congrArg (List.mapM · items) hitems)
  obtain ⟨htag, hchildren⟩ := Tree.keepsShape_respelled t
  rw [operandText, operandText, htag, hchildren, hlist, literalText_respelled, Tree.text_respelled]
  obtain ⟨tag, spelling, children⟩ := t
  cases tag <;> rfl

/-- The handler does not notice that a clause is respelled. -/
lemma render_map_respelled (call : Call) : render (call.map Tree.respelled) = render call := by
  refine render_congr ?_ ?_ (Call.related_iff_eq_map.mpr rfl)
  · rintro _ t rfl
    exact operandText_respelled t
  · rintro _ t rfl
    rw [IsGrouped, IsGrouped, (Tree.keepsShape_respelled t).1]

end Rendering

/-- A respelled tree is spelled as clause text writes it. -/
lemma Tree.respelled_respelled (t : Tree) : t.respelled.respelled = t.respelled := by
  induction t using Tree.induct with
  | node tag spelling children ih =>
    have htext := Rendering.literalText_respelled (node tag spelling children)
    have hchildren : (children.map respelled).map respelled = children.map respelled := by
      rw [List.map_map]
      exact List.map_congr_left ih
    rw [respelled, respelledList_eq_map] at htext ⊢
    rw [respelled, respelledList_eq_map, htext, hchildren]
    rcases Rendering.literalText (node tag spelling children) with halt | text <;> rfl

/-- Respelling a clause is stable.  A walk with the clause writer through the respelled clause, with
any limit and from any text, ends as the walk through the clause itself does and leaves the same
text behind, and respelling a clause once more changes nothing. -/
theorem walk_render_respelled (t : Tree) :
    (∀ (limit : Option Nat) (written : String),
      (walk Rendering.render limit (some t.respelled)).runFrom written =
        (walk Rendering.render limit (some t)).runFrom written) ∧
      t.respelled.respelled = t.respelled := by
  refine ⟨fun limit written => ?_, t.respelled_respelled⟩
  rw [walk, walk, Walk.visit_map Tree.keepsShape_respelled Rendering.render_map_respelled]
  rfl

-- A string keeps its spelling, and so does a literal without a value.
example :
    (Tree.list [.literal .number "+007", .literal .number "-12.50e0", .literal .boolean "tRuE",
      .literal .string "'it''s'", .literal .number "7x",
      .literal .timestamp "'2024-01-31t10:30:00.50+00:00'"]).respelled =
    .list [.literal .number "7", .literal .number "-12.5", .literal .boolean "TRUE",
      .literal .string "'it''s'", .literal .number "7x",
      .literal .timestamp "TIMESTAMP '2024-01-31T10:30:00.5Z'"] := by
  decide +kernel

end WhereClause
