import WhereClause.Proofs.Rendering.Printer
import WhereClause.Proofs.Tree.Document

/-!
# The grammar of clause text

`Sentence` is the grammar of clause text: the texts that are built from the texts of operands by
comparisons, membership tests, pattern matches, null tests and functions, by `AND` and `OR` in
parentheses, and by `NOT`.

A walk through a tree may end well and yet write a text that is no sentence, because operands are
visited without a call: one that stands in the place of a predicate leaves a gap
(`exists_clause_without_sentence`).  `sentence_iff_predicates` says that this is the only way to go
wrong.
-/

namespace WhereClause

namespace Rendering

/-- The text of some renderable operand. -/
def IsOperandText (text : String) : Prop :=
  ∃ operand : Tree, operand.Renderable ∧ operand.printOperand = text

mutual

/-- Two sentences joined in parentheses. -/
inductive Group : String → Prop
  | and {p q : String} : Sentence p → Sentence q → Group ("(" ++ p ++ " AND " ++ q ++ ")")
  | or {p q : String} : Sentence p → Sentence q → Group ("(" ++ p ++ " OR " ++ q ++ ")")

/-- The texts of complete predicates. -/
inductive Sentence : String → Prop
  | group {p : String} : Group p → Sentence p
  | notGroup {p : String} : Group p → Sentence ("NOT " ++ p)
  | not {p : String} : Sentence p → Sentence ("NOT (" ++ p ++ ")")
  | binary {x y word : String} : IsOperandText x → IsOperandText y →
      word ∈ ["=", "<>", ">", ">=", "<", "<=", "IN", "NOT IN", "LIKE", "NOT LIKE"] →
      Sentence (x ++ " " ++ word ++ " " ++ y)
  | any {x y word : String} : IsOperandText x → IsOperandText y → word ∈ ["IN", "NOT IN"] →
      Sentence ("ANY " ++ x ++ " " ++ word ++ " " ++ y)
  | equalAny {x y : String} : IsOperandText x → IsOperandText y → Sentence (x ++ " = ANY " ++ y)
  | isNull {x : String} : IsOperandText x → Sentence (x ++ " IS NULL")
  | isNotNull {x : String} : IsOperandText x → Sentence (x ++ " IS NOT NULL")
  | call {x name : String} : IsOperandText x → name ∈ ["CONTAINS", "IN_FOLDER", "IN_TREE"] →
      Sentence (name ++ "(" ++ x ++ ")")
  | callOfColumn {x y name : String} : IsOperandText x → IsOperandText y →
      name ∈ ["CONTAINS", "IN_FOLDER", "IN_TREE"] → Sentence (name ++ "(" ++ x ++ ", " ++ y ++ ")")
  | score : Sentence "SCORE()"

end

/-- A group holds two blanks at least. -/
lemma Group.two_le_count {text : String} (h : Group text) : 2 ≤ text.toList.count ' ' := by
  cases h <;> simp <;> omega

/-- A sentence is not empty. -/
lemma Sentence.ne_empty {text : String} (h : Sentence text) : text ≠ "" := by
  intro hempty
  have hlength := congrArg (fun s => s.toList.length) hempty
  cases h with
  | group h => cases h <;> simp at hlength
  | _ => simp at hlength

/-- The text of a negation that has lost its operand is no sentence. -/
lemma not_sentence_of_gap : ¬Sentence "NOT ()" := by
  intro h
  generalize htext : "NOT ()" = text at h
  have hlist := congrArg String.toList htext
  have hspaces := congrArg (fun s => s.toList.count ' ') htext
  cases h with
  | group h =>
    have := h.two_le_count
    rw [← htext] at this
    simp at this
  | notGroup h =>
    have := h.two_le_count
    simp at hspaces
    omega
  | not h =>
    simp at hlist
    exact h.ne_empty hlist
  | call _ hname =>
    simp at hname
    rcases hname with rfl | rfl | rfl <;> simp at hlist
  | callOfColumn _ _ hname =>
    simp at hname
    rcases hname with rfl | rfl | rfl <;> simp at hlist
  | score => simp at hlist
  | _ =>
    simp at hspaces <;> omega

/-! ### Printed clauses -/

/-- The word between two operands is written with a blank on each side. -/
lemma sentence_binary_word {x y : String} (hx : IsOperandText x) (hy : IsOperandText y)
    (word : String)
    (hword : word ∈ ["=", "<>", ">", ">=", "<", "<=", "IN", "NOT IN", "LIKE", "NOT LIKE"]) :
    Sentence (x ++ (" " ++ word ++ " ") ++ y) := by
  simpa [String.append_assoc] using Sentence.binary hx hy hword

/-- A binary operator between two renderable operands is a sentence. -/
lemma sentence_binaryForm (op : BinaryOp) {x y : String} (hx : IsOperandText x)
    (hy : IsOperandText y) : Sentence (binaryForm op x y) := by
  cases op with
  | equal => exact sentence_binary_word hx hy "=" (by simp)
  | notEqual => exact sentence_binary_word hx hy "<>" (by simp)
  | greater => exact sentence_binary_word hx hy ">" (by simp)
  | greaterEqual => exact sentence_binary_word hx hy ">=" (by simp)
  | less => exact sentence_binary_word hx hy "<" (by simp)
  | lessEqual => exact sentence_binary_word hx hy "<=" (by simp)
  | inList => exact sentence_binary_word hx hy "IN" (by simp)
  | notInList => exact sentence_binary_word hx hy "NOT IN" (by simp)
  | like => exact sentence_binary_word hx hy "LIKE" (by simp)
  | notLike => exact sentence_binary_word hx hy "NOT LIKE" (by simp)
  | equalAny => exact .equalAny hx hy
  | anyInList =>
    have h := Sentence.any hx hy (show "IN" ∈ ["IN", "NOT IN"] by simp)
    simpa [binaryForm, String.append_assoc] using h
  | anyNotInList =>
    have h := Sentence.any hx hy (show "NOT IN" ∈ ["IN", "NOT IN"] by simp)
    simpa [binaryForm, String.append_assoc] using h

/-- A function of renderable operands is a sentence. -/
lemma sentence_functionForm (op : FunctionOp) {x : String} (hx : IsOperandText x) :
    Sentence (functionForm op x) ∧
      ∀ {y : String}, IsOperandText y → Sentence (functionForm op (x ++ ", " ++ y)) := by
  have hname : functionText op ∈ ["CONTAINS", "IN_FOLDER", "IN_TREE"] := by
    cases op <;> simp [functionText]
  constructor
  · rw [functionForm_eq]
    exact .call hx hname
  · intro y hy
    rw [functionForm_eq]
    simpa [String.append_assoc] using Sentence.callOfColumn hx hy hname

/-- The printed clause is a sentence if the tree is spellable and has operators in the places of
predicates. -/
lemma sentence_printClause {t : Tree} (h : t.WellFormed) (hspellable : t.Spellable)
    (hoperators : ∀ p, t.Reaches p → p.tag.IsOperator) :
    Sentence t.printClause ∧ (IsGrouped t → Group t.printClause) := by
  induction h using Tree.WellFormed.induct with
  | binary op text left right =>
    obtain ⟨hleft, hright⟩ := (Tree.spellable_pair (by trivial)).mp hspellable
    exact ⟨sentence_binaryForm op ⟨left, hleft, rfl⟩ ⟨right, hright, rfl⟩, by simp [IsGrouped]⟩
  | connective op text left right _ _ _ ihleft ihright =>
    have hoperands := (Tree.spellable_of_groups (.connective op) text _ trivial).mp hspellable
    have hleft := ihleft (hoperands left (by simp)) fun p hp =>
      hoperators p (.through trivial (by simp) hp)
    have hright := ihright (hoperands right (by simp)) fun p hp =>
      hoperators p (.through trivial (by simp) hp)
    have hgroup : Group (Tree.node (.connective op) text [left, right]).printClause := by
      cases op with
      | and => exact .and hleft.1 hright.1
      | or => exact .or hleft.1 hright.1
    exact ⟨.group hgroup, fun _ => hgroup⟩
  | negation text operand _ _ ih =>
    have hoperands := (Tree.spellable_of_groups .negation text _ trivial).mp hspellable
    obtain ⟨hsentence, hgroup⟩ := ih (hoperands operand (by simp)) fun p hp =>
      hoperators p (.through trivial (by simp) hp)
    refine ⟨?_, by simp [IsGrouped]⟩
    rw [Tree.printClause]
    split
    · rename_i hgrouped
      exact .notGroup (hgroup hgrouped)
    · exact .not hsentence
  | nullTest test text operand =>
    have hoperand : IsOperandText operand.printOperand :=
      ⟨operand, (Tree.spellable_single (by trivial)).mp hspellable, rfl⟩
    refine ⟨?_, by simp [IsGrouped]⟩
    cases test with
    | isNull => exact .isNull hoperand
    | isNotNull => exact .isNotNull hoperand
  | functionOfArgument op text argument =>
    have hargument := (Tree.spellable_single (by trivial)).mp hspellable
    exact ⟨(sentence_functionForm op ⟨argument, hargument, rfl⟩).1, by simp [IsGrouped]⟩
  | functionOfColumn op text column argument =>
    obtain ⟨hcolumn, hargument⟩ := (Tree.spellable_pair (by trivial)).mp hspellable
    exact ⟨(sentence_functionForm op ⟨column, hcolumn, rfl⟩).2 ⟨argument, hargument, rfl⟩,
      by simp [IsGrouped]⟩
  | score => exact ⟨.score, by simp [IsGrouped]⟩
  | operand tag text children _ htag => exact absurd (hoperators _ (.refl _)) htag

end Rendering

open Rendering

/-- When the walk through a tree that was read from a document ends well, what it has written is a
sentence in which no place of a predicate is empty if and only if every place of a predicate, the
root and what is reached from it through connectives and negations, holds an operator. -/
theorem sentence_iff_predicates {document : Json} {t : Tree} (hread : Tree.ofJson document = .ok t)
    {limit : Option Nat} {written text : String}
    (hwalk : (walk render limit (some t)).runFrom written = (.ok (), text)) :
    (Sentence text ∧ ∀ p, t.Reaches p → p.printClause ≠ "") ↔
      ∀ p, t.Reaches p → p.tag.IsOperator := by
  have hformed := Tree.wellFormed_of_ofJson hread
  obtain ⟨⟨hspellable, -⟩, rfl⟩ := (runFrom_walk_eq_ok_iff hformed limit written text).mp hwalk
  constructor
  · rintro ⟨-, htexts⟩ p hp
    by_cases htag : p.tag.IsOperator
    · exact htag
    · exact absurd (Tree.printClause_of_not_isOperator htag) (htexts p hp)
  · intro hoperators
    refine ⟨(sentence_printClause hformed hspellable hoperators).1, ?_⟩
    intro p hp
    have hsentence := sentence_printClause (hp.wellFormed hformed) (hp.spellable hspellable)
      fun q hq => hoperators q (hp.trans hq)
    exact hsentence.1.ne_empty

/-- The document of a negated null test. -/
theorem sentence_iff_predicates_of_negated_test :
    let column : Json := .object [("tag", .string "COL"), ("text", .string "a")]
    let test : Json := .object [("tag", .string "IS_NULL"), ("children", .array [column])]
    let document : Json := .object [("tag", .string "NOT"), ("children", .array [test])]
    let t : Tree := .branch .negation [.branch (.nullTest .isNull) [.column "a"]]
    Tree.ofJson document = .ok t ∧
      (walk render (some 3) (some t)).runFrom "" = (.ok (), "NOT (a IS NULL)") ∧
      (Sentence "NOT (a IS NULL)" ∧ ∀ p, t.Reaches p → p.printClause ≠ "") := by
  intro column test document t
  have hread : Tree.ofJson document = .ok t := rfl
  have hwalk : (walk render (some 3) (some t)).runFrom "" = (.ok (), "NOT (a IS NULL)") := rfl
  refine ⟨hread, hwalk, (sentence_iff_predicates hread hwalk).mpr ?_⟩
  have hreaches : ∀ p, t.Reaches p ↔
      p = t ∨ p = .branch (.nullTest .isNull) [.column "a"] := by
    simp [t, Tree.branch, Tree.reaches_node, Tag.Groups]
  intro p hp
  rcases (hreaches p).mp hp with rfl | rfl
  · exact trivial
  · exact trivial

/-- A column in the place of a predicate is dropped: the walk ends well, and the negation has lost
its operand. -/
theorem exists_clause_without_sentence :
    ∃ (document : Json) (t : Tree) (text : String), Tree.ofJson document = .ok t ∧
      t.tag.IsOperator ∧ (walk render none (some t)).runFrom "" = (.ok (), text) ∧
      ¬Sentence text := by
  refine ⟨.object [("tag", .string "NOT"),
    ("children", .array [.object [("tag", .string "COL"), ("text", .string "a")]])],
    .branch .negation [.column "a"], "NOT ()", rfl, trivial, rfl, ?_⟩
  exact not_sentence_of_gap

end WhereClause
