import WhereClause.Rendering
import WhereClause.Trace
import WhereClause.Proofs.Walk.Steps
import Mathlib.Data.List.Forall2

/-!
# Walks through related trees

A walk goes the same way through two trees if they have the same tags at all nodes that it comes to.
Here this is said of any relation between trees that goes on to the children that a visit goes down
to (`RelatesVisits`).  The calls of two related trees are related in turn, node by node
(`Call.Related`), so a handler that does not tell related calls apart does not tell the trees apart:
its walks through them are the same action (`Walk.walk_congr`).

What a recorder and the writer of clause text see of a call is little.  `Trace.record_congr` and
`Rendering.render_congr` say what a relation has to keep for their sake.
-/

namespace WhereClause

/-! ## Related calls and steps -/

/-- Both calls are of one kind, and all nodes that they are about are related. -/
inductive Call.Related (r : Tree → Tree → Prop) : Call → Call → Prop
  | start {s t : Tree} : r s t → Related r (.start s) (.start t)
  | stop : Related r .stop .stop
  | binary {op : BinaryOp} {s t left left' right right' : Tree} :
      r s t → r left left' → r right right' →
      Related r (.binary op s left right) (.binary op t left' right')
  | connective {op : Connective} {phase : Phase} {s t left left' right right' : Tree} :
      r s t → r left left' → r right right' →
      Related r (.connective op phase s left right) (.connective op phase t left' right')
  | negation {phase : Phase} {s t operand operand' : Tree} :
      r s t → r operand operand' →
      Related r (.negation phase s operand) (.negation phase t operand')
  | nullTest {test : NullTest} {s t operand operand' : Tree} :
      r s t → r operand operand' →
      Related r (.nullTest test s operand) (.nullTest test t operand')
  | function {op : FunctionOp} {s t argument argument' : Tree} {column column' : Option Tree} :
      r s t → Option.Rel r column column' → r argument argument' →
      Related r (.function op s column argument) (.function op t column' argument')
  | score {s t : Tree} : r s t → Related r (.score s) (.score t)

/-- Both steps go down to related trees, or they make related calls. -/
inductive Step.Related (r : Tree → Tree → Prop) : Step → Step → Prop
  | visit {c d : Tree} : r c d → Related r (.visit c) (.visit d)
  | call {c d : Call} : c.Related r d → Related r (.call c) (.call d)

/-! ## Related trees -/

section Shapes

variable {r : Tree → Tree → Prop} {cs ds : List Tree}

/-- Two lists with related first members, up to one, are both empty or begin with related trees. -/
lemma eq_nil_or_cons_of_forall₂_take_one (h : List.Forall₂ r (cs.take 1) (ds.take 1)) :
    (cs = [] ∧ ds = []) ∨ ∃ c cs' d ds', cs = c :: cs' ∧ ds = d :: ds' ∧ r c d := by
  cases cs with
  | nil =>
    rw [List.take_nil, List.forall₂_nil_left_iff, List.take_eq_nil_iff] at h
    exact .inl ⟨rfl, h.resolve_left Nat.one_ne_zero⟩
  | cons c cs =>
    cases ds with
    | nil => exact nomatch h
    | cons d ds => exact .inr ⟨c, cs, d, ds, rfl, rfl, (List.forall₂_cons.mp h).1⟩

/-- Two lists with related first members, up to two, are both empty, or have a single tree each, or
begin with two trees each, and these are related. -/
lemma eq_nil_or_singleton_or_cons_of_forall₂_take_two
    (h : List.Forall₂ r (cs.take 2) (ds.take 2)) :
    (cs = [] ∧ ds = []) ∨ (∃ c d, cs = [c] ∧ ds = [d] ∧ r c d) ∨
      ∃ c₁ c₂ cs' d₁ d₂ ds', cs = c₁ :: c₂ :: cs' ∧ ds = d₁ :: d₂ :: ds' ∧ r c₁ d₁ ∧ r c₂ d₂ := by
  cases cs with
  | nil =>
    rw [List.take_nil, List.forall₂_nil_left_iff, List.take_eq_nil_iff] at h
    exact .inl ⟨rfl, h.resolve_left (Nat.succ_ne_zero 1)⟩
  | cons c cs =>
    cases ds with
    | nil => exact nomatch h
    | cons d ds =>
      obtain ⟨hcd, hrest⟩ := List.forall₂_cons.mp h
      rcases eq_nil_or_cons_of_forall₂_take_one hrest with
        ⟨rfl, rfl⟩ | ⟨c₂, cs', d₂, ds', rfl, rfl, hcd₂⟩
      · exact .inr (.inl ⟨c, d, rfl, rfl, hcd⟩)
      · exact .inr (.inr ⟨c, c₂, cs', d, d₂, ds', rfl, rfl, hcd, hcd₂⟩)

end Shapes

namespace Tree

/-- The children that a visit of the node goes down to, if the node does not lack any. -/
def visited (t : Tree) : List Tree :=
  t.children.take t.tag.reach

/-- Related nodes with the same tag have related steps if the children that a visit goes down to are
related. -/
theorem steps?_related {r : Tree → Tree → Prop} {s t : Tree} (h : r s t) (htag : s.tag = t.tag)
    (hvisited : List.Forall₂ r s.visited t.visited) :
    Option.Rel (List.Forall₂ (Step.Related r)) s.steps? t.steps? := by
  obtain ⟨tag, x, cs⟩ := s
  obtain ⟨tag', y, ds⟩ := t
  obtain rfl : tag = tag' := htag
  cases tag with
  | binary op =>
    rcases eq_nil_or_singleton_or_cons_of_forall₂_take_two hvisited with
      ⟨rfl, rfl⟩ | ⟨c, d, rfl, rfl, -⟩ | ⟨c₁, c₂, cs, d₁, d₂, ds, rfl, rfl, hleft, hright⟩
    · exact .none
    · exact .none
    · exact .some (.cons (.visit hleft) (.cons (.call (.binary h hleft hright))
        (.cons (.visit hright) .nil)))
  | connective op =>
    rcases eq_nil_or_singleton_or_cons_of_forall₂_take_two hvisited with
      ⟨rfl, rfl⟩ | ⟨c, d, rfl, rfl, -⟩ | ⟨c₁, c₂, cs, d₁, d₂, ds, rfl, rfl, hleft, hright⟩
    · exact .none
    · exact .none
    · refine .some (.cons ?_ (.cons (.visit hleft) (.cons ?_ (.cons (.visit hright)
        (.cons ?_ .nil)))))
      all_goals exact .call (.connective h hleft hright)
  | negation =>
    rcases eq_nil_or_cons_of_forall₂_take_one hvisited with
      ⟨rfl, rfl⟩ | ⟨c, cs, d, ds, rfl, rfl, hoperand⟩
    · exact .none
    · refine .some (.cons ?_ (.cons ?_ (.cons (.visit hoperand) (.cons ?_ .nil))))
      all_goals exact .call (.negation h hoperand)
  | nullTest test =>
    rcases eq_nil_or_cons_of_forall₂_take_one hvisited with
      ⟨rfl, rfl⟩ | ⟨c, cs, d, ds, rfl, rfl, hoperand⟩
    · exact .none
    · exact .some (.cons (.call (.nullTest h hoperand)) (.cons (.visit hoperand) .nil))
  | function op =>
    rcases eq_nil_or_singleton_or_cons_of_forall₂_take_two hvisited with
      ⟨rfl, rfl⟩ | ⟨c, d, rfl, rfl, hargument⟩ |
        ⟨c₁, c₂, cs, d₁, d₂, ds, rfl, rfl, hcolumn, hargument⟩
    · exact .none
    · exact .some (.cons (.call (.function h .none hargument)) (.cons (.visit hargument) .nil))
    · exact .some (.cons (.visit hcolumn) (.cons (.call (.function h (.some hcolumn) hargument))
        (.cons (.visit hargument) .nil)))
  | score => exact .some (.cons (.call (.score h)) .nil)
  | clause | literal _ | list | name _ => exact .some .nil

end Tree

/-- Related trees have the same tag, and a visit of them goes down to related children. -/
def RelatesVisits (r : Tree → Tree → Prop) : Prop :=
  ∀ s t, r s t → s.tag = t.tag ∧ List.Forall₂ r s.visited t.visited

/-! ## Walks -/

namespace Walk

variable {σ : Type} {r : Tree → Tree → Prop} {handle : Handler σ} {s t : Tree}

/-- Related steps are the same action if the visits of related trees among them are. -/
lemma performAll_congr (hhandle : ∀ c d, Call.Related r c d → handle c = handle d)
    {limit : Option Nat} {level : Nat} {steps? steps'? : Option (List Step)}
    (h : Option.Rel (List.Forall₂ (Step.Related r)) steps? steps'?)
    (hvisit : ∀ steps ∈ steps?, ∀ c, Step.visit c ∈ steps → ∀ d, r c d →
      visit handle limit level c = visit handle limit level d) :
    performAll handle limit level steps? = performAll handle limit level steps'? := by
  cases h with
  | none => rfl
  | @some steps steps' h =>
    replace hvisit := hvisit steps rfl
    change steps.forM (perform handle limit level) = steps'.forM (perform handle limit level)
    induction h with
    | nil => rfl
    | @cons step step' steps steps' hstep _ ih =>
      have hperform : perform handle limit level step = perform handle limit level step' := by
        cases hstep with
        | visit hcd => exact hvisit _ List.mem_cons_self _ hcd
        | call hcd => exact hhandle _ _ hcd
      rw [List.forM, List.forM, hperform, ih fun c hc => hvisit c (List.mem_cons_of_mem _ hc)]

/-- A visit of related trees is the same action if the handler does not tell related calls apart. -/
theorem visit_congr (hr : RelatesVisits r)
    (hhandle : ∀ c d, Call.Related r c d → handle c = handle d) (limit : Option Nat) (level : Nat)
    (h : r s t) : visit handle limit level s = visit handle limit level t := by
  induction s using Tree.induct generalizing t level with
  | node tag text children ih =>
    obtain ⟨htag, hvisited⟩ := hr _ t h
    rw [visit_eq_steps, visit_eq_steps,
      performAll_congr hhandle (Tree.steps?_related h htag hvisited)]
    intro steps hsteps c hc d hcd
    exact ih c (Tree.mem_children_of_mem_steps? hsteps hc) (level + 1) hcd

/-- A walk through related trees is the same action if the handler does not tell related calls
apart. -/
theorem walk_congr (hr : RelatesVisits r)
    (hhandle : ∀ c d, Call.Related r c d → handle c = handle d) (limit : Option Nat)
    (h : r s t) : walk handle limit (some s) = walk handle limit (some t) := by
  rw [walk, walk, hhandle _ _ (.start h), visit_congr hr hhandle limit 1 h]

end Walk

/-! ## Recorders and the writer of clause text -/

section Handlers

variable {r : Tree → Tree → Prop} {c d : Call}

/-- A recorder sees nothing of a call but the event that it records. -/
lemma Trace.record_eq_of_ofCall_eq (h : Event.ofCall c = Event.ofCall d) (refused : Option Hook) :
    record refused c = record refused d := by
  have hhook : c.hook = d.hook := congrArg Event.hook h
  rw [record, record, h, hhook]

/-- A recorder does not tell calls about nodes that are described alike apart. -/
lemma Trace.record_congr (hr : ∀ s t, r s t → s.description = t.description)
    (h : c.Related r d) (refused : Option Hook) : record refused c = record refused d := by
  apply record_eq_of_ofCall_eq
  cases h with
  | function _ hcolumn hargument =>
    cases hcolumn with
    | none => simp [Event.ofCall, Call.hook, Call.operands, hr _ _ hargument]
    | some hcolumn =>
      simp [Event.ofCall, Call.hook, Call.operands, hr _ _ hcolumn, hr _ _ hargument]
  | start h => simp [Event.ofCall, Call.hook, Call.operands, hr _ _ h]
  | binary _ hleft hright | connective _ hleft hright =>
    simp [Event.ofCall, Call.hook, Call.operands, hr _ _ hleft, hr _ _ hright]
  | negation _ h | nullTest _ h => simp [Event.ofCall, Call.hook, Call.operands, hr _ _ h]
  | stop | score => rfl

namespace Rendering

/-- The writer of clause text does not tell calls apart if their nodes are written alike as operands
and bring parentheses with them alike. -/
lemma render_congr (htext : ∀ s t, r s t → operandText s = operandText t)
    (hgrouped : ∀ s t, r s t → (IsGrouped s ↔ IsGrouped t)) (h : c.Related r d) :
    render c = render d := by
  cases h with
  | start | stop | score => rfl
  | binary _ hleft hright =>
    simp only [render, binaryText, htext _ _ hleft, htext _ _ hright]
  | @connective op phase => cases phase <;> rfl
  | @negation phase _ _ _ _ _ h => cases phase <;> simp only [render, hgrouped _ _ h]
  | nullTest _ h => simp only [render, nullTestPredicate, htext _ _ h]
  | function _ hcolumn hargument =>
    cases hcolumn with
    | none => simp only [render, functionPredicate, htext _ _ hargument]
    | some hcolumn =>
      simp only [render, functionPredicate, htext _ _ hcolumn, htext _ _ hargument]

end Rendering

end Handlers

end WhereClause
