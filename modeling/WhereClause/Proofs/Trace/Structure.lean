import WhereClause.Proofs.Walk.Calls

/-!
# What a trace says about a clause

The events of a walk are a flat list, without any lengths in it, and yet they determine the
operators of a predicate tree, their shape, and how every operand is described
(`trace_eq_iff_sameStructure`).

The list can be cut back into the parts that belong to operands because no event that opens a
predicate can stand where an operand has ended (`Hook.EndsOperand`).  So the events of a tree tell
where they end if such an event comes next, whatever follows it
(`Tree.sameStructure_of_events_append`).
-/

namespace WhereClause

namespace Tree

/-! ## Predicate trees and their structure -/

/-- The tree is a predicate tree: connectives and negations have predicate trees as operands, and
all other operators have operands that are no operators.  A tree whose root is no operator is
allowed in the place of a predicate, and whatever is below it. -/
inductive IsPredicateTree : Tree → Prop
  | groups {tag : Tag} {text : String} {children : List Tree} : tag.Groups →
      (∀ c ∈ children, IsPredicateTree c) → IsPredicateTree (node tag text children)
  | values {tag : Tag} {text : String} {children : List Tree} : tag.IsOperator → ¬tag.Groups →
      (∀ c ∈ children, ¬c.tag.IsOperator) → IsPredicateTree (node tag text children)
  | operand {t : Tree} : ¬t.tag.IsOperator → IsPredicateTree t

/-- A connective or a negation is a predicate tree if its operands are. -/
lemma isPredicateTree_of_groups {tag : Tag} {text : String} {children : List Tree}
    (h : tag.Groups) :
    (node tag text children).IsPredicateTree ↔ ∀ c ∈ children, c.IsPredicateTree :=
  ⟨fun
    | .groups _ hs => hs
    | .values _ hnot _ => absurd h hnot
    | .operand hnot => absurd h.isOperator hnot, .groups h⟩

/-- Another operator is a predicate tree if its operands are no operators. -/
lemma isPredicateTree_of_not_groups {tag : Tag} {text : String} {children : List Tree}
    (htag : tag.IsOperator) (h : ¬tag.Groups) :
    (node tag text children).IsPredicateTree ↔ ∀ c ∈ children, ¬c.tag.IsOperator :=
  ⟨fun
    | .groups hgroups _ => absurd hgroups h
    | .values _ _ hs => hs
    | .operand hnot => absurd htag hnot, .values htag h⟩

/-- Both trees have the same operators in the same shape, with as many operands each, and all their
operands are described alike. -/
inductive SameStructure : Tree → Tree → Prop
  | groups {tag : Tag} {x y : String} {ss ts : List Tree} : tag.Groups →
      ss.map description = ts.map description → List.Forall₂ SameStructure ss ts →
      SameStructure (node tag x ss) (node tag y ts)
  | values {tag : Tag} {x y : String} {ss ts : List Tree} : tag.IsOperator → ¬tag.Groups →
      ss.map description = ts.map description → SameStructure (node tag x ss) (node tag y ts)
  | operand {s t : Tree} : ¬s.tag.IsOperator → ¬t.tag.IsOperator → SameStructure s t

end Tree

/-! ## The first event of a predicate -/

/-- The hook with which the events of a predicate with this tag begin. -/
def Tag.leadHook? : Tag → Option Hook
  | binary op => some (.binary op)
  | connective op => some (.connective op .opening)
  | negation => some (.negation .opening)
  | nullTest test => some (.nullTest test)
  | function op => some (.function op)
  | score => some .score
  | clause | literal _ | list | name _ => none

/-- The first hook of a predicate belongs to its operator. -/
lemma Tag.operator?_of_leadHook? {tag : Tag} {hook : Hook} (h : tag.leadHook? = some hook) :
    hook.operator? = some tag := by
  cases tag with
  | clause | literal _ | list | name _ => exact nomatch h
  | _ =>
    obtain rfl := Option.some.inj h
    rfl

/-- A hook leads the predicates of one tag only. -/
lemma Tag.leadHook?_inj {a b : Tag} {hook : Hook} (ha : a.leadHook? = some hook)
    (hb : b.leadHook? = some hook) : a = b :=
  Option.some.inj ((operator?_of_leadHook? ha).symm.trans (operator?_of_leadHook? hb))

/-- Every operator has a hook with which its predicates begin. -/
lemma Tag.exists_leadHook? {tag : Tag} (h : tag.IsOperator) :
    ∃ hook, tag.leadHook? = some hook := by
  cases tag with
  | clause | literal _ | list | name _ => exact h.elim
  | _ => exact ⟨_, rfl⟩

/-- Only an operator has a hook with which its predicates begin. -/
lemma Tag.isOperator_of_leadHook? {tag : Tag} {hook : Hook} (h : tag.leadHook? = some hook) :
    tag.IsOperator := by
  cases tag with
  | clause | literal _ | list | name _ => exact nomatch h
  | _ => trivial

/-- Where a hook of this kind stands, an operand has ended. -/
def Hook.EndsOperand : Hook → Prop
  | .connective _ .middle | .connective _ .closing | .negation .closing | .stop => True
  | _ => False

/-- No predicate begins where an operand has ended. -/
lemma Hook.EndsOperand.ne_leadHook? {hook : Hook} (h : hook.EndsOperand) (tag : Tag) :
    tag.leadHook? ≠ some hook := by
  intro hlead
  cases tag with
  | clause | literal _ | list | name _ => exact nomatch hlead
  | _ =>
    obtain rfl := Option.some.inj hlead
    exact h

namespace Tree

/-! ## Events of a tree -/

/-- The events that are recorded of a tree if there is no limit of levels. -/
def events (t : Tree) : List Event :=
  t.calls.map Event.ofCall

/-- How a node describes its operands in an event: an argument alone lacks the column before it. -/
def operandList : Tag → List String → List (Option String)
  | .function _, [argument] => [none, some argument]
  | _, descriptions => descriptions.map some

/-- The descriptions are found again. -/
lemma filterMap_operandList (tag : Tag) (descriptions : List String) :
    (operandList tag descriptions).filterMap id = descriptions := by
  unfold operandList
  split
  · rfl
  · simp [List.filterMap_map]

variable {tag : Tag} {text : String} {children : List Tree}

/-- Nothing is recorded of a tree whose root is no operator. -/
lemma events_of_not_isOperator {t : Tree} (h : ¬t.tag.IsOperator) : t.events = [] := by
  rw [events, calls_of_not_isOperator h, List.map_nil]

/-- A predicate on values has one event. -/
lemma events_of_values (h : (node tag text children).WellFormed) (htag : ¬tag.Groups)
    (hchildren : ∀ c ∈ children, ¬c.tag.IsOperator) {hook : Hook}
    (hlead : tag.leadHook? = some hook) :
    (node tag text children).events =
      [⟨hook, operandList tag (children.map description)⟩] := by
  have hcalls (c : Tree) (hc : c ∈ children) : c.calls = [] :=
    calls_of_not_isOperator (hchildren c hc)
  cases h using WellFormed.induct with
  | connective | negation => exact absurd trivial htag
  | operand _ _ _ _ hoperator => cases tag <;> simp_all [Tag.leadHook?, Tag.IsOperator]
  | _ =>
    obtain rfl := Option.some.inj hlead
    rw [events, calls_eq_flatMap ‹_› rfl]
    simp_all [Step.calls, Event.ofCall, Call.hook, Call.operands, operandList]

/-- The events of a connective: one before, one between and one after those of its operands. -/
lemma events_connective {op : Connective} {left right : Tree}
    (h : (node (.connective op) text [left, right]).WellFormed) :
    let described := [some left.description, some right.description]
    (node (.connective op) text [left, right]).events =
      ⟨.connective op .opening, described⟩ :: (left.events ++
        ⟨.connective op .middle, described⟩ :: (right.events ++
          [⟨.connective op .closing, described⟩])) := by
  intro described
  rw [events, calls_eq_flatMap h rfl]
  simp [Step.calls, Event.ofCall, Call.hook, Call.operands, events, described]

/-- The events of a negation: two before and one after those of its operand. -/
lemma events_negation {operand : Tree} (h : (node .negation text [operand]).WellFormed) :
    let described := [some operand.description]
    (node .negation text [operand]).events =
      ⟨.negation .opening, described⟩ :: ⟨.negation .middle, described⟩ ::
        (operand.events ++ [⟨.negation .closing, described⟩]) := by
  intro described
  rw [events, calls_eq_flatMap h rfl]
  simp [Step.calls, Event.ofCall, Call.hook, Call.operands, events, described]

/-- The events of a predicate begin with the hook of its operator. -/
lemma exists_events_eq_cons {t : Tree} (h : t.WellFormed) (hpredicate : t.IsPredicateTree)
    {hook : Hook} (hlead : t.tag.leadHook? = some hook) :
    ∃ event rest, t.events = event :: rest ∧ event.hook = hook := by
  cases hpredicate with
  | @groups tag text children htag _ =>
    cases tag with
    | connective op =>
      obtain ⟨left, right, rfl⟩ :=
        List.length_eq_two.mp (Tag.admits_connective.mp (wellFormed_node.mp h).1)
      exact ⟨_, _, events_connective h, Option.some.inj hlead⟩
    | negation =>
      obtain ⟨operand, rfl⟩ :=
        List.length_eq_one_iff.mp (Tag.admits_negation.mp (wellFormed_node.mp h).1)
      exact ⟨_, _, events_negation h, Option.some.inj hlead⟩
    | _ => exact htag.elim
  | values htag hgroups hchildren => exact ⟨_, _, events_of_values h hgroups hchildren hlead, rfl⟩
  | operand hoperator =>
    obtain ⟨tag, text, children⟩ := t
    cases tag <;> simp_all [Tag.leadHook?, Tag.IsOperator]

/-! ## Reading events back -/

/-- What stands first where the events of a predicate tree may stand: the hook that leads the
predicate, or what follows a tree whose root is no operator. -/
lemma exists_head_events_append {t : Tree} (h : t.WellFormed) (hpredicate : t.IsPredicateTree)
    (e : Event) (rest : List Event) :
    ∃ head tail, t.events ++ e :: rest = head :: tail ∧
      (t.tag.leadHook? = some head.hook ∨ t.tag.leadHook? = none ∧ head = e) := by
  rcases hlead : t.tag.leadHook? with _ | hook
  · have hoperator : ¬t.tag.IsOperator := by
      intro hoperator
      obtain ⟨hook, hhook⟩ := Tag.exists_leadHook? hoperator
      exact nomatch hlead.symm.trans hhook
    exact ⟨e, rest, by rw [events_of_not_isOperator hoperator, List.nil_append], .inr ⟨rfl, rfl⟩⟩
  · obtain ⟨event, events, hevents, rfl⟩ := exists_events_eq_cons h hpredicate hlead
    exact ⟨event, events ++ e :: rest, by rw [hevents, List.cons_append], .inl rfl⟩

/-- If the events of two predicate trees cannot be told apart, then their predicates begin with the
same hook or are both missing. -/
lemma leadHook?_eq_of_events_append {s t : Tree} (hs : s.WellFormed) (hs' : s.IsPredicateTree)
    (ht : t.WellFormed) (ht' : t.IsPredicateTree) {d e : Event} (hd : d.hook.EndsOperand)
    (he : e.hook.EndsOperand) {xs ys : List Event} (h : s.events ++ d :: xs = t.events ++ e :: ys) :
    s.tag.leadHook? = t.tag.leadHook? := by
  obtain ⟨head, tail, hhead, hlead⟩ := exists_head_events_append hs hs' d xs
  obtain ⟨head', tail', hhead', hlead'⟩ := exists_head_events_append ht ht' e ys
  obtain ⟨rfl, -⟩ := List.cons.inj (hhead.symm.trans (h.trans hhead'))
  rcases hlead with hlead | ⟨hnone, rfl⟩
  · rcases hlead' with hlead' | ⟨-, rfl⟩
    · exact hlead.trans hlead'.symm
    · exact absurd hlead (he.ne_leadHook? _)
  · rcases hlead' with hlead' | ⟨hnone', -⟩
    · exact absurd hlead' (hd.ne_leadHook? _)
    · exact hnone.trans hnone'.symm

/-- The events of a predicate tree tell its structure, and they tell where they end if the next
event stands where an operand has ended. -/
theorem sameStructure_of_events_append {s t : Tree} (hs : s.WellFormed) (hs' : s.IsPredicateTree)
    (ht : t.WellFormed) (ht' : t.IsPredicateTree) {d e : Event} (hd : d.hook.EndsOperand)
    (he : e.hook.EndsOperand) {xs ys : List Event} (h : s.events ++ d :: xs = t.events ++ e :: ys) :
    SameStructure s t ∧ d = e ∧ xs = ys := by
  -- The induction is on `s`; what follows an operand differs from place to place, so the events
  -- after it have to be arbitrary.
  induction hs' generalizing t d e xs ys with
  | @operand s hoperator =>
    have hlead := leadHook?_eq_of_events_append hs (.operand hoperator) ht ht' hd he h
    have hoperator' : ¬t.tag.IsOperator := by
      intro hoperator'
      obtain ⟨hook, hhook⟩ := Tag.exists_leadHook? hoperator'
      exact hoperator (Tag.isOperator_of_leadHook? (hlead.trans hhook))
    rw [events_of_not_isOperator hoperator, events_of_not_isOperator hoperator'] at h
    exact ⟨.operand hoperator hoperator', List.cons.inj h⟩
  | @values tag text children htag hgroups hchildren =>
    obtain ⟨hook, hhook⟩ := Tag.exists_leadHook? htag
    have hlead := leadHook?_eq_of_events_append hs (.values htag hgroups hchildren) ht ht' hd he h
    obtain ⟨tag', text', children'⟩ := t
    obtain rfl : tag = tag' := Tag.leadHook?_inj hhook (hlead.symm.trans hhook)
    have hchildren' := (isPredicateTree_of_not_groups htag hgroups).mp ht'
    rw [events_of_values hs hgroups hchildren hhook,
      events_of_values ht hgroups hchildren' hhook] at h
    obtain ⟨hevent, hrest⟩ := List.cons.inj h
    have hdescribed := congrArg (List.filterMap id) (Event.mk.inj hevent).2
    rw [filterMap_operandList, filterMap_operandList] at hdescribed
    exact ⟨.values htag hgroups hdescribed, List.cons.inj hrest⟩
  | @groups tag text children htag hchildren ih =>
    obtain ⟨hook, hhook⟩ := Tag.exists_leadHook? htag.isOperator
    have hlead := leadHook?_eq_of_events_append hs (.groups htag hchildren) ht ht' hd he h
    obtain ⟨tag', text', children'⟩ := t
    obtain rfl : tag = tag' := Tag.leadHook?_inj hhook (hlead.symm.trans hhook)
    have hchildren' := (isPredicateTree_of_groups htag).mp ht'
    obtain ⟨hcount, hwell⟩ := wellFormed_node.mp hs
    obtain ⟨hcount', hwell'⟩ := wellFormed_node.mp ht
    cases tag with
    | connective op =>
      obtain ⟨left, right, rfl⟩ := List.length_eq_two.mp (Tag.admits_connective.mp hcount)
      obtain ⟨left', right', rfl⟩ := List.length_eq_two.mp (Tag.admits_connective.mp hcount')
      rw [List.forall_mem_cons, List.forall_mem_singleton] at hwell hwell' hchildren' ih
      rw [events_connective hs, events_connective ht] at h
      simp only [List.cons_append, List.append_assoc, List.nil_append] at h
      obtain ⟨hopening, h⟩ := List.cons.inj h
      obtain ⟨hleft, -, h⟩ :=
        ih.1 hwell.1 hwell'.1 hchildren'.1 (by trivial) (by trivial) h
      obtain ⟨hright, -, h⟩ :=
        ih.2 hwell.2 hwell'.2 hchildren'.2 (by trivial) (by trivial) h
      have hdescribed : [left, right].map description = [left', right'].map description := by
        simpa using (Event.mk.inj hopening).2
      exact ⟨.groups trivial hdescribed (.cons hleft (.cons hright .nil)), List.cons.inj h⟩
    | negation =>
      obtain ⟨operand, rfl⟩ := List.length_eq_one_iff.mp (Tag.admits_negation.mp hcount)
      obtain ⟨operand', rfl⟩ := List.length_eq_one_iff.mp (Tag.admits_negation.mp hcount')
      rw [List.forall_mem_singleton] at hwell hwell' hchildren' ih
      rw [events_negation hs, events_negation ht] at h
      simp only [List.cons_append, List.append_assoc, List.nil_append] at h
      obtain ⟨hopening, h⟩ := List.cons.inj h
      obtain ⟨hoperand, -, h⟩ :=
        ih hwell hwell' hchildren' (by trivial) (by trivial) (List.cons.inj h).2
      have hdescribed : [operand].map description = [operand'].map description := by
        simpa using (Event.mk.inj hopening).2
      exact ⟨.groups trivial hdescribed (.cons hoperand .nil), List.cons.inj h⟩
    | _ => exact htag.elim

/-- Predicate trees of one structure have the same events. -/
theorem events_eq_of_sameStructure {s t : Tree} (hs : s.WellFormed) (hs' : s.IsPredicateTree)
    (ht : t.WellFormed) (ht' : t.IsPredicateTree) (h : SameStructure s t) :
    s.events = t.events := by
  induction hs' generalizing t with
  | @operand s hoperator =>
    have hoperator' : ¬t.tag.IsOperator := by
      cases h with
      | groups htag _ _ => exact absurd htag.isOperator hoperator
      | values htag _ _ => exact absurd htag hoperator
      | operand _ hoperator' => exact hoperator'
    rw [events_of_not_isOperator hoperator, events_of_not_isOperator hoperator']
  | @values tag text children htag hgroups hchildren =>
    obtain ⟨hook, hhook⟩ := Tag.exists_leadHook? htag
    cases h with
    | groups htag _ _ => exact absurd htag hgroups
    | values _ _ hdescribed =>
      have hchildren' := (isPredicateTree_of_not_groups htag hgroups).mp ht'
      rw [events_of_values hs hgroups hchildren hhook,
        events_of_values ht hgroups hchildren' hhook, hdescribed]
    | operand hoperator _ => exact absurd htag hoperator
  | @groups tag text children htag hchildren ih =>
    cases h with
    | @groups _ _ text' _ children' _ hdescribed hparts =>
      have hchildren' := (isPredicateTree_of_groups htag).mp ht'
      obtain ⟨hcount, hwell⟩ := wellFormed_node.mp hs
      obtain ⟨hcount', hwell'⟩ := wellFormed_node.mp ht
      cases tag with
      | connective op =>
        obtain ⟨left, right, rfl⟩ := List.length_eq_two.mp (Tag.admits_connective.mp hcount)
        obtain ⟨left', right', rfl⟩ := List.length_eq_two.mp (Tag.admits_connective.mp hcount')
        rw [List.forall₂_cons, List.forall₂_cons] at hparts
        obtain ⟨hleft, hright, -⟩ := hparts
        rw [List.forall_mem_cons, List.forall_mem_singleton] at hwell hwell' hchildren' ih
        obtain ⟨hl, hr⟩ : left.description = left'.description ∧
            right.description = right'.description := by simpa using hdescribed
        rw [events_connective hs, events_connective ht, hl, hr,
          ih.1 hwell.1 hwell'.1 hchildren'.1 hleft, ih.2 hwell.2 hwell'.2 hchildren'.2 hright]
      | negation =>
        obtain ⟨operand, rfl⟩ := List.length_eq_one_iff.mp (Tag.admits_negation.mp hcount)
        obtain ⟨operand', rfl⟩ := List.length_eq_one_iff.mp (Tag.admits_negation.mp hcount')
        rw [List.forall₂_cons] at hparts
        obtain ⟨hoperand, -⟩ := hparts
        rw [List.forall_mem_singleton] at hwell hwell' hchildren' ih
        have hd : operand.description = operand'.description := by simpa using hdescribed
        rw [events_negation hs, events_negation ht, hd, ih hwell hwell' hchildren' hoperand]
      | _ => exact htag.elim
    | values _ hgroups _ => exact absurd htag hgroups
    | operand hoperator _ => exact absurd htag.isOperator hoperator

end Tree

/-- A trace determines the structure of a clause, and is determined by it.  Two well-formed
predicate trees are recorded alike by walks without a limit if and only if they have the same
operators in the same shape, functions with as many arguments, and operands that are described
alike, the root being an operand of the start. -/
theorem trace_eq_iff_sameStructure {s t : Tree} (hs : s.WellFormed) (hs' : s.IsPredicateTree)
    (ht : t.WellFormed) (ht' : t.IsPredicateTree) :
    ((walk (Trace.record none) none (some s)).runFrom #[]).2 =
        ((walk (Trace.record none) none (some t)).runFrom #[]).2 ↔
      s.description = t.description ∧ Tree.SameStructure s t := by
  have hrecorded {t : Tree} (ht : t.WellFormed) :
      ((walk (Trace.record none) none (some t)).runFrom #[]).2.toList =
        ⟨.start, [some t.description]⟩ :: (t.events ++ [⟨.stop, []⟩]) := by
    rw [Trace.runFrom_walk_unlimited ht]
    simp [Event.ofCall, Call.hook, Call.operands, Tree.events]
  rw [← Array.toList_inj, hrecorded hs, hrecorded ht]
  constructor
  · intro h
    obtain ⟨hstart, h⟩ := List.cons.inj h
    obtain ⟨hstructure, -⟩ := Tree.sameStructure_of_events_append hs hs' ht ht'
      (by trivial) (by trivial) h
    exact ⟨by simpa using hstart, hstructure⟩
  · rintro ⟨hdescribed, hstructure⟩
    rw [hdescribed, Tree.events_eq_of_sameStructure hs hs' ht ht' hstructure]

/-- A negated conjunction of a comparison and a function of one argument.  The trace does not tell
that one tree has an identifier and a number where the other one has a column and a string. -/
theorem trace_eq_iff_sameStructure_of_negated_group :
    let call : Tree := .branch (.function .contains) [.literal .string "'x'"]
    let s : Tree := .branch .negation [.branch (.connective .and)
      [.branch (.binary .less) [.column "a", .literal .number "7"], call]]
    let t : Tree := .branch .negation [.branch (.connective .and)
      [.branch (.binary .less) [.leaf (.name .identifier) "a", .literal .string "7"], call]]
    s.WellFormed ∧ s.IsPredicateTree ∧ t.WellFormed ∧ t.IsPredicateTree ∧
      ((walk (Trace.record none) none (some s)).runFrom #[]).2 =
        ((walk (Trace.record none) none (some t)).runFrom #[]).2 ∧
      Tree.SameStructure s t := by
  intro call s t
  have hs : s.WellFormed := by
    simp [s, call, Tree.wellFormed_node, Tree.branch, Tree.column, Tree.literal, Tree.leaf,
      Tag.Admits, Tag.arity?, Arity.Allows]
  have ht : t.WellFormed := by
    simp [t, call, Tree.wellFormed_node, Tree.branch, Tree.literal, Tree.leaf, Tag.Admits,
      Tag.arity?, Arity.Allows]
  have hcall : call.IsPredicateTree := .values trivial id (by decide)
  have hs' : s.IsPredicateTree := by
    refine .groups trivial (List.forall_mem_singleton.mpr (.groups trivial ?_))
    exact List.forall_mem_cons.mpr
      ⟨.values trivial id (by decide), List.forall_mem_singleton.mpr hcall⟩
  have ht' : t.IsPredicateTree := by
    refine .groups trivial (List.forall_mem_singleton.mpr (.groups trivial ?_))
    exact List.forall_mem_cons.mpr
      ⟨.values trivial id (by decide), List.forall_mem_singleton.mpr hcall⟩
  have htrace : ((walk (Trace.record none) none (some s)).runFrom #[]).2 =
      ((walk (Trace.record none) none (some t)).runFrom #[]).2 := rfl
  exact ⟨hs, hs', ht, ht', htrace, ((trace_eq_iff_sameStructure hs hs' ht ht').mp htrace).2⟩

end WhereClause
