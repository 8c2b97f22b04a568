import WhereClause.Proofs.Walk.Calls

/-!
# How often each hook is called

A walk without a limit calls the hooks of every node that it visits once each, and no others:
up to their order, the hooks that are called are those of the visited nodes put together
(`Tree.perm_hooks_calls`).  So the events of a trace can be counted by counting nodes
(`count_hooks_of_walk`).
-/

namespace WhereClause

/-! ## Visited nodes -/

namespace Tree

mutual

/-- The nodes of the tree that a walk visits, each as the tree that hangs there, parents before
their children.  There are none below literals, lists, names and clause markers. -/
def visitedNodes : Tree → List Tree
  | node tag text children => node tag text children :: visitedNodesOfFirst tag.reach children

/-- The visited nodes of the first so many trees of the list. -/
def visitedNodesOfFirst : Nat → List Tree → List Tree
  | 0, _ | _, [] => []
  | count + 1, t :: ts => visitedNodes t ++ visitedNodesOfFirst count ts

end

end Tree

/-! ## Hooks of tags -/

namespace Tag

/-- The hooks that belong to an operator of the tag, in the order in which they are called. -/
def hooks : Tag → List Hook
  | binary op => [.binary op]
  | connective op => [.connective op .opening, .connective op .middle, .connective op .closing]
  | negation => [.negation .opening, .negation .middle, .negation .closing]
  | nullTest test => [.nullTest test]
  | function op => [.function op]
  | score => [.score]
  | clause | literal _ | list | name _ => []

/-- A hook belongs to the operator that it names. -/
lemma operator?_of_mem_hooks {tag : Tag} {hook : Hook} (h : hook ∈ tag.hooks) :
    hook.operator? = some tag := by
  cases tag <;> simp only [hooks, List.mem_cons, List.not_mem_nil, or_false] at h <;>
    rcases h with rfl | rfl | rfl <;> rfl

/-- The hooks of an operator are different ones. -/
lemma nodup_hooks (tag : Tag) : tag.hooks.Nodup := by
  cases tag <;> simp [hooks]

/-- Among the hooks of a tag each hook of a tag is found once if the tags are the same, and never
otherwise. -/
lemma count_hooks {tag : Tag} {hook : Hook} (h : hook ∈ tag.hooks) (other : Tag) :
    other.hooks.count hook = if other = tag then 1 else 0 := by
  split
  · rename_i hsame
    rw [hsame, (nodup_hooks tag).count, if_pos h]
  · rename_i hother
    refine List.count_eq_zero_of_not_mem fun hmem => hother ?_
    exact Option.some.inj ((operator?_of_mem_hooks hmem).symm.trans (operator?_of_mem_hooks h))

/-- An operator has one hook, and two more if it groups predicates. -/
lemma length_hooks (tag : Tag) :
    tag.hooks.length = (if tag.IsOperator then 1 else 0) + 2 * (if tag.Groups then 1 else 0) := by
  cases tag <;> rfl

end Tag

/-! ## Called hooks -/

namespace Tree

/-- The hooks of all visited nodes, node by node. -/
def visitedHooks (t : Tree) : List Hook :=
  t.visitedNodes.flatMap (·.tag.hooks)

variable {tag : Tag} {text : String}

/-- Only the root of an operand is visited, and it has no hooks. -/
lemma visitedHooks_of_not_isOperator {t : Tree} (h : ¬t.tag.IsOperator) : t.visitedHooks = [] := by
  obtain ⟨tag, text, children⟩ := t
  rw [tag_node] at h
  rw [visitedHooks, visitedNodes, Tag.reach_of_not_isOperator h, visitedNodesOfFirst]
  cases tag <;> simp_all [Tag.hooks, Tag.IsOperator]

/-- A node with one visited child has its own hooks and those of the child. -/
lemma visitedHooks_of_one {operand : Tree} (h : 1 ≤ tag.reach) :
    (node tag text [operand]).visitedHooks = tag.hooks ++ operand.visitedHooks := by
  obtain ⟨count, hcount⟩ := Nat.exists_eq_add_of_le' h
  rw [visitedHooks, visitedNodes, hcount]
  cases count <;> simp [visitedNodesOfFirst, visitedHooks]

/-- A node with two visited children has its own hooks and those of the children. -/
lemma visitedHooks_of_two {left right : Tree} (h : tag.reach = 2) :
    (node tag text [left, right]).visitedHooks =
      tag.hooks ++ (left.visitedHooks ++ right.visitedHooks) := by
  rw [visitedHooks, visitedNodes, h]
  simp [visitedNodesOfFirst, visitedHooks]

/-- A visit without a limit calls the hooks of the visited nodes, each as often as there is a node
that it belongs to. -/
theorem perm_hooks_calls {t : Tree} (h : t.WellFormed) :
    (t.calls.map Call.hook).Perm t.visitedHooks := by
  -- A binary operator, for one, is called between its operands, and its hooks come before theirs.
  refine List.perm_iff_count.mpr fun hook => ?_
  induction h using WellFormed.induct with
  | operand tag text children _ hoperator =>
    have hroot : ¬(node tag text children).tag.IsOperator := hoperator
    rw [calls_of_not_isOperator hroot, visitedHooks_of_not_isOperator hroot, List.map_nil]
  | score text h =>
    rw [calls_eq_flatMap h rfl]
    rfl
  | binary op text left right _ _ h ihleft ihright
  | connective op text left right _ _ h ihleft ihright
  | functionOfColumn op text left right _ _ h ihleft ihright =>
    rw [calls_eq_flatMap h rfl, visitedHooks_of_two rfl]
    simp only [List.flatMap_cons, List.flatMap_nil, Step.calls, List.map_append, List.map_cons,
      List.map_nil, List.count_append, ihleft, ihright, List.count_cons, List.count_nil, Call.hook,
      Tag.hooks]
    omega
  | negation text operand _ h ih
  | nullTest test text operand _ h ih
  | functionOfArgument op text operand _ h ih =>
    rw [calls_eq_flatMap h rfl, visitedHooks_of_one (by simp [Tag.reach])]
    simp only [List.flatMap_cons, List.flatMap_nil, Step.calls, List.map_append, List.map_cons,
      List.map_nil, List.count_append, ih, List.count_cons, List.count_nil, Call.hook, Tag.hooks]
    omega

/-- Among the hooks of the visited nodes, a hook is found as often as there are nodes with its tag.
-/
lemma count_visitedHooks {tag : Tag} {hook : Hook} (h : hook ∈ tag.hooks) (t : Tree) :
    t.visitedHooks.count hook = t.visitedNodes.countP (·.tag = tag) := by
  rw [visitedHooks]
  induction t.visitedNodes with
  | nil => rfl
  | cons t ts ih =>
    rw [List.flatMap_cons, List.count_append, ih, Tag.count_hooks h, List.countP_cons,
      Nat.add_comm]
    simp

/-- Every visited operator has one hook, and two more if it groups predicates. -/
lemma length_visitedHooks (t : Tree) :
    t.visitedHooks.length = t.visitedNodes.countP (·.tag.IsOperator) +
      2 * t.visitedNodes.countP (·.tag.Groups) := by
  rw [visitedHooks]
  induction t.visitedNodes with
  | nil => rfl
  | cons t ts ih =>
    rw [List.flatMap_cons, List.length_append, ih, Tag.length_hooks, List.countP_cons,
      List.countP_cons]
    simp only [decide_eq_true_eq]
    omega

end Tree

/-! ## Traces -/

/-- A walk of a well-formed tree without a limit ends well, and no predicate is lost or recorded
twice.  Every hook of an operator is recorded as often as nodes with the tag of that operator are
visited, so there are as many events as visited operators, two more for each of those that group
predicates, and the start and the end. -/
theorem count_hooks_of_walk {t : Tree} (ht : t.WellFormed) :
    let result := (walk (Trace.record none) none (some t)).runFrom #[]
    let hooks := result.2.toList.map Event.hook
    result.1 = .ok () ∧
      (∀ tag : Tag, ∀ hook ∈ tag.hooks,
        hooks.count hook = t.visitedNodes.countP (·.tag = tag)) ∧
      hooks.length = 2 + t.visitedNodes.countP (·.tag.IsOperator) +
        2 * t.visitedNodes.countP (·.tag.Groups) := by
  intro result hooks
  have hresult : result = _ := Trace.runFrom_walk_unlimited ht #[]
  have hhooks : hooks = .start :: (t.calls.map Call.hook ++ [.stop]) := by
    simp [hooks, hresult, Event.ofCall, Call.hook, Function.comp_def]
  have hperm := Tree.perm_hooks_calls ht
  refine ⟨by rw [hresult], fun tag hook hmem => ?_, ?_⟩
  · have hoperator := Tag.operator?_of_mem_hooks hmem
    have hstart : hook ≠ .start := by
      rintro rfl
      cases hoperator
    have hstop : hook ≠ .stop := by
      rintro rfl
      cases hoperator
    rw [hhooks, List.count_cons_of_ne hstart.symm, List.count_append, hperm.count_eq,
      Tree.count_visitedHooks hmem, List.count_singleton]
    simp [hstop.symm]
  · have hlength := hperm.length_eq
    rw [Tree.length_visitedHooks] at hlength
    rw [hhooks, List.length_cons, List.length_append, hlength, List.length_singleton]
    omega

/-- A negated conjunction with scores as operands of a comparison and of a function.  The operands
are called as well, although they are no predicates there. -/
theorem count_hooks_of_walk_of_nested_scores :
    let score : Tree := .branch .score []
    let t : Tree := .branch .negation [.branch (.connective .and)
      [.branch (.binary .less) [score, .literal .number "7"],
        .branch (.function .contains) [.column "a", score]]]
    let hooks := ((walk (Trace.record none) none (some t)).runFrom #[]).2.toList.map Event.hook
    t.WellFormed ∧ hooks.count .score = 2 ∧ hooks.count (.connective .and .closing) = 1 ∧
      hooks.length = 12 := by
  intro score t hooks
  have ht : t.WellFormed := by
    simp [t, score, Tree.wellFormed_node, Tree.branch, Tree.column, Tree.literal, Tree.leaf,
      Tag.Admits, Tag.arity?, Arity.Allows]
  obtain ⟨-, hcount, hlength⟩ := count_hooks_of_walk ht
  exact ⟨ht, (hcount .score .score (by decide)).trans (by decide),
    (hcount (.connective .and) (.connective .and .closing) (by decide)).trans (by decide),
    hlength.trans (by decide)⟩

end WhereClause
