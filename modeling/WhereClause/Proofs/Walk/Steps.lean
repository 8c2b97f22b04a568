import WhereClause.Walk
import WhereClause.Proofs.Tree.Shape

/-!
# The steps of a visit

A visit of a node does a few things in a fixed order: it goes down to children and it makes calls.
`Tree.steps?` lists these steps as data, or is `none` where the node lacks a child, and
`Walk.visit_eq_steps` says that a visit checks its level and then performs the steps.  What is true
of every walk, whatever the tags, is proved from this one equation.

The file opens with the laws of running an `Action`, on which all reasoning about walks rests, and
with simulations between the actions of two handlers.
-/

namespace WhereClause

/-! ## Running actions -/

namespace Action

variable {σ α β : Type}

/-- Actions that run alike from every state are equal. -/
lemma ext_runFrom {a b : Action σ α} (h : ∀ s, a.runFrom s = b.runFrom s) : a = b :=
  funext h

@[simp] lemma runFrom_pure (x : α) (s : σ) : (pure x : Action σ α).runFrom s = (.ok x, s) := rfl

@[simp] lemma runFrom_throw (halt : Halt) (s : σ) :
    (throw halt : Action σ α).runFrom s = (.error halt, s) := rfl

@[simp] lemma runFrom_modify (f : σ → σ) (s : σ) :
    (modify f : Action σ PUnit).runFrom s = (.ok ⟨⟩, f s) := rfl

/-- A sequence of actions runs its second part from the state that the first one leaves, unless the
first one ends early. -/
lemma runFrom_bind (a : Action σ α) (f : α → Action σ β) (s : σ) :
    (a >>= f).runFrom s =
      match a.runFrom s with
      | (.ok x, s') => (f x).runFrom s'
      | (.error halt, s') => (.error halt, s') := by
  change (match a s with | (r, s') => ExceptT.bindCont f r s') = _
  change _ = match a s with
    | (.ok x, s') => (f x).runFrom s'
    | (.error halt, s') => (.error halt, s')
  rcases a s with ⟨_ | _, _⟩ <;> rfl

/-- A sequence whose first part ends well runs as its second part. -/
lemma runFrom_bind_of_ok {a : Action σ α} {f : α → Action σ β} {s s' : σ} {x : α}
    (h : a.runFrom s = (.ok x, s')) : (a >>= f).runFrom s = (f x).runFrom s' := by
  rw [runFrom_bind, h]

/-- A sequence whose first part ends early ends there. -/
lemma runFrom_bind_of_error {a : Action σ α} {f : α → Action σ β} {s s' : σ} {halt : Halt}
    (h : a.runFrom s = (.error halt, s')) : (a >>= f).runFrom s = (.error halt, s') := by
  rw [runFrom_bind, h]

/-- Actions that are the same for every member of a list are the same for the whole list. -/
lemma forM_congr {γ : Type} {xs : List γ} {f g : γ → Action σ PUnit} (h : ∀ x ∈ xs, f x = g x) :
    xs.forM f = xs.forM g := by
  induction xs with
  | nil => rfl
  | cons x xs ih =>
    obtain ⟨hhead, htail⟩ := List.forall_mem_cons.mp h
    change (do f x; xs.forM f) = _
    rw [hhead, ih htail]
    rfl

end Action

/-! ## Simulations -/

namespace Action

/-- From related states the two actions end alike, and they leave related states behind. -/
def Simulates {σ τ α : Type} (r : σ → τ → Prop) (a : Action σ α) (b : Action τ α) : Prop :=
  ∀ s u, r s u → (a.runFrom s).1 = (b.runFrom u).1 ∧ r (a.runFrom s).2 (b.runFrom u).2

namespace Simulates

variable {σ τ α β : Type} {r : σ → τ → Prop}

/-- Doing nothing simulates doing nothing. -/
lemma pure (x : α) : Simulates r (Pure.pure x) (Pure.pure x) :=
  fun _ _ h => ⟨rfl, h⟩

/-- An early end simulates the same early end. -/
lemma throw (halt : Halt) :
    Simulates r (MonadExcept.throw halt : Action σ α) (MonadExcept.throw halt) :=
  fun _ _ h => ⟨rfl, h⟩

/-- Sequences simulate each other if their parts do. -/
lemma bind {a : Action σ α} {b : Action τ α} {f : α → Action σ β} {g : α → Action τ β}
    (hab : Simulates r a b) (hfg : ∀ x, Simulates r (f x) (g x)) :
    Simulates r (a >>= f) (b >>= g) := by
  intro s u h
  obtain ⟨hend, hstate⟩ := hab s u h
  rw [runFrom_bind, runFrom_bind]
  rcases ha : a.runFrom s with ⟨_ | x, s'⟩
  all_goals
    rcases hb : b.runFrom u with ⟨_ | y, u'⟩
    all_goals rw [ha, hb] at hend hstate
  · exact ⟨congrArg _ (Except.error.inj hend), hstate⟩
  · exact nomatch hend
  · exact nomatch hend
  · obtain rfl := Except.ok.inj hend
    exact hfg x s' u' hstate

/-- Doing something for each item simulates doing something else for each of them if it does so for
every item. -/
lemma forM {γ : Type} {xs : List γ} {f : γ → Action σ PUnit} {g : γ → Action τ PUnit}
    (h : ∀ x ∈ xs, Simulates r (f x) (g x)) : Simulates r (xs.forM f) (xs.forM g) := by
  induction xs with
  | nil => exact .pure _
  | cons x xs ih =>
    obtain ⟨hhead, htail⟩ := List.forall_mem_cons.mp h
    exact hhead.bind fun _ => ih htail

end Simulates

end Action

/-! ## Steps -/

/-- A thing that a visit of a node does. -/
inductive Step
  /-- It goes down to a child. -/
  | visit (child : Tree)
  | call (call : Call)

/-- What a visit of the tree does, in order, or `none` if the tree lacks a child that its tag
needs. -/
def Tree.steps? (t : Tree) : Option (List Step) :=
  match t.tag, t.children with
  | .binary op, left :: right :: _ =>
    some [.visit left, .call (.binary op t left right), .visit right]
  | .connective op, left :: right :: _ =>
    some [.call (.connective op .opening t left right), .visit left,
      .call (.connective op .middle t left right), .visit right,
      .call (.connective op .closing t left right)]
  | .negation, operand :: _ =>
    some [.call (.negation .opening t operand), .call (.negation .middle t operand),
      .visit operand, .call (.negation .closing t operand)]
  | .nullTest test, operand :: _ => some [.call (.nullTest test t operand), .visit operand]
  | .function op, [argument] => some [.call (.function op t none argument), .visit argument]
  | .function op, column :: argument :: _ =>
    some [.visit column, .call (.function op t (some column) argument), .visit argument]
  | .score, _ => some [.call (.score t)]
  | .clause, _ | .literal _, _ | .list, _ | .name _, _ => some []
  | .binary _, _ | .connective _, _ | .negation, _ | .nullTest _, _ | .function _, _ => none

/-- A visit goes down to children only. -/
lemma Tree.mem_children_of_mem_steps? {t c : Tree} {steps : List Step} (h : t.steps? = some steps)
    (hc : Step.visit c ∈ steps) : c ∈ t.children := by
  unfold Tree.steps? at h
  split at h <;> simp_all <;> grind

/-- A visit goes down to trees of less depth only. -/
lemma Tree.depth_lt_of_mem_steps? {t c : Tree} {steps : List Step} (h : t.steps? = some steps)
    (hc : Step.visit c ∈ steps) : c.depth < t.depth := by
  obtain ⟨tag, text, children⟩ := t
  exact Tree.depth_lt_depth_node (Tree.mem_children_of_mem_steps? h hc)

/-- Nothing is done at a literal, a list, a name or a clause marker. -/
lemma Tree.steps?_of_not_isOperator {t : Tree} (h : ¬t.tag.IsOperator) : t.steps? = some [] := by
  obtain ⟨tag, text, children⟩ := t
  cases tag <;> simp_all [Tree.steps?, Tag.IsOperator]

namespace Walk

variable {σ : Type}

/-- Does a step, going down to children at the given level. -/
def perform (handle : Handler σ) (limit : Option Nat) (level : Nat) : Step → Action σ Unit
  | .visit child => visit handle limit level child
  | .call call => handle call

/-- Does all the steps of a node, or stops at once if the node lacks a child. -/
def performAll (handle : Handler σ) (limit : Option Nat) (level : Nat) :
    Option (List Step) → Action σ Unit
  | some steps => steps.forM (perform handle limit level)
  | none => throw (.defect .missingChild)

/-- A visit checks its level and then performs the steps of its node, one level further down. -/
theorem visit_eq_steps (handle : Handler σ) (limit : Option Nat) (level : Nat) (t : Tree) :
    visit handle limit level t =
      (do checkLevel limit level; performAll handle limit (level + 1) t.steps?) := by
  obtain ⟨tag, text, children⟩ := t
  rw [visit.eq_def, Tree.steps?]
  dsimp only [Tree.tag_node, Tree.children_node]
  split <;> simp [performAll, perform]

/-- A literal, a list, a name or a clause marker is visited without a call. -/
lemma visit_of_not_isOperator {t : Tree} (h : ¬t.tag.IsOperator) (handle : Handler σ)
    (limit : Option Nat) (level : Nat) :
    visit handle limit level t = checkLevel limit level := by
  rw [visit_eq_steps, Tree.steps?_of_not_isOperator h]
  exact bind_pure _

end Walk

end WhereClause
