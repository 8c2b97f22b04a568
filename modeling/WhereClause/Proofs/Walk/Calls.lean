import WhereClause.Proofs.Walk.Levels
import WhereClause.Proofs.Walk.Replay

/-!
# Walks without a limit

Without a limit of levels a walk through a well-formed tree comes to its end, and what it calls is a
recursive function of the tree: `Tree.calls` are the calls of a visit of the tree, from whatever
level, and `Tree.calls_eq_flatMap` puts them together from the steps of the root.  A recorder that
refuses nothing records just these calls between the start and the end
(`Trace.runFrom_walk_unlimited`).
-/

namespace WhereClause

namespace Walk

variable {σ : Type}

/-- Without a limit it does not matter at which level a tree hangs. -/
lemma visit_unlimited (handle : Handler σ) (level level' : Nat) (t : Tree) :
    visit handle none level t = visit handle none level' t := by
  induction t using Tree.induct generalizing level level' with
  | node tag text children ih =>
    have hperform : ∀ steps, (Tree.node tag text children).steps? = some steps → ∀ step ∈ steps,
        perform handle none (level + 1) step = perform handle none (level' + 1) step := by
      intro steps hsteps step hstep
      cases step with
      | visit c => exact ih c (Tree.mem_children_of_mem_steps? hsteps hstep) _ _
      | call call => rfl
    rw [visit_eq_steps, visit_eq_steps]
    rcases hsteps : (Tree.node tag text children).steps? with _ | steps
    · rfl
    · rw [performAll, performAll, Action.forM_congr (hperform steps hsteps)]
      rfl

/-- Without a limit a visit of a well-formed tree ends well. -/
lemma ending_visitScript_unlimited {t : Tree} (h : t.WellFormed) (level : Nat) :
    (visitScript none level t).ending = .ok () := by
  have hlevel : visitScript none level t = visitScript none (0 + 1) t := by
    rw [visitScript, visitScript, visit_unlimited logCall level (0 + 1)]
  rw [hlevel, ending_visitScript_of_wellFormed h none 0]
  rfl

end Walk

/-! ## Hooks of operators -/

/-- The tag of the operator that a hook belongs to, in whichever phase. -/
def Hook.operator? : Hook → Option Tag
  | start | stop => none
  | binary op => some (.binary op)
  | connective op _ => some (.connective op)
  | negation _ => some .negation
  | nullTest test => some (.nullTest test)
  | function op => some (.function op)
  | score => some .score

/-! ## Calls of a tree -/

/-- The calls that a visit of the tree makes if there is no limit of levels. -/
def Tree.calls (t : Tree) : List Call :=
  (Walk.visitScript none 1 t).calls

/-- The calls that belong to a step if there is no limit of levels. -/
def Step.calls : Step → List Call
  | visit child => child.calls
  | call c => [c]

namespace Tree

/-- Without a limit the same calls are made at all levels. -/
lemma calls_visitScript_unlimited (level : Nat) (t : Tree) :
    (Walk.visitScript none level t).calls = t.calls := by
  rw [calls, Walk.visitScript, Walk.visitScript, Walk.visit_unlimited logCall level 1]

/-- The calls of a well-formed tree are those of the steps of its root, one step after the other. -/
theorem calls_eq_flatMap {t : Tree} (h : t.WellFormed) {steps : List Step}
    (hsteps : t.steps? = some steps) : t.calls = steps.flatMap Step.calls := by
  have hends : ∀ c, Step.visit c ∈ steps → (Walk.visitScript none (1 + 1) c).ending = .ok () := by
    intro c hc
    have hchild := mem_children_of_mem_steps? hsteps hc
    obtain ⟨tag, text, children⟩ := t
    exact Walk.ending_visitScript_unlimited ((wellFormed_node.mp h).2 c hchild) _
  rw [calls, Walk.visitScript_eq_steps, hsteps]
  change (Walk.stepsScript none (1 + 1) (some steps)).calls = _
  clear hsteps
  induction steps with
  | nil => rfl
  | cons step steps ih =>
    have hrest := ih fun c hc => hends c (List.mem_cons_of_mem _ hc)
    change ((Walk.stepScript none (1 + 1) step).andThen
      (Walk.stepsScript none (1 + 1) (some steps))).calls = _
    rw [Script.calls_andThen, hrest, List.flatMap_cons]
    cases step with
    | visit c =>
      rw [Walk.stepScript, hends c List.mem_cons_self, calls_visitScript_unlimited]
      rfl
    | call call => rfl

/-- A tree whose root is no operator is visited without a call. -/
lemma calls_of_not_isOperator {t : Tree} (h : ¬t.tag.IsOperator) : t.calls = [] := by
  rw [calls, Walk.visitScript_eq_steps, steps?_of_not_isOperator h]
  rfl

end Tree

/-! ## Traces -/

/-- Without a limit the calls of a walk through a well-formed tree are the start, the calls of the
tree, and the end. -/
lemma Walk.walkScript_unlimited {t : Tree} (h : t.WellFormed) :
    Walk.walkScript none (some t) = ⟨.start t :: (t.calls ++ [.stop]), .ok ()⟩ := by
  have hending := ending_visitScript_unlimited h 1
  have hcalls := calls_walkScript none t
  rw [hending, Tree.calls_visitScript_unlimited] at hcalls
  have hend := ending_walkScript none t
  rw [hending] at hend
  rcases hscript : walkScript none (some t) with ⟨calls, ending⟩
  rw [hscript] at hcalls hend
  exact congrArg₂ Script.mk hcalls hend

/-- Without a limit a recorder that refuses nothing records all calls of a well-formed tree, between
the start and the end. -/
theorem Trace.runFrom_walk_unlimited {t : Tree} (h : t.WellFormed) (earlier : Trace) :
    (walk (Trace.record none) none (some t)).runFrom earlier =
      (.ok (), earlier ++ ((Call.start t :: (t.calls ++ [.stop])).map Event.ofCall).toArray) := by
  rw [Walk.runFrom_walk_eq_replay, Walk.walkScript_unlimited h, replay_record_none]

end WhereClause
