import WhereClause.Proofs.Walk.Script

/-!
# The limit of levels

A walk refuses a level beyond its limit when it gets there.  For a well-formed tree this is exact:
the walk ends as looking at the deepest level that it goes down to does
(`Walk.ending_visitScript_of_wellFormed`), so it ends well exactly if `Tree.levels` is within the
limit.  No call is made about a node beyond the limit, whatever the tree
(`Walk.place_of_mem_placedCalls`).

The levels of calls are those of `Walk.visitAt`, a visit that tells its handler the level of the
node of each call.  That it is otherwise the same as a visit is a simulation
(`Walk.simulates_visitAt`).
-/

namespace WhereClause

/-! ## Levels of steps -/

/-- The greatest number of levels among the trees that the steps go down to. -/
def levelsOfSteps : List Step → Nat
  | [] => 0
  | .visit child :: steps => max child.levels (levelsOfSteps steps)
  | .call _ :: steps => levelsOfSteps steps

namespace Tree

/-- A well-formed tree has all the children that it needs, and it has one level more than the
deepest of those that a visit goes down to. -/
lemma WellFormed.exists_steps? {t : Tree} (h : t.WellFormed) :
    ∃ steps, t.steps? = some steps ∧ t.levels = 1 + levelsOfSteps steps := by
  cases h using WellFormed.induct with
  | operand tag text children _ htag =>
    refine ⟨[], steps?_of_not_isOperator htag, ?_⟩
    rw [levels, Tag.reach_of_not_isOperator htag, levelsOfFirst, levelsOfSteps]
  | _ => exact ⟨_, rfl, by simp [levels, levelsOfFirst, levelsOfSteps, Tag.reach]⟩

/-- A walk goes down to some of the levels of a tree only. -/
lemma levels_le_depth (t : Tree) : t.levels ≤ t.depth := by
  induction t using Tree.induct with
  | node tag text children ih =>
    have hfirst (count : Nat) : levelsOfFirst count children ≤ depthList children := by
      induction children generalizing count with
      | nil => cases count <;> simp [levelsOfFirst]
      | cons c cs ihcs =>
        cases count with
        | zero => simp [levelsOfFirst]
        | succ count =>
          have hhead := ih c List.mem_cons_self
          have htail := ihcs (fun d hd => ih d (List.mem_cons_of_mem _ hd)) count
          rw [levelsOfFirst, depthList]
          omega
    have := hfirst tag.reach
    rw [levels, depth]
    omega

end Tree

/-! ## Endings -/

namespace Walk

/-- A level is within the limit, or there is a limit that it is beyond. -/
lemma within_or_beyond (limit : Option Nat) (level : Nat) :
    (∀ l ∈ limit, level ≤ l) ∨ ∃ l, limit = some l ∧ l < level := by
  cases limit with
  | none => exact .inl fun l hl => nomatch hl
  | some limit =>
    rcases Nat.lt_or_ge limit level with h | h
    · exact .inr ⟨limit, rfl, h⟩
    · exact .inl (by simpa using h)

/-- Looking at a level within the limit ends well. -/
lemma ending_levelScript_of_le {limit : Option Nat} {level : Nat} (h : ∀ l ∈ limit, level ≤ l) :
    (levelScript limit level).ending = .ok () := by
  cases limit with
  | none => rfl
  | some limit =>
    rw [levelScript, if_neg (Nat.not_lt.mpr (h limit rfl))]
    rfl

/-- Looking at a level beyond the limit ends with an error that names the limit. -/
lemma ending_levelScript_of_lt {limit level : Nat} (h : limit < level) :
    (levelScript (some limit) level).ending = .error (.error (.tooComplex limit)) := by
  rw [levelScript, if_pos h]
  rfl

/-- Looking at one level and then at another ends as looking at the deeper one does. -/
lemma ending_levelScript_max (limit : Option Nat) (m n : Nat) :
    (do (levelScript limit m).ending; (levelScript limit n).ending) =
      (levelScript limit (max m n)).ending := by
  rcases within_or_beyond limit m with hm | ⟨l, rfl, hm⟩
  · rw [ending_levelScript_of_le hm]
    rcases within_or_beyond limit n with hn | ⟨l, rfl, hn⟩
    · have hmax : ∀ l ∈ limit, max m n ≤ l := fun l hl => Nat.max_le.mpr ⟨hm l hl, hn l hl⟩
      rw [ending_levelScript_of_le hn, ending_levelScript_of_le hmax]
      rfl
    · rw [ending_levelScript_of_lt hn, ending_levelScript_of_lt (by omega)]
      rfl
  · have hmax : l < max m n := by omega
    rw [ending_levelScript_of_lt hm, ending_levelScript_of_lt hmax]
    rfl

/-- Steps from a level that has been looked at end as looking at the deepest level does that they go
down to, if the visits among them do. -/
lemma ending_stepsScript {limit : Option Nat} {level reached : Nat} (hreached : level ≤ reached)
    {steps : List Step}
    (h : ∀ c, Step.visit c ∈ steps →
      (visitScript limit (level + 1) c).ending = (levelScript limit (level + c.levels)).ending) :
    (do (levelScript limit reached).ending; (stepsScript limit (level + 1) (some steps)).ending) =
      (levelScript limit (max reached (level + levelsOfSteps steps))).ending := by
  -- `reached` is the deepest level looked at so far, and grows with every visit among the steps.
  induction steps generalizing reached with
  | nil =>
    have hdeepest : max reached (level + levelsOfSteps []) = reached := Nat.max_eq_left hreached
    rw [hdeepest]
    rcases (levelScript limit reached).ending with _ | _ <;> rfl
  | cons step steps ih =>
    have hrest := fun c hc => h c (List.mem_cons_of_mem _ hc)
    change (do
      (levelScript limit reached).ending
      ((stepScript limit (level + 1) step).andThen
        (stepsScript limit (level + 1) (some steps))).ending) = _
    rw [Script.ending_andThen, ← bind_assoc]
    cases step with
    | visit c =>
      have hdeeper : level ≤ max reached (level + c.levels) := by omega
      rw [stepScript, h c List.mem_cons_self, ending_levelScript_max, ih hdeeper hrest,
        levelsOfSteps]
      congr 2
      omega
    | call call =>
      change (do ((levelScript limit reached).ending >>= pure); _) = _
      rw [bind_pure, ih hreached hrest, levelsOfSteps]

/-- A visit of a well-formed tree ends as looking at the deepest level does that it goes down to. -/
theorem ending_visitScript_of_wellFormed {t : Tree} (h : t.WellFormed) (limit : Option Nat)
    (level : Nat) :
    (visitScript limit (level + 1) t).ending = (levelScript limit (level + t.levels)).ending := by
  induction h generalizing level with
  | @node tag text children hadmits hchildren ih =>
    obtain ⟨steps, hsteps, hlevels⟩ := (Tree.WellFormed.node hadmits hchildren).exists_steps?
      (t := .node tag text children)
    have hvisits : ∀ c, Step.visit c ∈ steps → (visitScript limit (level + 1 + 1) c).ending =
        (levelScript limit (level + 1 + c.levels)).ending :=
      fun c hc => ih c (Tree.mem_children_of_mem_steps? hsteps hc) (level + 1)
    rw [visitScript_eq_steps, Script.ending_andThen, hsteps,
      ending_stepsScript (Nat.le_refl _) hvisits, hlevels]
    congr 2
    omega

end Walk

/-! ## The levels of calls -/

namespace Walk

variable {σ τ : Type}

/-- Visits as `visit` does, and tells the handler with each call the level of the node that the call
is about. -/
def visitAt (handle : Nat → Handler σ) (limit : Option Nat) (level : Nat) (t : Tree) :
    Action σ Unit := do
  checkLevel limit level
  match _hsteps : t.steps? with
  | some steps =>
    steps.attach.forM fun
      | ⟨.visit child, _hchild⟩ => visitAt handle limit (level + 1) child
      | ⟨.call call, _⟩ => handle level call
  | none => throw (.defect .missingChild)
termination_by t.depth
decreasing_by exact Tree.depth_lt_of_mem_steps? _hsteps _hchild

/-- Looking at a level within the limit does nothing. -/
lemma checkLevel_of_le {limit : Option Nat} {level : Nat} (h : ∀ l ∈ limit, level ≤ l) :
    (checkLevel limit level : Action σ Unit) = pure () := by
  cases limit with
  | none => rfl
  | some limit => exact if_neg (Nat.not_lt.mpr (h limit rfl))

/-- Looking at a level beyond the limit ends with an error that names the limit. -/
lemma checkLevel_of_lt {limit level : Nat} (h : limit < level) :
    (checkLevel (some limit) level : Action σ Unit) = throw (.error (.tooComplex limit)) :=
  if_pos h

/-- A visit that tells the levels simulates a visit if its handler does at all levels within the
limit. -/
theorem simulates_visitAt {r : σ → τ → Prop} {handleAt : Nat → Handler σ} {handle : Handler τ}
    {limit : Option Nat}
    (h : ∀ level, (∀ l ∈ limit, level ≤ l) →
      ∀ call, Action.Simulates r (handleAt level call) (handle call))
    (level : Nat) (t : Tree) :
    Action.Simulates r (visitAt handleAt limit level t) (visit handle limit level t) := by
  induction t using Tree.induct generalizing level with
  | node tag text children ih =>
    rw [visitAt, visit_eq_steps]
    rcases within_or_beyond limit level with hlevel | ⟨l, rfl, hl⟩
    · rw [checkLevel_of_le hlevel, checkLevel_of_le hlevel]
      refine .bind (.pure ()) fun _ => ?_
      split
      · rename_i steps hsteps
        -- The steps are the same, but on one side each comes with a proof that it is one of them.
        have hsteps' : performAll handle limit (level + 1) (Tree.node tag text children).steps? =
            steps.attach.forM fun step => perform handle limit (level + 1) step.1 := by
          rw [hsteps, performAll]
          conv_lhs => rw [← List.attach_map_subtype_val steps]
          exact List.forM_map
        rw [hsteps']
        refine .forM fun step _ => ?_
        obtain ⟨step, hstep⟩ := step
        cases step with
        | visit c => exact ih c (Tree.mem_children_of_mem_steps? hsteps hstep) (level + 1)
        | call call => exact h level hlevel call
      · rename_i hsteps
        rw [hsteps]
        exact .throw _
    · rw [checkLevel_of_lt hl, checkLevel_of_lt hl]
      exact .throw _

/-- The calls that a visit of the root makes, each with the level of the node that it is about. -/
def placedCalls (limit : Option Nat) (root : Tree) : List (Nat × Call) :=
  ((visitAt (fun level call => modify (· ++ [(level, call)])) limit 1 root).runFrom []).2

/-- Without the levels these are the calls of the visit, and no level is beyond the limit. -/
theorem placedCalls_spec (limit : Option Nat) (root : Tree) :
    (placedCalls limit root).map Prod.snd = (visitScript limit 1 root).calls ∧
      ∀ placed ∈ placedCalls limit root, ∀ l ∈ limit, placed.1 ≤ l := by
  let related (placed : List (Nat × Call)) (calls : List Call) : Prop :=
    placed.map Prod.snd = calls ∧ ∀ p ∈ placed, ∀ l ∈ limit, p.1 ≤ l
  have hcalls : ∀ level, (∀ l ∈ limit, level ≤ l) → ∀ call,
      Action.Simulates related (modify (· ++ [(level, call)])) (logCall call) := by
    rintro level hlevel call placed calls ⟨rfl, hplaced⟩
    refine ⟨rfl, by simp [logCall], ?_⟩
    exact List.forall_mem_append.mpr ⟨hplaced, List.forall_mem_singleton.mpr hlevel⟩
  exact (simulates_visitAt hcalls 1 root [] [] ⟨rfl, fun p hp => nomatch hp⟩).2

end Walk

/-! ## Walks -/

/-- A replay on a handler that accepts every call ends as it is told to. -/
lemma replay_of_accepts {σ : Type} {handle : Handler σ}
    (h : ∀ call s, ((handle call).runFrom s).1 = .ok ()) (ending : Except Halt Unit)
    (calls : List Call) (s : σ) : (replay handle ending calls s).1 = ending := by
  induction calls generalizing s with
  | nil => rfl
  | cons call calls ih =>
    rw [replay]
    rcases hcall : (handle call).runFrom s with ⟨halt | _, s'⟩
    · have haccepts := h call s
      rw [hcall] at haccepts
      cases haccepts
    · exact ih s'

namespace Walk

variable {σ : Type} {handle : Handler σ} {t : Tree} {limit : Option Nat}

/-- A walk through a well-formed tree with a handler that accepts every call ends as looking at the
deepest level does that it goes down to. -/
lemma ending_walk_of_accepts (haccepts : ∀ call s, ((handle call).runFrom s).1 = .ok ())
    (ht : t.WellFormed) (limit : Option Nat) (s : σ) :
    ((walk handle limit (some t)).runFrom s).1 = (levelScript limit t.levels).ending := by
  rw [runFrom_walk_eq_replay, replay_of_accepts haccepts, ending_walkScript,
    ending_visitScript_of_wellFormed ht limit 0, Nat.zero_add]

/-- A walk that the visit of the root ends early is the replay of the start and of the calls of the
visit. -/
lemma walk_eq_replay_placedCalls {halt : Halt} (h : (visitScript limit 1 t).ending = .error halt)
    (s : σ) :
    (walk handle limit (some t)).runFrom s =
      replay handle (.error halt) (.start t :: (placedCalls limit t).map Prod.snd) s := by
  have hcalls : (walkScript limit (some t)).calls =
      .start t :: (placedCalls limit t).map Prod.snd := by
    rw [calls_walkScript, h, List.append_nil, (placedCalls_spec limit t).1]
  rw [runFrom_walk_eq_replay, ending_walkScript, h, hcalls]

/-- A placed call is about a node within the limit, and is neither the start nor the end. -/
lemma place_of_mem_placedCalls {placed : Nat × Call} (h : placed ∈ placedCalls limit t) :
    placed.2.hook ≠ .start ∧ placed.2.hook ≠ .stop ∧ ∀ l ∈ limit, placed.1 ≤ l := by
  obtain ⟨hcalls, hlevels⟩ := placedCalls_spec limit t
  have hcall : placed.2 ∈ (visitScript limit 1 t).calls := hcalls ▸ List.mem_map_of_mem h
  obtain ⟨hstart, hstop⟩ := hook_of_mem_calls_visitScript hcall
  exact ⟨hstart, hstop, hlevels placed h⟩

end Walk

/-- The limit of levels is exact.  A walk through a well-formed tree with a handler that accepts
every call ends well if and only if the levels that it goes down to are within the limit.  If they
are not, it ends with the error that names the limit; what the handler has been shown then is the
start and after it only calls about nodes whose level is within the limit, and not the end.  The
levels of a walk are at most those of the tree, so a limit that the depth of the tree does not
exceed refuses nothing, and without a limit nothing is refused. -/
theorem walk_ok_iff_levels_le {t : Tree} (ht : t.WellFormed) {σ : Type} {handle : Handler σ}
    (haccepts : ∀ call s, ((handle call).runFrom s).1 = .ok ()) (s : σ) :
    (∀ limit : Nat, let result := (walk handle (some limit) (some t)).runFrom s
      let placed := Walk.placedCalls (some limit) t
      (result.1 = .ok () ↔ t.levels ≤ limit) ∧
      (result.1 ≠ .ok () → result.1 = .error (.error (.tooComplex limit)) ∧
        result = replay handle result.1 (.start t :: placed.map Prod.snd) s ∧
        ∀ p ∈ placed, p.2.hook ≠ .start ∧ p.2.hook ≠ .stop ∧ p.1 ≤ limit) ∧
      (t.depth ≤ limit → result.1 = .ok ())) ∧
    t.levels ≤ t.depth ∧ ((walk handle none (some t)).runFrom s).1 = .ok () := by
  have hending := fun limit => Walk.ending_walk_of_accepts haccepts ht limit s
  refine ⟨fun limit => ?_, t.levels_le_depth, hending none⟩
  intro result placed
  have hwithin : t.levels ≤ limit → result.1 = .ok () := by
    intro hlevels
    refine (hending (some limit)).trans (Walk.ending_levelScript_of_le ?_)
    simpa using hlevels
  have hbeyond : ¬t.levels ≤ limit → result.1 = .error (.error (.tooComplex limit)) := by
    intro hlevels
    exact (hending (some limit)).trans (Walk.ending_levelScript_of_lt (Nat.lt_of_not_le hlevels))
  refine ⟨⟨fun hok => ?_, hwithin⟩, fun hfail => ?_, fun hdepth => ?_⟩
  · by_contra hlevels
    exact nomatch hok.symm.trans (hbeyond hlevels)
  · have herror := hbeyond (mt hwithin hfail)
    have hvisit : (Walk.visitScript (some limit) 1 t).ending =
        .error (.error (.tooComplex limit)) := by
      rw [Walk.ending_visitScript_of_wellFormed ht (some limit) 0, Nat.zero_add, ← hending]
      exact herror
    refine ⟨herror, ?_, fun p hp => ?_⟩
    · rw [herror]
      exact Walk.walk_eq_replay_placedCalls hvisit s
    · obtain ⟨hstart, hstop, hlevel⟩ := Walk.place_of_mem_placedCalls hp
      exact ⟨hstart, hstop, hlevel limit rfl⟩
  · exact hwithin (Nat.le_trans t.levels_le_depth hdepth)

/-- A negated conjunction of two predicates has four levels for a walk, and five with the item of
the list in it.  The walk that logs its calls is refused by a limit of three levels. -/
theorem walk_ok_iff_levels_le_of_negated_group :
    let t : Tree := .branch .negation [.branch (.connective .and)
      [.branch (.binary .greater) [.column "a", .literal .number "1"],
        .branch (.binary .anyInList) [.column "my tags", .list [.literal .string "'x'"]]]]
    t.WellFormed ∧ (∀ call s, ((logCall call).runFrom s).1 = .ok ()) ∧
      ((walk logCall (some 4) (some t)).runFrom []).1 = .ok () ∧
      ((walk logCall (some 3) (some t)).runFrom []).1 = .error (.error (.tooComplex 3)) ∧
      t.depth = 5 := by
  intro t
  have ht : t.WellFormed := by
    simp [t, Tree.wellFormed_node, Tree.branch, Tree.column, Tree.literal, Tree.leaf, Tree.list,
      Tag.Admits, Tag.arity?, Arity.Allows]
  have haccepts : ∀ call s, ((logCall call).runFrom s).1 = .ok () := fun _ _ => rfl
  obtain ⟨hlimits, -⟩ := walk_ok_iff_levels_le ht haccepts []
  have hlevels : t.levels = 4 := rfl
  have hthree : ((walk logCall (some 3) (some t)).runFrom []).1 ≠ .ok () := by
    refine mt (hlimits 3).1.mp ?_
    rw [hlevels]
    decide
  exact ⟨ht, haccepts, (hlimits 4).1.mpr (Nat.le_of_eq hlevels), ((hlimits 3).2.1 hthree).1, rfl⟩

end WhereClause
