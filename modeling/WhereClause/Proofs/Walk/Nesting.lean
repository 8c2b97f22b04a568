import WhereClause.Proofs.Walk.Replay

/-!
# The nesting of calls

The operators that group predicates are called in three phases, and the calls of a walk nest: a
group is opened, called for itself and closed, in this order, and in between only whole groups are
opened and closed.  `Nesting.step` follows the groups that are open on a stack.

A visit leaves the stack as it finds it, whatever is on it, if it ends well
(`Script.leads_visitScript`).  If it ends early, for whatever reason, the stack shows how far it has
come, and no hook has been out of place.  `trace_nested` says this of what is recorded of a walk,
together with the places of the start and the end.
-/

namespace WhereClause

/-! ## Open groups -/

/-- An operator that groups predicates. -/
inductive Grouping
  | negation
  | connective (op : Connective)
deriving DecidableEq, Repr

/-- The grouping operator that a hook belongs to, and the phase in which it is called. -/
def Hook.grouping? : Hook → Option (Grouping × Phase)
  | .negation phase => some (.negation, phase)
  | .connective op phase => some (.connective op, phase)
  | _ => none

/-- A group that has been opened and not closed yet. -/
structure OpenGroup where
  operator : Grouping
  /-- The operator has been called for itself. -/
  called : Bool
deriving DecidableEq, Repr

namespace Nesting

/-- The open groups after one more hook, the innermost one first, or `none` if the hook is out of
place: an operator is called for itself once, when its group is the innermost one, and the group is
closed after that, when it is the innermost one again. -/
def step (groups : List OpenGroup) (hook : Hook) : Option (List OpenGroup) :=
  match hook.grouping?, groups with
  | none, groups => some groups
  | some (op, .opening), groups => some (⟨op, false⟩ :: groups)
  | some (op, .middle), group :: groups =>
    if group = ⟨op, false⟩ then some (⟨op, true⟩ :: groups) else none
  | some (op, .closing), group :: groups => if group = ⟨op, true⟩ then some groups else none
  | some (_, .middle), [] | some (_, .closing), [] => none

variable {hook : Hook} {op : Grouping}

/-- A hook of an operator that groups nothing is never out of place. -/
lemma step_of_none (h : hook.grouping? = none) (groups : List OpenGroup) :
    step groups hook = some groups := by
  rw [step.eq_def, h]

/-- A group may be opened everywhere. -/
lemma step_opening (h : hook.grouping? = some (op, .opening)) (groups : List OpenGroup) :
    step groups hook = some (⟨op, false⟩ :: groups) := by
  rw [step.eq_def, h]

/-- The operator of the innermost group may be called if it has not been called yet. -/
lemma step_middle (h : hook.grouping? = some (op, .middle)) (groups : List OpenGroup) :
    step (⟨op, false⟩ :: groups) hook = some (⟨op, true⟩ :: groups) := by
  rw [step.eq_def, h]
  exact if_pos rfl

/-- The innermost group may be closed if its operator has been called. -/
lemma step_closing (h : hook.grouping? = some (op, .closing)) (groups : List OpenGroup) :
    step (⟨op, true⟩ :: groups) hook = some groups := by
  rw [step.eq_def, h]
  exact if_pos rfl

/-- If no hook of a text is out of place, none is in the part before. -/
lemma exists_foldlM_of_append {xs ys : List Hook} {before after : List OpenGroup}
    (h : (xs ++ ys).foldlM step before = some after) :
    ∃ groups, xs.foldlM step before = some groups := by
  rw [List.foldlM_append] at h
  obtain ⟨groups, hgroups, -⟩ := Option.bind_eq_some_iff.mp h
  exact ⟨groups, hgroups⟩

end Nesting

/-! ## Scripts -/

namespace Script

/-- No call of the script is out of place where the first groups are open, and if the script ends
well then the second ones are open after it. -/
def Leads (script : Script) (before after : List OpenGroup) : Prop :=
  ∃ groups, (script.calls.map Call.hook).foldlM Nesting.step before = some groups ∧
    (script.ending = .ok () → groups = after)

namespace Leads

variable {first second : Script} {before between after : List OpenGroup}

/-- A script without calls leaves the groups as they are. -/
lemma of_calls_eq_nil {script : Script} (h : script.calls = []) (groups : List OpenGroup) :
    Leads script groups groups :=
  ⟨groups, by rw [h]; rfl, fun _ => rfl⟩

/-- An early end leads anywhere. -/
lemma halt (reason : Halt) (before after : List OpenGroup) : Leads (.halt reason) before after :=
  ⟨before, rfl, fun h => nomatch h⟩

/-- A call leads where its hook does. -/
lemma call {c : Call} (h : Nesting.step before c.hook = some after) :
    Leads (.call c) before after := by
  refine ⟨after, ?_, fun _ => rfl⟩
  change (Nesting.step before c.hook).bind some = some after
  rw [h]
  rfl

/-- A sequence leads where its second part does. -/
lemma andThen (hfirst : Leads first before between) (hsecond : Leads second between after) :
    Leads (first.andThen second) before after := by
  obtain ⟨groups, hgroups, hend⟩ := hfirst
  rw [Leads, calls_andThen, ending_andThen]
  rcases hending : first.ending with halt | _
  · exact ⟨groups, hgroups, fun h => nomatch h⟩
  · obtain rfl := hend hending
    obtain ⟨groups', hgroups', hend'⟩ := hsecond
    refine ⟨groups', ?_, hend'⟩
    rw [List.map_append, List.foldlM_append, hgroups]
    exact hgroups'

variable {limit : Option Nat} {level : Nat} {step : Step} {steps : List Step}

/-- Having nothing more to do leaves the groups as they are. -/
lemma nil (groups : List OpenGroup) :
    Leads (Walk.stepsScript limit level (some [])) groups groups :=
  of_calls_eq_nil rfl groups

/-- Steps lead where the steps after the first one do. -/
lemma cons (hhead : Leads (Walk.stepScript limit level step) before between)
    (htail : Leads (Walk.stepsScript limit level (some steps)) between after) :
    Leads (Walk.stepsScript limit level (some (step :: steps))) before after :=
  hhead.andThen htail

end Leads

/-- A visit leaves the open groups as they are. -/
theorem leads_visitScript (limit : Option Nat) (level : Nat) (t : Tree)
    (groups : List OpenGroup) : Leads (Walk.visitScript limit level t) groups groups := by
  -- The operands are visited with more groups open, so the hypothesis has to be for any of them.
  induction t using Tree.induct generalizing level groups with
  | node tag text children ih =>
    rw [Walk.visitScript_eq_steps]
    refine (Leads.of_calls_eq_nil (Walk.calls_levelScript limit level) groups).andThen ?_
    have hvisit (c : Tree) (hc : c ∈ children) (groups : List OpenGroup) :
        Leads (Walk.stepScript limit (level + 1) (.visit c)) groups groups :=
      ih c hc (level + 1) groups
    have hcall (c : Call) (h : c.hook.grouping? = none) :
        Leads (Walk.stepScript limit (level + 1) (.call c)) groups groups :=
      .call (Nesting.step_of_none h groups)
    cases tag with
    | binary op =>
      match children, hvisit with
      | left :: right :: _, hvisit =>
        exact .cons (hvisit left (by simp) _) (.cons (hcall _ rfl)
          (.cons (hvisit right (by simp) _) (.nil _)))
      | [_], _ | [], _ => exact .halt _ _ _
    | connective op =>
      match children, hvisit with
      | left :: right :: _, hvisit =>
        exact .cons (.call (Nesting.step_opening rfl _)) (.cons (hvisit left (by simp) _)
          (.cons (.call (Nesting.step_middle rfl _)) (.cons (hvisit right (by simp) _)
            (.cons (.call (Nesting.step_closing rfl _)) (.nil _)))))
      | [_], _ | [], _ => exact .halt _ _ _
    | negation =>
      match children, hvisit with
      | operand :: _, hvisit =>
        exact .cons (.call (Nesting.step_opening rfl _)) (.cons (.call (Nesting.step_middle rfl _))
          (.cons (hvisit operand (by simp) _)
            (.cons (.call (Nesting.step_closing rfl _)) (.nil _))))
      | [], _ => exact .halt _ _ _
    | nullTest test =>
      match children, hvisit with
      | operand :: _, hvisit =>
        exact .cons (hcall _ rfl) (.cons (hvisit operand (by simp) _) (.nil _))
      | [], _ => exact .halt _ _ _
    | function op =>
      match children, hvisit with
      | [argument], hvisit =>
        exact .cons (hcall _ rfl) (.cons (hvisit argument (by simp) _) (.nil _))
      | column :: argument :: _, hvisit =>
        exact .cons (hvisit column (by simp) _) (.cons (hcall _ rfl)
          (.cons (hvisit argument (by simp) _) (.nil _)))
      | [], _ => exact .halt _ _ _
    | score => exact .cons (hcall _ rfl) (.nil _)
    | clause | literal kind | list | name kind => exact .nil _

/-- No call of a walk is out of place, and the walk leaves no group open if it ends well. -/
lemma leads_walkScript (limit : Option Nat) (root : Tree) :
    Leads (Walk.walkScript limit (some root)) [] [] := by
  rw [Walk.walkScript_some]
  have hvisit := leads_visitScript limit 1 root []
  exact .andThen (.call (Nesting.step_of_none rfl []))
    (hvisit.andThen (.call (Nesting.step_of_none rfl [])))

end Script

/-! ## Traces -/

/-- The hooks of a walk are the start, those of the visit of the root, which are neither the start
nor the end, and the end; if the walk ends early, the last ones of these are missing. -/
lemma Walk.exists_hooks_walkScript (limit : Option Nat) (root : Tree) :
    ∃ visited : List Hook, .start ∉ visited ∧ .stop ∉ visited ∧
      (walkScript limit (some root)).calls.map Call.hook <+: .start :: visited ++ [.stop] ∧
      ((walkScript limit (some root)).ending = .ok () →
        (walkScript limit (some root)).calls.map Call.hook = .start :: visited ++ [.stop]) := by
  have hhook (hook : Hook) (h : hook ∈ (visitScript limit 1 root).calls.map Call.hook) :
      hook ≠ .start ∧ hook ≠ .stop := by
    obtain ⟨call, hcall, rfl⟩ := List.mem_map.mp h
    exact hook_of_mem_calls_visitScript hcall
  refine ⟨(visitScript limit 1 root).calls.map Call.hook, fun h => (hhook _ h).1 rfl,
    fun h => (hhook _ h).2 rfl, ?_⟩
  rw [calls_walkScript, ending_walkScript]
  rcases (visitScript limit 1 root).ending with _ | _
  · exact ⟨by simp [Call.hook], fun h => nomatch h⟩
  · simp [Call.hook]

/-- A recorder records the calls of a replay from the first one on, and all of them if the replay
ends well. -/
lemma Trace.exists_take_of_replay_record (refused : Option Hook) (ending : Except Halt Unit)
    (calls : List Call) (earlier : Trace) :
    ∃ count, (replay (record refused) ending calls earlier).2 =
        earlier ++ ((calls.take (count + 1)).map Event.ofCall).toArray ∧
      ((replay (record refused) ending calls earlier).1 = .ok () →
        ending = .ok () ∧ calls.length ≤ count + 1) := by
  cases refused with
  | none =>
    rw [replay_record_none]
    refine ⟨calls.length, ?_, fun h => ⟨h, Nat.le_succ _⟩⟩
    rw [List.take_of_length_le (Nat.le_succ _)]
  | some hook =>
    rw [replay_record_some]
    refine ⟨calls.findIdx (·.hook = hook), rfl, fun h => ?_⟩
    by_cases hrefused : calls.any (·.hook = hook) = true
    · rw [if_pos hrefused] at h
      exact nomatch h
    · rw [if_neg hrefused] at h
      refine ⟨h, ?_⟩
      have hnone : calls.findIdx (·.hook = hook) = calls.length := by
        simpa [List.findIdx_eq_length] using hrefused
      omega

/-- The hooks that are recorded of a walk are those of its script from the first one on, and all of
them if the walk ends well. -/
lemma Trace.hooks_of_walk (limit : Option Nat) (root : Tree) (refused : Option Hook)
    (earlier : Trace) :
    let script := Walk.walkScript limit (some root)
    let result := (walk (record refused) limit (some root)).runFrom earlier
    let hooks := (result.2.toList.drop earlier.size).map Event.hook
    hooks ≠ [] ∧ hooks <+: script.calls.map Call.hook ∧
      (result.1 = .ok () → script.ending = .ok () ∧ hooks = script.calls.map Call.hook) := by
  intro script result hooks
  have hresult : result = replay (record refused) script.ending script.calls earlier :=
    Walk.runFrom_walk_eq_replay limit (some root) (record refused) earlier
  obtain ⟨count, hstate, hend⟩ :=
    exists_take_of_replay_record refused script.ending script.calls earlier
  rw [← hresult] at hstate hend
  have hhooks : hooks = (script.calls.map Call.hook).take (count + 1) := by
    have hevent : Event.hook ∘ Event.ofCall = Call.hook := rfl
    simp only [hooks, hstate, Array.toList_append, List.drop_left', Array.length_toList,
      List.map_take, List.map_map, hevent]
  have hcalls : script.calls.map Call.hook ≠ [] := by simp [script, Walk.calls_walkScript]
  refine ⟨?_, hhooks ▸ List.take_prefix _ _, fun hok => ?_⟩
  · rw [hhooks]
    exact fun h => hcalls ((List.take_eq_nil_iff.mp h).resolve_left (Nat.succ_ne_zero count))
  · obtain ⟨hending, hlength⟩ := hend hok
    exact ⟨hending, by rw [hhooks, List.take_of_length_le (by simpa using hlength)]⟩

/-- In a part of the hooks of a walk the start and the end have their places. -/
lemma Hook.places_of_isPrefix {hooks visited : List Hook} (hne : hooks ≠ [])
    (hpart : hooks <+: .start :: visited ++ [.stop]) (hstart : .start ∉ visited)
    (hstop : .stop ∉ visited) :
    hooks.head? = some .start ∧ .start ∉ hooks.tail ∧ .stop ∉ hooks.dropLast := by
  have hbefore : hooks.dropLast ⊆ start :: visited := by
    rcases List.prefix_concat_iff.mp hpart with rfl | hpart
    · rw [List.dropLast_concat]
      exact List.Subset.refl _
    · exact List.Subset.trans (List.dropLast_subset hooks) hpart.subset
  obtain ⟨rest, rfl, hrest⟩ : ∃ rest, hooks = start :: rest ∧ rest <+: visited ++ [stop] := by
    cases hooks with
    | nil => exact absurd rfl hne
    | cons hook rest =>
      obtain ⟨rfl, hrest⟩ := List.cons_prefix_cons.mp hpart
      exact ⟨rest, rfl, hrest⟩
  refine ⟨rfl, fun h => ?_, fun h => ?_⟩
  · simpa [hstart] using hrest.subset h
  · simpa [hstop] using hbefore h

/-- What is recorded of a walk, whether the recorder refuses a hook or none, and however the walk
ends: the start comes first and only there, the end comes last if it comes at all, and comes if the
walk ends well.  The hooks of the grouping operators nest, and after a walk that ends well all
groups are closed. -/
theorem trace_nested (limit : Option Nat) (root : Tree) (refused : Option Hook) (earlier : Trace) :
    let result := (walk (Trace.record refused) limit (some root)).runFrom earlier
    let hooks := (result.2.toList.drop earlier.size).map Event.hook
    hooks.head? = some .start ∧ .start ∉ hooks.tail ∧ .stop ∉ hooks.dropLast ∧
      (result.1 = .ok () → hooks.getLast? = some .stop) ∧
      ∃ groups, hooks.foldlM Nesting.step [] = some groups ∧ (result.1 = .ok () → groups = []) := by
  intro result hooks
  obtain ⟨hne, hpart, hok⟩ := Trace.hooks_of_walk limit root refused earlier
  obtain ⟨visited, hstart, hstop, hwalk, hwhole⟩ := Walk.exists_hooks_walkScript limit root
  obtain ⟨hfirst, honce, hlast⟩ := Hook.places_of_isPrefix hne (hpart.trans hwalk) hstart hstop
  refine ⟨hfirst, honce, hlast, fun hresult => ?_, ?_⟩
  · obtain ⟨hending, hall⟩ := hok hresult
    have hhooks : hooks = .start :: visited ++ [.stop] := hall.trans (hwhole hending)
    rw [hhooks, List.getLast?_concat]
  · obtain ⟨groups, hgroups, hclosed⟩ := Script.leads_walkScript limit root
    obtain ⟨rest, hrest⟩ := hpart
    have hnested : (hooks ++ rest).foldlM Nesting.step [] = some groups := hrest ▸ hgroups
    obtain ⟨reached, hreached⟩ := Nesting.exists_foldlM_of_append hnested
    refine ⟨reached, hreached, fun hresult => ?_⟩
    obtain ⟨hending, hall⟩ := hok hresult
    have hsame : hooks.foldlM Nesting.step [] = some groups :=
      (congrArg (List.foldlM Nesting.step []) hall).trans hgroups
    obtain rfl := Option.some.inj (hreached.symm.trans hsame)
    exact hclosed hending

/-- A negation of a conjunction, one operand of which has a negation in the place of a value. -/
theorem trace_nested_of_inner_negation :
    let test : Tree := .branch (.nullTest .isNull) [.column "a"]
    let root : Tree := .branch .negation [.branch (.connective .and)
      [test, .branch (.binary .equal) [.column "b", .branch .negation [test]]]]
    let result := (walk (Trace.record none) none (some root)).runFrom #[]
    let hooks := (result.2.toList.drop (#[] : Trace).size).map Event.hook
    result.1 = .ok () ∧ hooks.getLast? = some .stop ∧ hooks.foldlM Nesting.step [] = some [] := by
  intro test root result hooks
  have hok : result.1 = .ok () := rfl
  obtain ⟨-, -, -, hlast, groups, hgroups, hclosed⟩ := trace_nested none root none #[]
  obtain rfl := hclosed hok
  exact ⟨hok, hlast hok, hgroups⟩

end WhereClause
