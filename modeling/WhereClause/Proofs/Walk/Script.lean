import WhereClause.Proofs.Walk.Steps
import WhereClause.Trace

/-!
# The script of a walk

A walk shows the same calls to every handler: they depend on the tree and on the limit alone, and a
handler can only cut them short.  The `Script` of a walk is what a handler that accepts and logs
everything is shown, together with the way the walk then ends.

`Walk.walk_eq_play` says that a walk with any handler plays the script of the walk on that handler.
`Walk.visitScript_eq_steps` is the recursive equation of scripts, from which facts about all calls
of a walk are proved.
-/

namespace WhereClause

/-! ## Replays -/

/-- Shows calls to a handler in order.  The first call that it does not accept is the last one that
it is shown, and decides how the replay ends; otherwise the replay ends as given. -/
def replay {σ : Type} (handle : Handler σ) (ending : Except Halt Unit) :
    List Call → σ → Except Halt Unit × σ
  | [], s => (ending, s)
  | call :: calls, s =>
    match (handle call).runFrom s with
    | (.ok _, s') => replay handle ending calls s'
    | (.error halt, s') => (.error halt, s')

/-- The handler that accepts every call and writes it down. -/
def logCall : Handler (List Call) := fun call =>
  modify fun calls => calls ++ [call]

/-- The calls that are made to a handler as long as it accepts them, and how that ends. -/
structure Script where
  calls : List Call
  ending : Except Halt Unit

namespace Script

variable {σ : Type}

/-- What the logging handler is shown by an action, and how the action ends. -/
def ofAction (action : Action (List Call) Unit) : Script where
  calls := (action.runFrom []).2
  ending := (action.runFrom []).1

/-- The action that makes the calls of the script and ends as the script does. -/
def play (script : Script) (handle : Handler σ) : Action σ Unit :=
  fun s => replay handle script.ending script.calls s

@[simp] lemma runFrom_play (script : Script) (handle : Handler σ) (s : σ) :
    (script.play handle).runFrom s = replay handle script.ending script.calls s := rfl

/-- Nothing is called. -/
def done : Script :=
  ⟨[], .ok ()⟩

/-- A single call. -/
def call (call : Call) : Script :=
  ⟨[call], .ok ()⟩

/-- An early end. -/
def halt (halt : Halt) : Script :=
  ⟨[], .error halt⟩

/-- One script after the other, unless the first one ends early. -/
def andThen (first second : Script) : Script :=
  match first.ending with
  | .ok _ => ⟨first.calls ++ second.calls, second.ending⟩
  | .error halt => ⟨first.calls, .error halt⟩

/-! ### Parts of a sequence -/

/-- A sequence ends with its second part, unless the first one ends early. -/
lemma ending_andThen (first second : Script) :
    (first.andThen second).ending = (do first.ending; second.ending) := by
  obtain ⟨calls, _ | _⟩ := first <;> rfl

/-- The calls of a sequence are those of its first part and, unless that ends early, of its second
part. -/
lemma calls_andThen (first second : Script) :
    (first.andThen second).calls =
      match first.ending with
      | .ok _ => first.calls ++ second.calls
      | .error _ => first.calls := by
  obtain ⟨calls, _ | _⟩ := first <;> rfl

/-- What holds of the calls of both parts holds of the calls of their sequence. -/
lemma forall_mem_calls_andThen {p : Call → Prop} {first second : Script}
    (hfirst : ∀ call ∈ first.calls, p call) (hsecond : ∀ call ∈ second.calls, p call) :
    ∀ call ∈ (first.andThen second).calls, p call := by
  rw [calls_andThen]
  split
  · exact List.forall_mem_append.mpr ⟨hfirst, hsecond⟩
  · exact hfirst

/-! ### Playing -/

/-- The logging handler accepts everything that a replay shows it. -/
lemma replay_logCall (ending : Except Halt Unit) (calls logged : List Call) :
    replay logCall ending calls logged = (ending, logged ++ calls) := by
  induction calls generalizing logged with
  | nil => simp [replay]
  | cons call calls ih =>
    have hlog : (logCall call).runFrom logged = (.ok (), logged ++ [call]) := rfl
    rw [replay, hlog]
    simpa using ih (logged ++ [call])

/-- A script is what the logging handler is shown by it. -/
lemma ofAction_play (script : Script) : ofAction (script.play logCall) = script := by
  simp [ofAction, replay_logCall]

/-- An action that plays a script with every handler has that script. -/
lemma ofAction_eq_of_play {action : {σ : Type} → Handler σ → Action σ Unit} {script : Script}
    (h : ∀ {σ : Type} (handle : Handler σ), action handle = script.play handle) :
    ofAction (action logCall) = script := by
  rw [h, ofAction_play]

@[simp] lemma play_call (c : Call) (handle : Handler σ) : (call c).play handle = handle c := by
  apply Action.ext_runFrom
  intro s
  rw [runFrom_play, call, replay]
  rcases h : (handle c).runFrom s with ⟨_ | _, s'⟩ <;> rfl

/-- A replay of two lists of calls goes on with the second one where the first one was accepted. -/
lemma replay_append (handle : Handler σ) (ending : Except Halt Unit) (xs ys : List Call) (s : σ) :
    replay handle ending (xs ++ ys) s =
      match replay handle (.ok ()) xs s with
      | (.ok _, s') => replay handle ending ys s'
      | (.error halt, s') => (.error halt, s') := by
  induction xs generalizing s with
  | nil => rfl
  | cons x xs ih =>
    rw [List.cons_append, replay, replay]
    rcases (handle x).runFrom s with ⟨_ | _, s'⟩
    · rfl
    · exact ih s'

/-- A replay that is told to end early ends early. -/
lemma replay_error (handle : Handler σ) (reason : Halt) (calls : List Call) (s : σ) :
    replay handle (.error reason) calls s =
      match replay handle (.ok ()) calls s with
      | (.ok _, s') => (.error reason, s')
      | (.error halt, s') => (.error halt, s') := by
  have h := replay_append handle (.error reason) calls [] s
  rwa [List.append_nil] at h

/-- Playing two scripts one after the other is playing their sequence. -/
@[simp] lemma play_andThen (first second : Script) (handle : Handler σ) :
    (first.andThen second).play handle = (do first.play handle; second.play handle) := by
  apply Action.ext_runFrom
  intro s
  obtain ⟨calls, _ | _⟩ := first
  · rw [Action.runFrom_bind, runFrom_play, runFrom_play, andThen, replay_error]
    rcases replay handle (.ok ()) calls s with ⟨_ | _, s'⟩ <;> rfl
  · rw [Action.runFrom_bind, runFrom_play, runFrom_play, andThen, replay_append]
    rcases replay handle (.ok ()) calls s with ⟨_ | _, s'⟩ <;> rfl

end Script

/-! ## Scripts of walks -/

namespace Walk

variable {σ : Type}

/-- The script of a visit of the tree that hangs at the given level. -/
def visitScript (limit : Option Nat) (level : Nat) (t : Tree) : Script :=
  Script.ofAction (visit logCall limit level t)

/-- The script of looking at a level. -/
def levelScript (limit : Option Nat) (level : Nat) : Script :=
  match limit with
  | none => .done
  | some limit => if limit < level then .halt (.error (.tooComplex limit)) else .done

/-- The script of a step that goes down to children at the given level. -/
def stepScript (limit : Option Nat) (level : Nat) : Step → Script
  | .visit child => visitScript limit level child
  | .call call => .call call

/-- The script of all the steps of a node. -/
def stepsScript (limit : Option Nat) (level : Nat) : Option (List Step) → Script
  | some steps => steps.foldr (fun step rest => (stepScript limit level step).andThen rest) .done
  | none => .halt (.defect .missingChild)

/-- Looking at a level makes no calls. -/
lemma calls_levelScript (limit : Option Nat) (level : Nat) :
    (levelScript limit level).calls = [] := by
  cases limit with
  | none => rfl
  | some limit =>
    rw [levelScript]
    split <;> rfl

lemma checkLevel_eq_play (limit : Option Nat) (level : Nat) (handle : Handler σ) :
    checkLevel limit level = (levelScript limit level).play handle := by
  cases limit with
  | none => rfl
  | some limit =>
    rw [checkLevel, levelScript]
    split <;> rfl

/-- Steps play their scripts if the visits among them do. -/
lemma performAll_eq_play {limit : Option Nat} {level : Nat} {steps? : Option (List Step)}
    (h : ∀ steps ∈ steps?, ∀ c, Step.visit c ∈ steps → ∀ {σ : Type} (handle : Handler σ),
      visit handle limit level c = (visitScript limit level c).play handle) (handle : Handler σ) :
    performAll handle limit level steps? = (stepsScript limit level steps?).play handle := by
  cases steps? with
  | none => rfl
  | some steps =>
    replace h := h steps rfl
    rw [performAll, stepsScript]
    induction steps with
    | nil => rfl
    | cons step steps ih =>
      have hstep : perform handle limit level step = (stepScript limit level step).play handle := by
        cases step with
        | visit c => exact h c List.mem_cons_self handle
        | call c => exact (Script.play_call c handle).symm
      rw [List.forM, List.foldr_cons, Script.play_andThen, hstep,
        ih fun c hc => h c (List.mem_cons_of_mem _ hc)]

/-- A visit plays the script of its steps if the visits of the children play theirs. -/
lemma visit_eq_play_steps {limit : Option Nat} {level : Nat} {t : Tree}
    (h : ∀ c ∈ t.children, ∀ {σ : Type} (handle : Handler σ),
      visit handle limit (level + 1) c = (visitScript limit (level + 1) c).play handle)
    (handle : Handler σ) :
    visit handle limit level t =
      ((levelScript limit level).andThen (stepsScript limit (level + 1) t.steps?)).play handle := by
  rw [visit_eq_steps, Script.play_andThen, checkLevel_eq_play limit level handle,
    performAll_eq_play fun steps hsteps c hc => h c (Tree.mem_children_of_mem_steps? hsteps hc)]

/-- A visit with any handler plays the script of the visit. -/
theorem visit_eq_play (limit : Option Nat) (level : Nat) (t : Tree) (handle : Handler σ) :
    visit handle limit level t = (visitScript limit level t).play handle := by
  induction t using Tree.induct generalizing level σ with
  | node tag text children ih =>
    have hplay : ∀ {σ : Type} (handle : Handler σ),
        visit handle limit level (.node tag text children) =
          ((levelScript limit level).andThen
            (stepsScript limit (level + 1) (Tree.node tag text children).steps?)).play handle := by
      intro σ handle
      refine visit_eq_play_steps ?_ handle
      exact fun c hc {_} handle => ih c hc (level + 1) handle
    rw [visitScript, Script.ofAction_eq_of_play hplay, hplay]

/-- The script of a visit looks at the level and then takes the steps of the node, one level further
down. -/
theorem visitScript_eq_steps (limit : Option Nat) (level : Nat) (t : Tree) :
    visitScript limit level t =
      (levelScript limit level).andThen (stepsScript limit (level + 1) t.steps?) :=
  Script.ofAction_eq_of_play fun handle =>
    visit_eq_play_steps (fun c _ {_} handle => visit_eq_play limit (level + 1) c handle) handle

/-- What holds of all calls among the steps of nodes holds of all calls of a visit. -/
theorem forall_mem_calls_visitScript {p : Call → Prop}
    (h : ∀ t steps call, Tree.steps? t = some steps → Step.call call ∈ steps → p call)
    (limit : Option Nat) (level : Nat) (t : Tree) :
    ∀ call ∈ (visitScript limit level t).calls, p call := by
  induction t using Tree.induct generalizing level with
  | node tag text children ih =>
    rw [visitScript_eq_steps]
    apply Script.forall_mem_calls_andThen
    · rw [calls_levelScript]
      exact fun call hcall => nomatch hcall
    rcases hsteps : (Tree.node tag text children).steps? with _ | steps
    · exact fun call hcall => nomatch hcall
    have hall : ∀ step ∈ steps, ∀ call ∈ (stepScript limit (level + 1) step).calls, p call := by
      intro step hstep
      cases step with
      | visit c => exact ih c (Tree.mem_children_of_mem_steps? hsteps hstep) (level + 1)
      | call call => exact List.forall_mem_singleton.mpr (h _ steps call hsteps hstep)
    clear hsteps
    rw [stepsScript]
    induction steps with
    | nil => exact fun call hcall => nomatch hcall
    | cons step steps ihsteps =>
      obtain ⟨hhead, htail⟩ := List.forall_mem_cons.mp hall
      exact Script.forall_mem_calls_andThen hhead (ihsteps htail)

/-- A visit makes no call for the start or the end of a walk. -/
lemma hook_of_mem_calls_visitScript {limit : Option Nat} {level : Nat} {t : Tree} {call : Call}
    (h : call ∈ (visitScript limit level t).calls) : call.hook ≠ .start ∧ call.hook ≠ .stop := by
  refine forall_mem_calls_visitScript (p := fun call => call.hook ≠ .start ∧ call.hook ≠ .stop)
    ?_ limit level t call h
  intro t steps call hsteps hcall
  unfold Tree.steps? at hsteps
  split at hsteps <;> simp_all [Call.hook] <;> grind [Call.hook]

/-- The script of a walk. -/
def walkScript (limit : Option Nat) (root : Option Tree) : Script :=
  Script.ofAction (walk logCall limit root)

lemma walk_some_eq_play_steps (limit : Option Nat) (root : Tree) (handle : Handler σ) :
    walk handle limit (some root) =
      ((Script.call (.start root)).andThen
        ((visitScript limit 1 root).andThen (.call .stop))).play handle := by
  simp [walk, visit_eq_play]

/-- The script of a walk through a clause brackets the visit of its root. -/
lemma walkScript_some (limit : Option Nat) (root : Tree) :
    walkScript limit (some root) =
      (Script.call (.start root)).andThen ((visitScript limit 1 root).andThen (.call .stop)) :=
  Script.ofAction_eq_of_play fun handle => walk_some_eq_play_steps limit root handle

/-- A walk ends as the visit of its root does. -/
lemma ending_walkScript (limit : Option Nat) (root : Tree) :
    (walkScript limit (some root)).ending = (visitScript limit 1 root).ending := by
  rw [walkScript_some, Script.ending_andThen, Script.ending_andThen]
  rcases (visitScript limit 1 root).ending with _ | _ <;> rfl

/-- The calls of a walk are those of the visit of its root, with the start in front, and with the
end behind if the visit ends well. -/
lemma calls_walkScript (limit : Option Nat) (root : Tree) :
    (walkScript limit (some root)).calls =
      .start root :: ((visitScript limit 1 root).calls ++
        match (visitScript limit 1 root).ending with
        | .ok _ => [.stop]
        | .error _ => []) := by
  rw [walkScript_some]
  rcases hvisit : visitScript limit 1 root with ⟨calls, _ | _⟩
  · simp [Script.andThen, Script.call]
  · simp [Script.andThen, Script.call]

/-- A walk with any handler plays the script of the walk. -/
theorem walk_eq_play (limit : Option Nat) (root : Option Tree) (handle : Handler σ) :
    walk handle limit root = (walkScript limit root).play handle := by
  cases root with
  | none => rfl
  | some root => rw [walkScript_some, walk_some_eq_play_steps]

/-- Running a walk with any handler is the replay of its script. -/
lemma runFrom_walk_eq_replay (limit : Option Nat) (root : Option Tree) (handle : Handler σ)
    (s : σ) :
    (walk handle limit root).runFrom s =
      replay handle (walkScript limit root).ending (walkScript limit root).calls s := by
  rw [walk_eq_play, Script.runFrom_play]

end Walk

end WhereClause
