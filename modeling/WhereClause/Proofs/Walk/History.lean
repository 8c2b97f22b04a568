import WhereClause.Proofs.Walk.Replay
import WhereClause.Rendering

/-!
# Handlers with a history

A handler may have been used before: for other walks, whole ones and ones that ended early, and for
calls that no walk made.  `stateAfter` is the state that such a history leaves behind, and
`perform_after_history` says what remains of it: a recorder goes on behind what it has recorded, and
the text of a clause starts anew with every walk.

Both rest on simulations.  A walk with a handler simulates the same walk with another one if the
handlers simulate each other call by call (`Walk.simulates_walk`), and the relation here is that one
state continues the other (`Continues`).
-/

namespace WhereClause

/-! ## Walks that simulate each other -/

section Simulations

variable {σ τ : Type} {r : σ → τ → Prop} {handle : Handler σ} {handle' : Handler τ}

/-- Playing a script on one handler simulates playing it on another one if the handlers simulate
each other on its calls. -/
lemma Script.simulates_play {script : Script}
    (h : ∀ call ∈ script.calls, Action.Simulates r (handle call) (handle' call)) :
    Action.Simulates r (script.play handle) (script.play handle') := by
  obtain ⟨calls, ending⟩ := script
  intro s u hsu
  rw [runFrom_play, runFrom_play]
  induction calls generalizing s u with
  | nil => exact ⟨rfl, hsu⟩
  | cons call calls ih =>
    obtain ⟨hhead, htail⟩ := List.forall_mem_cons.mp h
    obtain ⟨hend, hstate⟩ := hhead s u hsu
    rw [replay, replay]
    rcases hs : (handle call).runFrom s with ⟨_ | _, s'⟩
    all_goals
      rcases hu : (handle' call).runFrom u with ⟨_ | _, u'⟩
      all_goals rw [hs, hu] at hend hstate
    · exact ⟨congrArg _ (Except.error.inj hend), hstate⟩
    · cases hend
    · cases hend
    · exact ih htail s' u' hstate

/-- A walk with one handler simulates the walk with another one if the handlers simulate each other
on every call. -/
theorem Walk.simulates_walk (h : ∀ call, Action.Simulates r (handle call) (handle' call))
    (limit : Option Nat) (root : Option Tree) :
    Action.Simulates r (walk handle limit root) (walk handle' limit root) := by
  rw [walk_eq_play, walk_eq_play]
  exact Script.simulates_play fun call _ => h call

end Simulations

/-! ## States that continue others -/

/-- The first state is the second one behind what was there earlier. -/
def Continues {σ : Type} [Append σ] (earlier s u : σ) : Prop :=
  s = earlier ++ u

/-- A recorder does not look at what it has recorded earlier. -/
lemma Trace.simulates_record (refused : Option Hook) (earlier : Trace) (call : Call) :
    Action.Simulates (Continues earlier) (record refused call) (record refused call) := by
  have hpush : Action.Simulates (Continues earlier)
      (modify fun trace => trace.push (Event.ofCall call))
      (modify fun trace => trace.push (Event.ofCall call)) := by
    rintro _ trace rfl
    exact ⟨rfl, Array.append_push.symm⟩
  refine hpush.bind fun _ => ?_
  split
  · exact .throw _
  · exact .pure _

namespace Rendering

/-- A text is written behind whatever is there. -/
lemma simulates_write (earlier text : String) :
    Action.Simulates (Continues earlier) (write text) (write text) := by
  rintro _ written rfl
  exact ⟨rfl, String.append_assoc⟩

/-- A text that may be missing is written, if it is there, behind whatever is there. -/
lemma simulates_writeOrHalt (earlier : String) (text : Except Halt String) :
    Action.Simulates (Continues earlier) (writeOrHalt text) (writeOrHalt text) := by
  cases text with
  | error halt => exact .throw halt
  | ok text => exact simulates_write earlier text

/-- What is written for a call does not depend on what was written earlier, unless the call is the
start of a walk. -/
lemma simulates_render (earlier : String) {call : Call} (h : call.hook ≠ .start) :
    Action.Simulates (Continues earlier) (render call) (render call) := by
  cases call with
  | start root => exact absurd rfl h
  | stop => exact .pure ()
  | binary op node left right =>
    exact (simulates_write earlier _).bind fun _ => simulates_writeOrHalt earlier _
  | connective op phase node left right => cases phase <;> exact simulates_write earlier _
  | negation phase node operand =>
    cases phase with
    | opening => exact .pure ()
    | middle | closing => exact simulates_write earlier _
  | nullTest test node operand => exact simulates_writeOrHalt earlier _
  | function op node column argument => exact simulates_writeOrHalt earlier _
  | score node => exact simulates_write earlier _

/-- A walk through a clause clears away what was written before it. -/
lemma runFrom_walk_some (limit : Option Nat) (root : Tree) (written : String) :
    (walk render limit (some root)).runFrom written =
      (do Walk.visit render limit 1 root; render .stop : Action String Unit).runFrom "" :=
  Action.runFrom_bind_of_ok rfl

end Rendering

/-! ## Histories -/

/-- Something that a handler is used for. -/
inductive Use
  | walk (limit : Option Nat) (root : Option Tree)
  /-- A call that no walk makes. -/
  | direct (call : Call)

/-- Uses a handler. -/
def Use.perform {σ : Type} (handle : Handler σ) : Use → Action σ Unit
  | walk limit root => WhereClause.walk handle limit root
  | direct call => handle call

/-- The state of a handler after a history, however each use in it ended. -/
def stateAfter {σ : Type} (handle : Handler σ) (s : σ) (history : List Use) : σ :=
  history.foldl (fun s use => ((use.perform handle).runFrom s).2) s

/-- The text after a history. -/
def Rendering.textAfter (history : List Use) : String :=
  stateAfter render "" history

/-- The trace of a recorder, which may refuse a hook, after a history. -/
def Trace.traceAfter (refused : Option Hook) (history : List Use) : Trace :=
  stateAfter (record refused) #[] history

/-- Using a recorder adds to its trace what it adds to an empty one. -/
lemma Trace.runFrom_perform (refused : Option Hook) (use : Use) (earlier : Trace) :
    let alone := (use.perform (record refused)).runFrom #[]
    (use.perform (record refused)).runFrom earlier = (alone.1, earlier ++ alone.2) := by
  have huse : Action.Simulates (Continues earlier) (use.perform (record refused))
      (use.perform (record refused)) := by
    cases use with
    | walk limit root => exact Walk.simulates_walk (simulates_record refused earlier) limit root
    | direct call => exact simulates_record refused earlier call
  obtain ⟨hend, hstate⟩ := huse earlier #[] Array.append_empty.symm
  exact Prod.ext hend hstate

/-- A call adds to a text what it adds to an empty one, but the start of a walk empties it first. -/
lemma Rendering.runFrom_render (call : Call) (written : String) :
    let alone := (render call).runFrom ""
    (render call).runFrom written =
      (alone.1, (if call.hook = .start then "" else written) ++ alone.2) := by
  intro alone
  by_cases hstart : call.hook = .start
  · cases call with
    | start root => rfl
    | _ => exact nomatch hstart
  · rw [if_neg hstart]
    obtain ⟨hend, hstate⟩ := simulates_render written hstart written "" String.append_empty.symm
    exact Prod.ext hend hstate

/-- No use of a handler leaks into the next one.  After any history of walks, however they ended,
and of direct calls:

* a walk through a clause leaves the text, and ends, as it does on a handler that has written
  nothing, and a walk through an absent clause leaves the text alone; a direct call adds to the text
  what it writes without it, and only the start of a walk clears it;
* a walk and a direct call leave the trace of a recorder as it was and add to its end what a new
  recorder that refuses the same hook records, and they end as they do there. -/
theorem perform_after_history (history : List Use) :
    (∀ limit root, (walk Rendering.render limit (some root)).runFrom (Rendering.textAfter history) =
      (walk Rendering.render limit (some root)).runFrom "") ∧
    (∀ limit, (walk Rendering.render limit none).runFrom (Rendering.textAfter history) =
      (.ok (), Rendering.textAfter history)) ∧
    (∀ call, let alone := (Rendering.render call).runFrom ""
      (Rendering.render call).runFrom (Rendering.textAfter history) =
        (alone.1, (if call.hook = .start then "" else Rendering.textAfter history) ++ alone.2)) ∧
    ∀ (refused : Option Hook) (use : Use),
      let alone := (use.perform (Trace.record refused)).runFrom #[]
      (use.perform (Trace.record refused)).runFrom (Trace.traceAfter refused history) =
        (alone.1, Trace.traceAfter refused history ++ alone.2) := by
  refine ⟨fun limit root => ?_, fun _ => rfl, fun call => Rendering.runFrom_render call _,
    fun refused use => Trace.runFrom_perform refused use _⟩
  rw [Rendering.runFrom_walk_some, Rendering.runFrom_walk_some]

/-- A walk that is refused in the middle of a predicate leaves the beginning of a text behind, and
the next walk does not go on with it. -/
example :
    let refused : Use := .walk none (some (.branch .negation
      [.branch (.binary .anyInList) [.column "a", .branch .score []]]))
    Rendering.textAfter [refused] = "NOT (ANY " ∧
      Rendering.textAfter [refused, .walk none (some (.branch .score []))] = "SCORE()" := by
  decide +kernel

end WhereClause
