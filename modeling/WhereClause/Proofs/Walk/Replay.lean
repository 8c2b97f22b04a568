import WhereClause.Proofs.Walk.Script

/-!
# Walks as replays

`walk_eq_replay` says what a handler has to do with the course of a walk: nothing, up to the first
call that it does not accept.  For a recorder that refuses a hook this gives its trace from the
trace of a recorder that refuses nothing (`Trace.replay_record_some`).
-/

namespace WhereClause

namespace Trace

/-- A recorder that refuses nothing records all calls of a replay. -/
lemma replay_record_none (ending : Except Halt Unit) (calls : List Call) (trace : Trace) :
    replay (record none) ending calls trace =
      (ending, trace ++ (calls.map Event.ofCall).toArray) := by
  induction calls generalizing trace with
  | nil => simp [replay]
  | cons call calls ih =>
    have hrecord : (record none call).runFrom trace =
        (.ok (), trace.push (Event.ofCall call)) := rfl
    rw [replay, hrecord]
    simp [ih]

/-- A recorder that refuses a hook records the calls of a replay up to the first one with this hook,
and ends the replay there. -/
lemma replay_record_some (hook : Hook) (ending : Except Halt Unit) (calls : List Call)
    (trace : Trace) :
    replay (record (some hook)) ending calls trace =
      (if calls.any (·.hook = hook) then .error (.error (.rejected (.hook hook))) else ending,
        trace ++
          ((calls.take (calls.findIdx (·.hook = hook) + 1)).map Event.ofCall).toArray) := by
  induction calls generalizing trace with
  | nil => simp [replay]
  | cons call calls ih =>
    by_cases hhook : call.hook = hook
    · have hrecord : (record (some hook) call).runFrom trace =
          (.error (.error (.rejected (.hook hook))), trace.push (Event.ofCall call)) := by
        subst hhook
        rw [record, Action.runFrom_bind]
        simp
      rw [replay, hrecord]
      simp [hhook, List.findIdx_cons]
    · have hrecord : (record (some hook) call).runFrom trace =
          (.ok (), trace.push (Event.ofCall call)) := by
        rw [record, Action.runFrom_bind]
        simp [Ne.symm hhook]
      rw [replay, hrecord]
      simp [ih, hhook, List.findIdx_cons]

end Trace

/-- The calls of a walk do not depend on its handler.  A walk with any handler, from any state, is
the replay of the script on it: it shows the handler the calls that the logging handler gets, in
order, it ends with the first call that the handler does not accept and for the reason that the
handler gives, and it ends as the logging walk does if there is no such call.  In particular a
recorder that refuses a hook records what a recorder that refuses nothing does, up to and including
the first call with this hook. -/
theorem walk_eq_replay (limit : Option Nat) (root : Option Tree) :
    (∀ {σ : Type} (handle : Handler σ) (s : σ),
      (walk handle limit root).runFrom s =
        replay handle (Walk.walkScript limit root).ending (Walk.walkScript limit root).calls s) ∧
    ∀ hook : Hook,
      let accepting := (walk (Trace.record none) limit root).runFrom #[]
      let refusing := (walk (Trace.record (some hook)) limit root).runFrom #[]
      refusing.2.toList =
          accepting.2.toList.take (accepting.2.toList.findIdx (·.hook = hook) + 1) ∧
        refusing.1 =
          if accepting.2.toList.any (·.hook = hook) then
            .error (.error (.rejected (.hook hook)))
          else accepting.1 := by
  have hreplay {σ : Type} (handle : Handler σ) (s : σ) :
      (walk handle limit root).runFrom s =
        replay handle (Walk.walkScript limit root).ending (Walk.walkScript limit root).calls s := by
    rw [Walk.walk_eq_play, Script.runFrom_play]
  refine ⟨fun handle s => hreplay handle s, fun hook => ?_⟩
  have hhook (call : Call) : (Event.ofCall call).hook = call.hook := rfl
  rw [hreplay, hreplay, Trace.replay_record_none, Trace.replay_record_some]
  simp [List.map_take, List.findIdx_map, List.any_map, Function.comp_def, hhook]

end WhereClause
