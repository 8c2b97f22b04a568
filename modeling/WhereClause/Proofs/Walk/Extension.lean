import WhereClause.Proofs.Walk.History
import WhereClause.Proofs.Walk.Levels

/-!
# Walks with a greater limit

A walk that is refused by its limit has made the first calls of every walk with a greater limit, and
no others; a walk that is not refused by its limit is the same with every greater limit.  In terms
of scripts: the script of a walk is the script with the greater limit, or the beginning of it, cut
short by the limit (`Script.CutShort`).  This goes through all steps of a visit, whatever the tree
(`Script.cutShort_visitScript`).

A handler that never takes back what it has, like a recorder and the writer of clause text, shows
this in its state (`Walk.prefix_or_eq_of_le`).
-/

namespace WhereClause

/-! ## Scripts cut short -/

namespace Script

/-- The first script is the second one, or it is the beginning of the second one up to a place where
it is refused by the limit. -/
def CutShort (limit : Nat) (low high : Script) : Prop :=
  low = high ∨ low.ending = .error (.error (.tooComplex limit)) ∧ low.calls <+: high.calls

namespace CutShort

variable {limit : Nat} {low high low' high' : Script}

/-- A script is cut short nowhere by itself. -/
lemma refl (limit : Nat) (script : Script) : CutShort limit script script :=
  .inl rfl

/-- The first part of a sequence makes the first calls of it. -/
lemma calls_isPrefix_andThen (first second : Script) :
    first.calls <+: (first.andThen second).calls := by
  rw [calls_andThen]
  split
  · exact List.prefix_append _ _
  · exact List.prefix_rfl

/-- A sequence is cut short in its first part, in its second part, or nowhere. -/
lemma andThen (hfirst : CutShort limit low high) (hsecond : CutShort limit low' high') :
    CutShort limit (low.andThen low') (high.andThen high') := by
  -- If the first part is not cut short, then the second part is reached only where it ends well.
  rcases hfirst with rfl | ⟨hending, hcalls⟩
  · rcases hsecond with rfl | ⟨hending', hcalls'⟩
    · exact .refl limit _
    · rcases hlow : low.ending with halt | _
      · refine .inl ?_
        rw [Script.andThen, Script.andThen, hlow]
      · refine .inr ⟨?_, ?_⟩
        · rw [ending_andThen, hlow, hending']
          rfl
        · rw [calls_andThen, calls_andThen, hlow]
          exact (List.prefix_append_right_inj _).mpr hcalls'
  · refine .inr ⟨?_, ?_⟩
    · rw [ending_andThen, hending]
      rfl
    · rw [calls_andThen, hending]
      exact hcalls.trans (calls_isPrefix_andThen high high')

end CutShort

variable {limit : Nat} {limit' : Option Nat}

/-- Looking at a level is refused by the limit, or by neither of the two limits. -/
lemma cutShort_levelScript (h : ∀ l ∈ limit', limit ≤ l) (level : Nat) :
    CutShort limit (Walk.levelScript (some limit) level) (Walk.levelScript limit' level) := by
  rcases Nat.lt_or_ge limit level with hbeyond | hwithin
  · refine .inr ⟨Walk.ending_levelScript_of_lt hbeyond, ?_⟩
    rw [Walk.calls_levelScript]
    exact List.nil_prefix
  · have hdone : ∀ l : Option Nat, (∀ n ∈ l, level ≤ n) → Walk.levelScript l level = .done := by
      intro l hl
      cases l with
      | none => rfl
      | some n => exact if_neg (Nat.not_lt.mpr (hl n rfl))
    refine .inl ?_
    rw [hdone (some limit) (by simpa using hwithin),
      hdone limit' fun l hl => Nat.le_trans hwithin (h l hl)]

/-- Steps are cut short where one of the visits among them is. -/
lemma cutShort_stepsScript {level : Nat} {steps? : Option (List Step)}
    (h : ∀ steps ∈ steps?, ∀ c, Step.visit c ∈ steps → CutShort limit
      (Walk.visitScript (some limit) level c) (Walk.visitScript limit' level c)) :
    CutShort limit (Walk.stepsScript (some limit) level steps?)
      (Walk.stepsScript limit' level steps?) := by
  cases steps? with
  | none => exact .refl limit _
  | some steps =>
    replace h := h steps rfl
    induction steps with
    | nil => exact .refl limit _
    | cons step steps ih =>
      refine .andThen ?_ (ih fun c hc => h c (List.mem_cons_of_mem _ hc))
      cases step with
      | visit c => exact h c List.mem_cons_self
      | call call => exact .refl limit _

/-- A visit is what it is with a greater limit, or it is cut short by the limit. -/
theorem cutShort_visitScript (h : ∀ l ∈ limit', limit ≤ l) (level : Nat) (t : Tree) :
    CutShort limit (Walk.visitScript (some limit) level t) (Walk.visitScript limit' level t) := by
  induction t using Tree.induct generalizing level with
  | node tag text children ih =>
    rw [Walk.visitScript_eq_steps, Walk.visitScript_eq_steps]
    refine .andThen (cutShort_levelScript h level) (cutShort_stepsScript ?_)
    intro steps hsteps c hc
    exact ih c (Tree.mem_children_of_mem_steps? hsteps hc) (level + 1)

/-- A walk is what it is with a greater limit, or it is cut short by the limit. -/
lemma cutShort_walkScript (h : ∀ l ∈ limit', limit ≤ l) (root : Option Tree) :
    CutShort limit (Walk.walkScript (some limit) root) (Walk.walkScript limit' root) := by
  cases root with
  | none => exact .refl limit _
  | some root =>
    rw [Walk.walkScript_some, Walk.walkScript_some]
    exact (CutShort.refl limit _).andThen ((cutShort_visitScript h 1 root).andThen (.refl limit _))

/-! ## Replays cut short -/

variable {σ α : Type}

/-- The replay of a script that is cut short ends as the replay of the whole script does, with the
same state, or it is refused by the limit where the rest of the calls would follow. -/
lemma CutShort.replay_eq_or {low high : Script} (h : CutShort limit low high)
    (handle : Handler σ) (s : σ) :
    replay handle high.ending high.calls s = replay handle low.ending low.calls s ∨
      ∃ later, high.calls = low.calls ++ later ∧
        (replay handle low.ending low.calls s).1 = .error (.error (.tooComplex limit)) ∧
        replay handle high.ending high.calls s =
          replay handle high.ending later (replay handle low.ending low.calls s).2 := by
  rcases h with rfl | ⟨hending, later, hcalls⟩
  · exact .inl rfl
  · rw [← hcalls, replay_append, hending, replay_error]
    rcases replay handle (.ok ()) low.calls s with ⟨halt | _, s'⟩
    · exact .inl rfl
    · exact .inr ⟨later, rfl, rfl, rfl⟩

/-- What every call leaves at the front is left at the front by a replay. -/
lemma view_isPrefix_replay {view : σ → List α} {handle : Handler σ} {calls : List Call}
    (h : ∀ call ∈ calls, ∀ s, view s <+: view ((handle call).runFrom s).2)
    (ending : Except Halt Unit) (s : σ) : view s <+: view (replay handle ending calls s).2 := by
  induction calls generalizing s with
  | nil => exact List.prefix_rfl
  | cons call calls ih =>
    obtain ⟨hhead, htail⟩ := List.forall_mem_cons.mp h
    have hcall := hhead s
    rw [replay]
    rcases hrun : (handle call).runFrom s with ⟨_ | _, s'⟩
    all_goals rw [hrun] at hcall
    · exact hcall
    · exact hcall.trans (ih htail s')

end Script

/-! ## Walks -/

namespace Walk

/-- Only the first call of a walk is one for its start. -/
lemma hook_ne_start_of_mem_tail {limit : Option Nat} {root : Tree} {call : Call}
    (h : call ∈ (walkScript limit (some root)).calls.tail) : call.hook ≠ .start := by
  rw [calls_walkScript, List.tail_cons] at h
  rcases List.mem_append.mp h with h | h
  · exact (hook_of_mem_calls_visitScript h).1
  · split at h
    · obtain rfl := List.mem_singleton.mp h
      exact nofun
    · exact absurd h List.not_mem_nil

/-- Let every call but that for the start of a walk leave the state of a handler at the front of the
state after it.  Then a walk leaves its state at the front of the state after the walk with a
greater limit, and it is this walk unless it is refused by its limit. -/
theorem prefix_or_eq_of_le {σ α : Type} {view : σ → List α} {handle : Handler σ}
    (hgrows : ∀ call, call.hook ≠ .start → ∀ s, view s <+: view ((handle call).runFrom s).2)
    {limit : Nat} {limit' : Option Nat} (h : ∀ l ∈ limit', limit ≤ l) (root : Option Tree) (s : σ) :
    let low := (walk handle (some limit) root).runFrom s
    let high := (walk handle limit' root).runFrom s
    view low.2 <+: view high.2 ∧ (low.1 ≠ .error (.error (.tooComplex limit)) → high = low) := by
  intro low high
  cases root with
  | none => exact ⟨List.prefix_rfl, fun _ => rfl⟩
  | some root =>
    have hlow : low = _ := runFrom_walk_eq_replay (some limit) (some root) handle s
    have hhigh : high = _ := runFrom_walk_eq_replay limit' (some root) handle s
    rcases (Script.cutShort_walkScript h (some root)).replay_eq_or handle s with
      heq | ⟨later, hcalls, hrefused, hrest⟩
    · rw [← hlow, ← hhigh] at heq
      exact ⟨heq ▸ List.prefix_rfl, fun _ => heq⟩
    · rw [← hlow] at hrefused
      rw [← hlow, ← hhigh] at hrest
      refine ⟨?_, fun hne => absurd hrefused hne⟩
      rw [hrest]
      refine Script.view_isPrefix_replay (fun call hcall => hgrows call ?_) _ _
      -- A start may take back everything, but it is the first call of both walks and so not among
      -- the later ones.
      have hne : (walkScript (some limit) (some root)).calls ≠ [] := by
        rw [calls_walkScript]
        exact List.cons_ne_nil _ _
      have htail : call ∈ (walkScript limit' (some root)).calls.tail := by
        rw [hcalls, List.tail_append_of_ne_nil hne]
        exact List.mem_append_right _ hcall
      exact hook_ne_start_of_mem_tail htail

end Walk

/-- A recorder keeps what it has recorded. -/
lemma Trace.isPrefix_record (refused : Option Hook) (call : Call) (trace : Trace) :
    trace.toList <+: ((record refused call).runFrom trace).2.toList := by
  have h := runFrom_perform refused (.direct call) trace
  dsimp only [Use.perform] at h
  rw [h, Array.toList_append]
  exact List.prefix_append _ _

/-- What has been written stays, unless a walk starts. -/
lemma Rendering.isPrefix_render {call : Call} (h : call.hook ≠ .start) (written : String) :
    written.toList <+: ((render call).runFrom written).2.toList := by
  rw [runFrom_render, if_neg h, String.toList_append]
  exact List.prefix_append _ _

/-- Raising the limit only extends a walk, whatever the tree and however the walks end.  The limit
may be raised to none at all.

* The events that a recorder has after a walk, from any earlier ones on and whichever hook it
  refuses, are the first events that it has after the walk with the greater limit.
* The text after a walk is the beginning of the text after the walk with the greater limit.
* If a walk is not refused by its limit, then the walk with the greater limit ends in the same way,
  with the same events and with the same text. -/
theorem walk_isPrefix_of_le {limit : Nat} {limit' : Option Nat} (h : ∀ l ∈ limit', limit ≤ l)
    (root : Option Tree) :
    (∀ (refused : Option Hook) (earlier : Trace),
      let low := (walk (Trace.record refused) (some limit) root).runFrom earlier
      let high := (walk (Trace.record refused) limit' root).runFrom earlier
      low.2.toList <+: high.2.toList ∧
        (low.1 ≠ .error (.error (.tooComplex limit)) → high = low)) ∧
    ∀ written : String,
      let low := (walk Rendering.render (some limit) root).runFrom written
      let high := (walk Rendering.render limit' root).runFrom written
      low.2.toList <+: high.2.toList ∧
        (low.1 ≠ .error (.error (.tooComplex limit)) → high = low) := by
  refine ⟨fun refused earlier => ?_, fun written => ?_⟩
  · refine Walk.prefix_or_eq_of_le (fun call _ trace => ?_) h root earlier
    exact Trace.isPrefix_record refused call trace
  · exact Walk.prefix_or_eq_of_le (fun call hcall => Rendering.isPrefix_render hcall) h root written

/-- A conjunction of a comparison and of a negation that lacks its operand.  A limit of two levels
refuses the operands of the comparison, and what is recorded and written by then is the beginning of
what is recorded and written without a limit.  Three levels are enough for the walk to come to the
missing operand, as it does without a limit. -/
theorem walk_isPrefix_of_le_of_missing_operand :
    let t : Tree := .branch (.connective .and)
      [.branch (.binary .equal) [.column "a", .literal .number "1"], .branch .negation []]
    let recorded (limit : Option Nat) := (walk (Trace.record none) limit (some t)).runFrom #[]
    let written (limit : Option Nat) := (walk Rendering.render limit (some t)).runFrom ""
    (∀ l ∈ (none : Option Nat), 2 ≤ l) ∧
      (recorded (some 2)).1 = .error (.error (.tooComplex 2)) ∧
      (recorded (some 2)).2.toList <+: (recorded none).2.toList ∧
      (recorded (some 2)).2.size = 2 ∧ (recorded none).2.size = 4 ∧
      (written (some 2)).2.toList <+: (written none).2.toList ∧
      (written (some 2)).2 = "(" ∧ (written none).2 = "(a = 1 AND " ∧
      (∀ l ∈ (none : Option Nat), 3 ≤ l) ∧
      (recorded (some 3)).1 = .error (.defect .missingChild) ∧ recorded none = recorded (some 3) ∧
      written none = written (some 3) := by
  intro t recorded written
  have htwo : ∀ l ∈ (none : Option Nat), 2 ≤ l := nofun
  have hthree : ∀ l ∈ (none : Option Nat), 3 ≤ l := nofun
  obtain ⟨hrecorded, hwritten⟩ := walk_isPrefix_of_le htwo (some t)
  obtain ⟨hrecorded', hwritten'⟩ := walk_isPrefix_of_le hthree (some t)
  have hending : (recorded (some 3)).1 = .error (.defect .missingChild) := by decide +kernel
  have hsame : recorded none = recorded (some 3) :=
    (hrecorded' none #[]).2 (by rw [hending]; exact nofun)
  have hrest : written none = written (some 3) := by
    refine (hwritten' _).2 ?_
    decide +kernel
  exact ⟨htwo, by decide +kernel, (hrecorded none #[]).1, by decide +kernel, by decide +kernel,
    (hwritten "").1, by decide +kernel, by decide +kernel, hthree, hending, hsame, hrest⟩

end WhereClause
