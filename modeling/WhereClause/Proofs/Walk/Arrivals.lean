import WhereClause.Proofs.Walk.Levels
import WhereClause.Proofs.Walk.Related

/-!
# The places that a walk gets to

The end of a walk does not show where the walk has been, nor what the handler had in its state at
the moments between.  `Walk.tour` is a visit that tells where it is on its arrival at each place,
and `Walk.watched` is the walk that notes these arrivals with the state of the handler.  Watching a
walk does not change it (`Walk.simulates_watched`).

`Action.CutAt` compares a watched walk with one that is cut short at the first arrival at one of
some places.
-/

namespace WhereClause

/-! ## Places -/

namespace Tree

/-- The tree at a place: the positions among children that lead to it from the root. -/
def at? : Tree → List Nat → Option Tree
  | t, [] => some t
  | t, i :: place => t.children[i]?.bind fun c => c.at? place

/-- The place of a child is that of its parent and its position. -/
lemma at?_append {t s c : Tree} {place : List Nat} {i : Nat} (h : t.at? place = some s)
    (hc : s.children[i]? = some c) : t.at? (place ++ [i]) = some c := by
  induction place generalizing t with
  | nil =>
    obtain rfl := Option.some.inj h
    rw [List.nil_append, at?, hc]
    rfl
  | cons j place ih =>
    rw [at?] at h
    obtain ⟨d, hd, h⟩ := Option.bind_eq_some_iff.mp h
    rw [List.cons_append, at?, hd]
    exact ih h

end Tree

/-! ## Arrivals -/

/-- That a walk gets to a place, with the state of its handler at this moment. -/
structure Arrival (σ : Type) where
  place : List Nat
  state : σ

/-- The state of a handler, and the arrivals of its walk so far. -/
structure Watched (σ : Type) where
  state : σ
  arrivals : List (Arrival σ)

namespace Action

variable {σ α β : Type}

/-- The action on the state of the handler, which is no arrival. -/
def watched (action : Action σ α) : Action (Watched σ) α := fun w =>
  ((action.runFrom w.state).1, { w with state := (action.runFrom w.state).2 })

/-- Notes that the walk gets to the place. -/
def noteArrival (place : List Nat) : Action (Watched σ) Unit :=
  modify fun w => { w with arrivals := w.arrivals ++ [⟨place, w.state⟩] }

/-- The state of the handler is the given one, and all arrivals are at places of the tree. -/
def Watches (root : Tree) (w : Watched σ) (s : σ) : Prop :=
  w.state = s ∧ ∀ arrival ∈ w.arrivals, (root.at? arrival.place).isSome

/-- Watching an action does not change it. -/
lemma simulates_watched (root : Tree) (action : Action σ α) :
    Simulates (Watches root) action.watched action := by
  rintro w s ⟨rfl, harrivals⟩
  exact ⟨rfl, rfl, harrivals⟩

/-- Noting an arrival at a place of the tree does nothing else. -/
lemma simulates_noteArrival {root t : Tree} {place : List Nat} (h : root.at? place = some t) :
    Simulates (σ := Watched σ) (Watches root) (noteArrival place) (Pure.pure ()) := by
  rintro w s ⟨rfl, harrivals⟩
  refine ⟨rfl, rfl, List.forall_mem_append.mpr ⟨harrivals, List.forall_mem_singleton.mpr ?_⟩⟩
  rw [h]
  rfl

/-- The second action runs as the first one does, up to the first arrival at one of the given
places.  There it ends early, in the state of this moment. -/
def CutAt (p : List Nat → Bool) (halt : Halt) (whole : Action (Watched σ) α) (cut : Action σ α) :
    Prop :=
  ∀ w, ∃ later, (whole.runFrom w).2.arrivals = w.arrivals ++ later ∧
    cut.runFrom w.state = (later.find? fun arrival => p arrival.place).elim
      ((whole.runFrom w).1, (whole.runFrom w).2.state) fun arrival => (.error halt, arrival.state)

namespace CutAt

variable {p : List Nat → Bool} {halt : Halt}

/-- What is no arrival is not cut. -/
lemma watched (action : Action σ α) : CutAt p halt action.watched action :=
  fun _ => ⟨[], (List.append_nil _).symm, rfl⟩

/-- An early end is not cut. -/
lemma throw (halt' : Halt) :
    CutAt p halt (MonadExcept.throw halt' : Action (Watched σ) α) (MonadExcept.throw halt') :=
  fun _ => ⟨[], (List.append_nil _).symm, rfl⟩

/-- An arrival at another place is not cut. -/
lemma noteArrival {place : List Nat} (h : p place = false) :
    CutAt (σ := σ) p halt (noteArrival place) (pure ()) := by
  intro w
  refine ⟨[⟨place, w.state⟩], rfl, ?_⟩
  rw [List.find?_singleton, if_neg (by simp [h])]
  rfl

/-- An arrival at one of the places is cut. -/
lemma noteArrival_of_mem {place : List Nat} (h : p place = true) :
    CutAt (σ := σ) p halt (Action.noteArrival place) (MonadExcept.throw halt) := by
  intro w
  refine ⟨[⟨place, w.state⟩], rfl, ?_⟩
  rw [List.find?_singleton, if_pos h]
  rfl

/-- A sequence is cut where its first part is, or else where its second part is. -/
lemma bind {whole : Action (Watched σ) α} {cut : Action σ α} {f : α → Action (Watched σ) β}
    {g : α → Action σ β} (hfirst : CutAt p halt whole cut)
    (hsecond : ∀ x, CutAt p halt (f x) (g x)) : CutAt p halt (whole >>= f) (cut >>= g) := by
  intro w
  obtain ⟨later, harrivals, hcut⟩ := hfirst w
  rw [runFrom_bind, runFrom_bind, hcut]
  rcases hrun : whole.runFrom w with ⟨halt' | x, w'⟩
  · rw [hrun] at harrivals
    refine ⟨later, harrivals, ?_⟩
    generalize later.find? _ = found
    cases found <;> rfl
  · rw [hrun] at harrivals
    obtain ⟨later', harrivals', hcut'⟩ := hsecond x w'
    dsimp only at harrivals hcut' ⊢
    refine ⟨later ++ later', ?_, ?_⟩
    · rw [harrivals', harrivals, List.append_assoc]
    · rw [List.find?_append]
      generalize later.find? _ = found
      cases found with
      | none => exact hcut'
      | some arrival => rfl

/-- Without earlier arrivals the first one at one of the places decides how the cut action runs. -/
lemma runFrom_eq {whole : Action (Watched σ) α} {cut : Action σ α} (h : CutAt p halt whole cut)
    (s : σ) : cut.runFrom s =
      ((whole.runFrom ⟨s, []⟩).2.arrivals.find? fun arrival => p arrival.place).elim
        ((whole.runFrom ⟨s, []⟩).1, (whole.runFrom ⟨s, []⟩).2.state)
        fun arrival => (.error halt, arrival.state) := by
  obtain ⟨later, harrivals, hcut⟩ := h ⟨s, []⟩
  rw [List.nil_append] at harrivals
  rw [harrivals]
  exact hcut

end CutAt

end Action

/-! ## Watched walks -/

namespace Walk

variable {σ τ : Type}

/-- The steps, each with the number of visits in front of it.  For the steps of a node, this is the
position of the child that a visit goes down to. -/
def numberVisits : Nat → List Step → List (Nat × Step)
  | _, [] => []
  | i, .visit child :: steps => (i, .visit child) :: numberVisits (i + 1) steps
  | i, .call call :: steps => (i, .call call) :: numberVisits i steps

/-- Without the numbers these are the steps. -/
lemma map_snd_numberVisits (i : Nat) (steps : List Step) :
    (numberVisits i steps).map Prod.snd = steps := by
  induction steps generalizing i with
  | nil => rfl
  | cons step steps ih =>
    cases step with
    | visit child => rw [numberVisits, List.map_cons, ih]
    | call call => rw [numberVisits, List.map_cons, ih]

/-- What is numbered is a step. -/
lemma mem_of_mem_numberVisits {i j : Nat} {steps : List Step} {step : Step}
    (h : (j, step) ∈ numberVisits i steps) : step ∈ steps := by
  rw [← map_snd_numberVisits i steps]
  exact List.mem_map_of_mem h

/-- The number of a visit is the position of the child. -/
lemma children_getElem?_of_mem_numberVisits {t c : Tree} {steps : List Step} {i : Nat}
    (h : t.steps? = some steps) (hc : (i, .visit c) ∈ numberVisits 0 steps) :
    t.children[i]? = some c := by
  unfold Tree.steps? at h
  split at h <;> simp_all [numberVisits] <;> grind [numberVisits]

/-- Visits as `visit` does, and tells where it is on its arrival at each place. -/
def tour (arrive : List Nat → Action σ Unit) (handle : Handler σ) (limit : Option Nat)
    (place : List Nat) (t : Tree) : Action σ Unit := do
  checkLevel limit (place.length + 1)
  arrive place
  match _hsteps : t.steps? with
  | some steps =>
    (numberVisits 0 steps).attach.forM fun
      | ⟨(i, .visit child), _hchild⟩ => tour arrive handle limit (place ++ [i]) child
      | ⟨(_, .call call), _⟩ => handle call
  | none => throw (.defect .missingChild)
termination_by t.depth
decreasing_by exact Tree.depth_lt_of_mem_steps? _hsteps (mem_of_mem_numberVisits _hchild)

/-- Does a numbered step. -/
def tourStep (arrive : List Nat → Action σ Unit) (handle : Handler σ) (limit : Option Nat)
    (place : List Nat) : Nat × Step → Action σ Unit
  | (i, .visit child) => tour arrive handle limit (place ++ [i]) child
  | (_, .call call) => handle call

/-- Does all the steps of a node, or stops at once if the node lacks a child. -/
def tourAll (arrive : List Nat → Action σ Unit) (handle : Handler σ) (limit : Option Nat)
    (place : List Nat) : Option (List Step) → Action σ Unit
  | some steps => (numberVisits 0 steps).forM (tourStep arrive handle limit place)
  | none => throw (.defect .missingChild)

/-- A tour checks its level, as a visit does, and performs the same steps after the arrival. -/
theorem tour_eq_steps (arrive : List Nat → Action σ Unit) (handle : Handler σ)
    (limit : Option Nat) (place : List Nat) (t : Tree) :
    tour arrive handle limit place t = (do
      checkLevel limit (place.length + 1)
      arrive place
      tourAll arrive handle limit place t.steps?) := by
  rw [tour]
  split
  · rename_i steps hsteps
    rw [hsteps, tourAll]
    refine bind_congr fun _ => bind_congr fun _ => ?_
    -- The steps are the same, but on one side each comes with a proof that it is one of them.
    conv_rhs => rw [← List.attach_map_subtype_val (numberVisits 0 steps)]
    refine Eq.trans (Action.forM_congr fun step _ => ?_) List.forM_map.symm
    obtain ⟨⟨i, step⟩, hstep⟩ := step
    cases step <;> rfl
  · rename_i hsteps
    rw [hsteps]
    rfl

/-! ### What is watched -/

/-- Looking at a level is the same action for every handler. -/
lemma simulates_checkLevel (r : σ → τ → Prop) (limit : Option Nat) (level : Nat) :
    Action.Simulates r (checkLevel limit level) (checkLevel limit level) := by
  rcases within_or_beyond limit level with h | ⟨l, rfl, h⟩
  · rw [checkLevel_of_le h, checkLevel_of_le h]
    exact .pure ()
  · rw [checkLevel_of_lt h, checkLevel_of_lt h]
    exact .throw _

/-- A tour simulates a visit if its arrivals at the places of the tree do nothing and its handler
simulates that of the visit. -/
theorem simulates_tour {r : σ → τ → Prop} {arrive : List Nat → Action σ Unit}
    {handle : Handler σ} {handle' : Handler τ} {root : Tree}
    (harrive : ∀ place t, root.at? place = some t → Action.Simulates r (arrive place) (pure ()))
    (hhandle : ∀ call, Action.Simulates r (handle call) (handle' call)) (limit : Option Nat)
    {place : List Nat} {t : Tree} (hplace : root.at? place = some t) :
    Action.Simulates r (tour arrive handle limit place t)
      (visit handle' limit (place.length + 1) t) := by
  induction t using Tree.induct generalizing place with
  | node tag text children ih =>
    -- The arrival has no counterpart in the visit, so it is compared with doing nothing there.
    rw [tour_eq_steps, visit_eq_steps,
      ← pure_bind () fun _ => performAll handle' limit (place.length + 1 + 1) _]
    refine (simulates_checkLevel r limit _).bind fun _ => (harrive place _ hplace).bind fun _ => ?_
    rcases hsteps : (Tree.node tag text children).steps? with _ | steps
    · exact .throw _
    · have hperform : performAll handle' limit (place.length + 1 + 1) (some steps) =
          (numberVisits 0 steps).forM fun step =>
            perform handle' limit (place.length + 1 + 1) step.2 := by
        rw [performAll]
        conv_lhs => rw [← map_snd_numberVisits 0 steps]
        exact List.forM_map
      rw [hperform, tourAll]
      refine .forM fun step hstep => ?_
      obtain ⟨i, step⟩ := step
      cases step with
      | visit c =>
        have hchild := children_getElem?_of_mem_numberVisits hsteps hstep
        have hvisit := ih c (List.mem_of_getElem? hchild) (Tree.at?_append hplace hchild)
        rwa [List.length_append] at hvisit
      | call call => exact hhandle call

/-- The walk through the tree that also notes each arrival. -/
def watched (handle : Handler σ) (limit : Option Nat) (root : Tree) : Action (Watched σ) Unit := do
  (handle (.start root)).watched
  tour Action.noteArrival (fun call => (handle call).watched) limit [] root
  (handle .stop).watched

/-- Watching a walk does not change it. -/
theorem simulates_watched (handle : Handler σ) (limit : Option Nat) (root : Tree) :
    Action.Simulates (Action.Watches root) (watched handle limit root)
      (walk handle limit (some root)) := by
  have hcall (call : Call) :
      Action.Simulates (Action.Watches root) (handle call).watched (handle call) :=
    Action.simulates_watched root _
  refine (hcall _).bind fun _ => .bind ?_ fun _ => hcall _
  exact simulates_tour (fun _ _ => Action.simulates_noteArrival) hcall limit rfl

/-! ### Where a walk is cut -/

/-- The steps of a node are those of the repaired node, up to the first arrival at one of the given
places, if this is true of all visits among them. -/
lemma cutAt_forM {r : Tree → Tree → Prop} {p : List Nat → Bool} {halt : Halt} {handle : Handler σ}
    (hhandle : ∀ c d, Call.Related r c d → handle c = handle d) {limit : Option Nat}
    {place : List Nat} {level i : Nat} {steps steps' : List Step}
    (h : List.Forall₂ (Step.Related r) steps steps')
    (hvisit : ∀ j c d, (j, .visit c) ∈ numberVisits i steps → r c d →
      Action.CutAt p halt
        (tour Action.noteArrival (fun call => (handle call).watched) limit (place ++ [j]) d)
        (visit handle limit level c)) :
    Action.CutAt p halt
      ((numberVisits i steps').forM
        (tourStep Action.noteArrival (fun call => (handle call).watched) limit place))
      (steps.forM (perform handle limit level)) := by
  induction h generalizing i with
  | nil => exact .watched (pure ())
  | cons hstep _ ih =>
    cases hstep with
    | visit hcd =>
      refine (hvisit i _ _ List.mem_cons_self hcd).bind fun _ => ih fun j c d hc => ?_
      exact hvisit j c d (List.mem_cons_of_mem _ hc)
    | call hcd =>
      refine Action.CutAt.bind ?_ fun _ => ih fun j c d hc => ?_
      · rw [perform, hhandle _ _ hcd]
        exact .watched _
      · exact hvisit j c d (List.mem_cons_of_mem _ hc)

/-- Looking at a level is cut nowhere. -/
lemma cutAt_checkLevel (p : List Nat → Bool) (halt : Halt) (limit : Option Nat) (level : Nat) :
    Action.CutAt (σ := σ) p halt (checkLevel limit level) (checkLevel limit level) := by
  rcases within_or_beyond limit level with h | ⟨l, rfl, h⟩
  · rw [checkLevel_of_le h, checkLevel_of_le h]
    exact .watched (pure ())
  · rw [checkLevel_of_lt h, checkLevel_of_lt h]
    exact .throw _

end Walk

end WhereClause
