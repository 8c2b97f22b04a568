import WhereClause.Proofs.Command.Defects
import WhereClause.Proofs.Walk.Arrivals

/-!
# Nodes that lack children

A node is deficient if it has fewer children than a visit of it needs.  A walk ends at a defect when
it gets to such a node, before it does anything there.  `Tree.repaired` has clause markers in the
place of deficient nodes, which are described alike, and a visit of a clause marker does nothing but
get there.  So a walk is the walk through the repaired tree up to the first arrival at a replaced
node (`Walk.cutAt_watched_repaired`), and if it comes to no such node then it is this walk
(`walk_eq_repaired_until_deficient`).
-/

namespace WhereClause

/-! ## Deficient nodes -/

/-- The number of children that a visit of a node needs at least. -/
def Tag.demand : Tag → Nat
  | .binary _ | .connective _ => 2
  | .negation | .nullTest _ | .function _ => 1
  | _ => 0

/-- Every tag has a name. -/
lemma Tag.grammarName_ne_empty (tag : Tag) : tag.grammarName ≠ "" := by
  have key : ∀ tag ∈ Tag.all, tag.grammarName ≠ "" := by decide +kernel
  exact key tag (Tag.mem_all tag)

namespace Tree

/-- The root has fewer children than a visit of it needs. -/
def Deficient (t : Tree) : Prop :=
  t.children.length < t.tag.demand

instance (t : Tree) : Decidable t.Deficient :=
  inferInstanceAs (Decidable (_ < _))

/-- The steps of a visit are undefined exactly at the deficient nodes. -/
lemma steps?_eq_none_iff {t : Tree} : t.steps? = none ↔ t.Deficient := by
  obtain ⟨tag, text, children⟩ := t
  rcases children with _ | ⟨c, _ | ⟨d, children⟩⟩ <;>
    cases tag <;> simp [steps?, Deficient, Tag.demand]

/-! ### Repaired trees -/

mutual

/-- The tree with every deficient node replaced by a clause marker that has the description of the
node for its text. -/
def repaired : Tree → Tree
  | node tag text children =>
    if (node tag text children).Deficient then leaf .clause (node tag text children).description
    else node tag text (repairedList children)

/-- The trees of the list with every deficient node replaced. -/
def repairedList : List Tree → List Tree
  | [] => []
  | t :: ts => repaired t :: repairedList ts

end

lemma repairedList_eq_map (ts : List Tree) : repairedList ts = ts.map repaired := by
  induction ts with
  | nil => rfl
  | cons t ts ih => rw [repairedList, ih, List.map_cons]

/-- A deficient node is replaced. -/
lemma repaired_of_deficient {t : Tree} (h : t.Deficient) :
    t.repaired = leaf .clause t.description := by
  cases t
  rw [repaired, if_pos h]

/-- Any other node stays, with its children repaired. -/
lemma repaired_of_not_deficient {t : Tree} (h : ¬t.Deficient) :
    t.repaired = node t.tag t.text (t.children.map repaired) := by
  cases t
  rw [repaired, if_neg h, repairedList_eq_map]
  rfl

/-- Repairing a tree does not change its description. -/
lemma description_repaired (t : Tree) : t.repaired.description = t.description := by
  by_cases h : t.Deficient
  · have hne : t.description ≠ "" := by
      unfold description
      split
      · exact t.tag.grammarName_ne_empty
      · assumption
    rw [repaired_of_deficient h]
    exact if_neg hne
  · rw [repaired_of_not_deficient h]
    rfl

/-- A node that is not deficient has the steps of its repaired tree, up to the repair of its
children. -/
lemma exists_steps?_repaired {t : Tree} (h : ¬t.Deficient) :
    ∃ steps steps', t.steps? = some steps ∧ t.repaired.steps? = some steps' ∧
      List.Forall₂ (Step.Related fun c d => d = c.repaired) steps steps' := by
  have htag : t.tag = t.repaired.tag := by
    rw [repaired_of_not_deficient h]
    rfl
  have hvisited : List.Forall₂ (fun c d => d = c.repaired) t.visited t.repaired.visited := by
    rw [repaired_of_not_deficient h, visited, visited, children_node, tag_node, ← List.map_take,
      List.forall₂_map_right_iff]
    exact List.forall₂_same.mpr fun _ _ => rfl
  have hsteps := steps?_related (r := fun c d => d = c.repaired) rfl htag hvisited
  rcases hsome : t.steps? with _ | steps
  · exact absurd (steps?_eq_none_iff.mp hsome) h
  · rw [hsome] at hsteps
    rcases hsome' : t.repaired.steps? with _ | steps'
    · rw [hsome'] at hsteps
      exact nomatch hsteps
    · rw [hsome'] at hsteps
      cases hsteps with
      | some hsteps => exact ⟨steps, steps', rfl, rfl, hsteps⟩

/-! ### Places of deficient nodes -/

/-- What a repaired tree has at a place is the repair of what the tree has there. -/
lemma at?_repaired {t s : Tree} {place : List Nat} (h : t.repaired.at? place = some s) :
    ∃ u, t.at? place = some u ∧ s = u.repaired := by
  induction place generalizing t with
  | nil => exact ⟨t, rfl, (Option.some.inj h).symm⟩
  | cons i place ih =>
    rw [at?] at h
    obtain ⟨c, hc, h⟩ := Option.bind_eq_some_iff.mp h
    by_cases hdeficient : t.Deficient
    · -- There is nothing below a replaced node.
      simp [repaired_of_deficient hdeficient, leaf] at hc
    · rw [repaired_of_not_deficient hdeficient, children_node, List.getElem?_map] at hc
      obtain ⟨d, hd, rfl⟩ := Option.map_eq_some_iff.mp hc
      obtain ⟨u, hu, hs⟩ := ih h
      refine ⟨u, ?_, hs⟩
      rw [at?, hd]
      exact hu

/-- There is a deficient node at the place. -/
def deficientAt (t : Tree) (place : List Nat) : Bool :=
  (t.at? place).any fun s => s.Deficient

/-- A repaired tree has a replaced node wherever it has anything in the place of a deficient
node. -/
lemma exists_deficient_of_deficientAt {t : Tree} {place : List Nat} (h : t.deficientAt place)
    (hplace : (t.repaired.at? place).isSome) :
    ∃ s, s.Deficient ∧ t.at? place = some s ∧
      t.repaired.at? place = some (leaf .clause s.description) := by
  obtain ⟨r, hr⟩ := Option.isSome_iff_exists.mp hplace
  obtain ⟨s, hs, rfl⟩ := at?_repaired hr
  rw [deficientAt, hs] at h
  have hdeficient : s.Deficient := of_decide_eq_true h
  rw [repaired_of_deficient hdeficient] at hr
  exact ⟨s, hdeficient, hs, hr⟩

end Tree

/-! ## Walks through repaired trees -/

namespace Walk

variable {σ : Type}

/-- A visit is the visit of the repaired tree, up to the first arrival at a deficient node. -/
theorem cutAt_tour_repaired {handle : Handler σ}
    (hhandle : ∀ c d, Call.Related (fun c d => d = c.repaired) c d → handle c = handle d)
    (limit : Option Nat) {root t : Tree} {place : List Nat} (hplace : root.at? place = some t) :
    Action.CutAt root.deficientAt (.defect .missingChild)
      (tour Action.noteArrival (fun call => (handle call).watched) limit place t.repaired)
      (visit handle limit (place.length + 1) t) := by
  induction t using Tree.induct generalizing place with
  | node tag text children ih =>
    rw [tour_eq_steps, visit_eq_steps]
    refine (cutAt_checkLevel _ _ limit _).bind fun _ => ?_
    by_cases hdeficient : (Tree.node tag text children).Deficient
    · have hat : root.deficientAt place = true := by
        rw [Tree.deficientAt, hplace]
        exact decide_eq_true hdeficient
      rw [Tree.steps?_eq_none_iff.mpr hdeficient, Tree.repaired_of_deficient hdeficient]
      change Action.CutAt _ _ (Action.noteArrival place >>= pure) _
      rw [bind_pure]
      exact .noteArrival_of_mem hat
    · have hat : root.deficientAt place = false := by
        rw [Tree.deficientAt, hplace]
        exact decide_eq_false hdeficient
      obtain ⟨steps, steps', hsteps, hsteps', hrelated⟩ := Tree.exists_steps?_repaired hdeficient
      -- The arrival at any other node does nothing, as if it were a first step of the visit.
      rw [hsteps, hsteps', ← pure_bind () fun _ => performAll handle limit _ _]
      refine (Action.CutAt.noteArrival hat).bind fun _ => cutAt_forM hhandle hrelated ?_
      rintro j c d hc rfl
      have hchild := children_getElem?_of_mem_numberVisits hsteps hc
      have hvisit := ih c (List.mem_of_getElem? hchild) (Tree.at?_append hplace hchild)
      rwa [List.length_append] at hvisit

/-- A walk is the walk through the repaired tree, up to the first arrival at a deficient node. -/
theorem cutAt_watched_repaired {handle : Handler σ}
    (hhandle : ∀ c d, Call.Related (fun c d => d = c.repaired) c d → handle c = handle d)
    (limit : Option Nat) (root : Tree) :
    Action.CutAt root.deficientAt (.defect .missingChild) (watched handle limit root.repaired)
      (walk handle limit (some root)) := by
  rw [walk, hhandle _ _ (.start rfl)]
  refine (Action.CutAt.watched _).bind fun _ => .bind ?_ fun _ => .watched _
  exact cutAt_tour_repaired hhandle limit rfl

/-- Looking at a level ends at no defect. -/
lemma defectFree_checkLevel (limit : Option Nat) (level : Nat) :
    (checkLevel limit level : Action σ Unit).DefectFree := by
  rcases within_or_beyond limit level with h | ⟨l, rfl, h⟩
  · rw [checkLevel_of_le h]
    exact .pure ()
  · rw [checkLevel_of_lt h]
    exact .throw _

/-- A visit of a repaired tree ends at no defect if its handler does not. -/
theorem defectFree_visit_repaired {handle : Handler σ} (h : ∀ call, (handle call).DefectFree)
    (limit : Option Nat) (level : Nat) (t : Tree) :
    (visit handle limit level t.repaired).DefectFree := by
  induction t using Tree.induct generalizing level with
  | node tag text children ih =>
    by_cases hdeficient : (Tree.node tag text children).Deficient
    · rw [Tree.repaired_of_deficient hdeficient, visit_of_not_isOperator id]
      exact defectFree_checkLevel limit level
    · obtain ⟨-, steps, -, hsteps, -⟩ := Tree.exists_steps?_repaired hdeficient
      rw [visit_eq_steps, hsteps]
      refine (defectFree_checkLevel limit level).bind fun _ => .forM fun step hstep => ?_
      cases step with
      | visit d =>
        have hd := Tree.mem_children_of_mem_steps? hsteps hstep
        rw [Tree.repaired_of_not_deficient hdeficient] at hd
        obtain ⟨c, hc, rfl⟩ := List.mem_map.mp hd
        exact ih c hc (level + 1)
      | call call => exact h call

/-- A walk through a repaired tree ends at no defect if its handler does not. -/
lemma defectFree_walk_repaired {handle : Handler σ} (h : ∀ call, (handle call).DefectFree)
    (limit : Option Nat) (root : Tree) : (walk handle limit (some root.repaired)).DefectFree :=
  (h _).bind fun _ => (defectFree_visit_repaired h limit 1 root).bind fun _ => h _

end Walk

/-- A tree with nodes that lack children is walked through up to the first of these nodes.  Compare
its walk with that through the repaired tree, by recorders that refuse the same hook, if any, with
the same limit and from the same earlier events on.

* The walk through the repaired tree never ends at a defect.
* The walk through the tree ends at the defect of a missing child exactly if the walk through the
  repaired tree gets to a replaced node, which is a clause marker in the place of a deficient node.
* If so, then it has recorded what the walk through the repaired tree has recorded when it first
  gets to a replaced node.
* Otherwise both walks have the same events and the same outcome. -/
theorem walk_eq_repaired_until_deficient (t : Tree) (limit : Option Nat) (refused : Option Hook)
    (earlier : Trace) :
    let broken := (walk (Trace.record refused) limit (some t)).runFrom earlier
    let sound := (walk (Trace.record refused) limit (some t.repaired)).runFrom earlier
    let watched := (Walk.watched (Trace.record refused) limit t.repaired).runFrom ⟨earlier, []⟩
    let first := watched.2.arrivals.find? fun arrival => t.deficientAt arrival.place
    sound = (watched.1, watched.2.state) ∧ (∀ d, sound.1 ≠ .error (.defect d)) ∧
      (broken.1 = .error (.defect .missingChild) ↔ first.isSome) ∧
      (∀ arrival ∈ first, broken.2 = arrival.state ∧ ∃ s, s.Deficient ∧
        t.at? arrival.place = some s ∧
        t.repaired.at? arrival.place = some (.leaf .clause s.description)) ∧
      (broken.1 ≠ .error (.defect .missingChild) → broken = sound) := by
  intro broken sound watched first
  have hrecord : ∀ c d, Call.Related (fun c d => d = c.repaired) c d →
      Trace.record refused c = Trace.record refused d := by
    intro c d hcd
    refine Trace.record_congr ?_ hcd refused
    rintro s u rfl
    exact (Tree.description_repaired s).symm
  obtain ⟨hend, hstate, hplaces⟩ := Walk.simulates_watched (Trace.record refused) limit t.repaired
    ⟨earlier, []⟩ earlier ⟨rfl, fun _ h => absurd h List.not_mem_nil⟩
  have hsound : sound = (watched.1, watched.2.state) := Prod.ext hend.symm hstate.symm
  have hfree : ∀ d, sound.1 ≠ .error (.defect d) :=
    Walk.defectFree_walk_repaired (Trace.defectFree_record refused) limit t earlier
  have hcut : broken = first.elim (watched.1, watched.2.state) _ :=
    (Walk.cutAt_watched_repaired hrecord limit t).runFrom_eq earlier
  rw [← hsound] at hcut
  refine ⟨hsound, hfree, ?_⟩
  rcases hfirst : first with _ | arrival
  · have hbroken : broken = sound := by rw [hcut, hfirst, Option.elim_none]
    refine ⟨⟨fun hdefect => ?_, nofun⟩, nofun, fun _ => hbroken⟩
    rw [hbroken] at hdefect
    exact absurd hdefect (hfree _)
  · have hbroken : broken = (.error (.defect .missingChild), arrival.state) := by
      rw [hcut, hfirst, Option.elim_some]
    rw [hbroken]
    refine ⟨⟨fun _ => rfl, fun _ => rfl⟩, ?_, fun hne => absurd rfl hne⟩
    rintro _ ⟨⟩
    have hdeficient : t.deficientAt arrival.place = true :=
      List.find?_some (p := fun a : Arrival Trace => t.deficientAt a.place) hfirst
    have hplace := hplaces arrival (List.mem_of_find?_eq_some hfirst)
    exact ⟨rfl, Tree.exists_deficient_of_deficientAt hdeficient hplace⟩

/-- A negation of a disjunction with a single operand.  The walk records the calls up to the
negation and nothing about the disjunction or its operand.  A limit of two levels or a recorder that
refuses the negation ends it before that, as it ends the walk through the repaired tree. -/
theorem walk_eq_repaired_until_deficient_of_short_disjunction :
    let clause (operand : Tree) : Tree := .branch (.connective .and)
      [.branch (.binary .equal) [.column "a", .literal .number "1"], .branch .negation [operand]]
    let t : Tree := clause (.branch (.connective .or) [.branch .score []])
    let recorded (limit : Option Nat) (refused : Option Hook) (t : Tree) :=
      (walk (Trace.record refused) limit (some t)).runFrom #[]
    let watched := (Walk.watched (Trace.record none) none t.repaired).runFrom ⟨#[], []⟩
    t.repaired = clause (.leaf .clause "OR") ∧
      (recorded none none t).1 = .error (.defect .missingChild) ∧
      (recorded none none t).2.size = 6 ∧ (recorded none none t.repaired).2.size = 9 ∧
      (∃ arrival ∈ watched.2.arrivals.find? fun arrival => t.deficientAt arrival.place,
        (recorded none none t).2 = arrival.state) ∧
      (recorded (some 2) none t).1 = .error (.error (.tooComplex 2)) ∧
      recorded (some 2) none t = recorded (some 2) none t.repaired ∧
      (recorded none (some (.negation .opening)) t).2.size = 5 ∧
      recorded none (some (.negation .opening)) t =
        recorded none (some (.negation .opening)) t.repaired := by
  intro clause t recorded watched
  have hending : (recorded none none t).1 = .error (.defect .missingChild) := by decide +kernel
  have hlimit : (recorded (some 2) none t).1 = .error (.error (.tooComplex 2)) := by
    decide +kernel
  have hrefused : (recorded none (some (.negation .opening)) t).1 ≠
      .error (.defect .missingChild) := by
    decide +kernel
  obtain ⟨-, -, hdefect, hfirst, -⟩ := walk_eq_repaired_until_deficient t none none #[]
  obtain ⟨-, -, -, -, hsame⟩ := walk_eq_repaired_until_deficient t (some 2) none #[]
  obtain ⟨-, -, -, -, hsame'⟩ :=
    walk_eq_repaired_until_deficient t none (some (.negation .opening)) #[]
  obtain ⟨arrival, harrival⟩ := Option.isSome_iff_exists.mp (hdefect.mp hending)
  refine ⟨by decide +kernel, hending, by decide +kernel, by decide +kernel,
    ⟨arrival, harrival, (hfirst arrival harrival).1⟩, hlimit, hsame ?_, by decide +kernel,
    hsame' hrefused⟩
  rw [hlimit]
  exact nofun

end WhereClause
