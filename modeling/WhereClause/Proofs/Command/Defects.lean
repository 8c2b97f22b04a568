import WhereClause.Command
import WhereClause.Proofs.Rendering.Operand
import WhereClause.Proofs.Tree.Document
import WhereClause.Proofs.Walk.Levels

/-!
# Commands and defects

A command has an answer or an error for every input, and never ends at a defect
(`commands_defectFree`).  Each of the two defects is excluded by an invariant of what a walk is
given:

* no child is missing, because a tree that is read from a document is well formed, and a walk
  through a well-formed tree ends at a defect only if its handler does
  (`Walk.exists_call_of_defect`);
* no value is without a text, because a spelling never has a value without one
  (`Literal.exists_text?_of_ofTree`), so writing a clause ends at no defect
  (`Rendering.defectFree_render`).
-/

namespace WhereClause

/-! ## Freedom from defects -/

/-- The outcome is a result or an error, and no defect. -/
def DefectFree {α : Type} (outcome : Except Halt α) : Prop :=
  ∀ d, outcome ≠ .error (.defect d)

namespace DefectFree

variable {α β : Type}

/-- A result is no defect. -/
lemma ok (x : α) : DefectFree (.ok x) :=
  fun _ h => nomatch h

/-- An error is no defect. -/
lemma error (e : QueryError) : DefectFree (α := α) (.error (.error e)) :=
  fun _ h => nomatch h

/-- A sequence is free from defects if its parts are. -/
lemma bind {x : Except Halt α} {f : α → Except Halt β} (hx : DefectFree x)
    (hf : ∀ a, DefectFree (f a)) : DefectFree (x >>= f) := by
  rcases x with halt | a
  · exact fun d h => hx d (congrArg _ (Except.error.inj h))
  · exact hf a

end DefectFree

namespace Action

variable {σ α β : Type}

/-- The action ends at no defect, whatever state it starts from. -/
def DefectFree (action : Action σ α) : Prop :=
  ∀ s, WhereClause.DefectFree (action.runFrom s).1

namespace DefectFree

/-- Doing nothing ends at no defect. -/
lemma pure (x : α) : DefectFree (Pure.pure x : Action σ α) :=
  fun _ => .ok x

/-- Changing the state ends at no defect. -/
lemma modify (f : σ → σ) : DefectFree (modify f : Action σ PUnit) :=
  fun _ => .ok _

/-- Replacing the state ends at no defect. -/
lemma set (s : σ) : DefectFree (set s : Action σ PUnit) :=
  fun _ => .ok _

/-- Refusing to go on ends at no defect. -/
lemma throw (e : QueryError) : DefectFree (MonadExcept.throw (.error e) : Action σ α) :=
  fun _ => .error e

/-- A sequence ends at no defect if its parts do not. -/
lemma bind {a : Action σ α} {f : α → Action σ β} (ha : a.DefectFree) (hf : ∀ x, (f x).DefectFree) :
    (a >>= f).DefectFree := by
  intro s
  have hfirst := ha s
  rw [runFrom_bind]
  rcases hrun : a.runFrom s with ⟨halt | x, s'⟩
  · rw [hrun] at hfirst
    exact fun d h => hfirst d (congrArg _ (Except.error.inj h))
  · exact hf x s'

/-- Doing something for each item ends at no defect if it does not for any item. -/
lemma forM {γ : Type} {xs : List γ} {f : γ → Action σ PUnit} (h : ∀ x ∈ xs, (f x).DefectFree) :
    (xs.forM f).DefectFree := by
  induction xs with
  | nil => exact .pure _
  | cons x xs ih =>
    obtain ⟨hhead, htail⟩ := List.forall_mem_cons.mp h
    exact hhead.bind fun _ => ih htail

end DefectFree

end Action

/-! ## Walks -/

/-- A replay that ends early ends as it is told to, or as its handler does on one of the calls. -/
lemma exists_call_of_replay_eq_error {σ : Type} {handle : Handler σ} {ending : Except Halt Unit}
    {calls : List Call} {s : σ} {halt : Halt}
    (h : (replay handle ending calls s).1 = .error halt) :
    ending = .error halt ∨ ∃ call ∈ calls, ∃ s', ((handle call).runFrom s').1 = .error halt := by
  induction calls generalizing s with
  | nil => exact .inl h
  | cons call calls ih =>
    rw [replay] at h
    rcases hcall : (handle call).runFrom s with ⟨reason | _, s'⟩
    · rw [hcall] at h
      obtain rfl := Except.error.inj h
      exact .inr ⟨call, List.mem_cons_self, s, by rw [hcall]⟩
    · rw [hcall] at h
      refine (ih h).imp_right ?_
      rintro ⟨later, hmem, hlater⟩
      exact ⟨later, List.mem_cons_of_mem _ hmem, hlater⟩

namespace Walk

/-- Looking at a level ends at no defect. -/
lemma defectFree_levelScript (limit : Option Nat) (level : Nat) :
    DefectFree (levelScript limit level).ending := by
  rcases within_or_beyond limit level with h | ⟨l, rfl, h⟩
  · rw [ending_levelScript_of_le h]
    exact .ok ()
  · rw [ending_levelScript_of_lt h]
    exact .error _

/-- A walk through a well-formed tree finds all the children that it looks for: if it ends at a
defect, then because its handler did so on one of the calls. -/
theorem exists_call_of_defect {t : Tree} (ht : t.WellFormed) {σ : Type} {handle : Handler σ}
    {limit : Option Nat} {s : σ} {d : Defect}
    (h : ((walk handle limit (some t)).runFrom s).1 = .error (.defect d)) :
    ∃ call ∈ (walkScript limit (some t)).calls, ∃ s',
      ((handle call).runFrom s').1 = .error (.defect d) := by
  rw [runFrom_walk_eq_replay] at h
  refine (exists_call_of_replay_eq_error h).resolve_left ?_
  rw [ending_walkScript, ending_visitScript_of_wellFormed ht limit 0]
  exact defectFree_levelScript _ _ d

/-- A walk ends at no defect if its handler does not and its tree, if there is one, is well
formed. -/
lemma defectFree_walk {σ : Type} {handle : Handler σ} (h : ∀ call, (handle call).DefectFree)
    {root : Option Tree} (hroot : ∀ t ∈ root, t.WellFormed) (limit : Option Nat) :
    (walk handle limit root).DefectFree := by
  cases root with
  | none => exact .pure ()
  | some t =>
    intro s d hdefect
    obtain ⟨call, -, s', hcall⟩ := exists_call_of_defect (hroot t rfl) hdefect
    exact h call s' d hcall

end Walk

/-! ## Handlers -/

/-- Recording ends at no defect. -/
lemma Trace.defectFree_record (refused : Option Hook) (call : Call) :
    (record refused call).DefectFree := by
  refine (Action.DefectFree.modify _).bind fun _ => ?_
  split
  · exact .throw _
  · exact .pure _

namespace Rendering

/-- The text of a literal is free from defects. -/
lemma defectFree_literalText (t : Tree) : DefectFree (literalText t) := by
  intro d hd
  obtain ⟨e, he, -⟩ := literalText_eq_error_iff.mp hd
  exact nomatch he

/-- The text of an operand is free from defects. -/
lemma defectFree_operandText (t : Tree) : DefectFree (operandText t) := by
  obtain ⟨tag, text, children⟩ := t
  cases tag with
  | name kind => exact .ok _
  | literal kind => exact defectFree_literalText _
  | list =>
    intro d hd
    obtain ⟨e, he, -⟩ := listText_eq_error_iff.mp hd
    exact nomatch he
  | _ => exact .error _

/-- Writing a text that is free from defects ends at no defect. -/
lemma defectFree_writeOrHalt {text : Except Halt String} (h : DefectFree text) :
    (writeOrHalt text).DefectFree := by
  intro s
  rcases text with halt | text
  · exact fun d hd => h d (congrArg _ (Except.error.inj hd))
  · exact .ok ()

/-- Writing a clause ends at no defect. -/
theorem defectFree_render (call : Call) : (render call).DefectFree := by
  have hwrite (text : String) : (write text).DefectFree := .modify _
  cases call with
  | start root => exact .set _
  | stop => exact .pure ()
  | binary op node left right =>
    refine (hwrite _).bind fun _ => defectFree_writeOrHalt ?_
    exact (defectFree_operandText left).bind fun _ =>
      (defectFree_operandText right).bind fun _ => .ok _
  | connective op phase node left right => cases phase <;> exact hwrite _
  | negation phase node operand =>
    cases phase with
    | opening => exact .pure ()
    | middle | closing => exact hwrite _
  | nullTest test node operand =>
    exact defectFree_writeOrHalt ((defectFree_operandText operand).bind fun _ => .ok _)
  | function op node column argument =>
    refine defectFree_writeOrHalt ((defectFree_operandText argument).bind fun _ => ?_)
    cases column with
    | none => exact .ok _
    | some column => exact (defectFree_operandText column).bind fun _ => .ok _
  | score node => exact hwrite _

end Rendering

/-! ## Commands -/

namespace Command

/-- The clause that an input denotes is well formed, unless it is absent. -/
lemma wellFormed_of_load {input : Option String} {root : Option Tree} (h : load input = .ok root) :
    ∀ t ∈ root, t.WellFormed := by
  unfold load at h
  split at h
  · exact nomatch h
  · split at h
    · exact nomatch h
    · obtain rfl := Except.ok.inj h
      exact fun t ht => nomatch ht
    · split at h
      · rename_i t hread
        obtain rfl := Except.ok.inj h
        exact fun u hu => Option.some.inj hu ▸ Tree.wellFormed_of_ofJson hread
      · exact nomatch h

/-- An input that denotes no clause is not walked through. -/
lemma load_ne_halted (input : Option String) (halt : Halt) :
    load input ≠ .error (.halted halt) := by
  unfold load
  repeat' split
  all_goals exact fun h => nomatch h

/-- A walk through an input ends at no defect if its handler does not. -/
lemma walkInput_ne_defect {σ : Type} {handle : Handler σ} (h : ∀ call, (handle call).DefectFree)
    (s : σ) (input : Option String) (maxDepth : Option Nat) (d : Defect) :
    walkInput handle s input maxDepth ≠ .error (.halted (.defect d)) := by
  rw [walkInput]
  rcases hload : load input with e | root
  · intro hdefect
    obtain rfl := Except.error.inj hdefect
    exact load_ne_halted input _ hload
  · have hwalk := Walk.defectFree_walk h (wellFormed_of_load hload) (some (levelLimit maxDepth)) s
    dsimp only [bind, Except.bind]
    rcases hrun : (walk handle (some (levelLimit maxDepth)) root).runFrom s with ⟨halt | _, s'⟩
    · rw [hrun] at hwalk
      intro hdefect
      obtain rfl := CommandError.halted.inj (Except.error.inj hdefect)
      exact hwalk d rfl
    · exact fun hdefect => nomatch hdefect

end Command

/-- No input brings a command to a defect.  For every input, or none, and every limit, the trace and
the text of the clause are an answer or an error.  A tree that is read from a document is well
formed, and a walk through it, with any handler and limit, misses no child: it ends at a defect only
if the handler itself does on one of the calls.  Whatever spelling a literal has, a value that is
read from it has a text, those of timestamps included, so that writing a literal meets no value
without a text. -/
theorem commands_defectFree :
    (∀ (input : Option String) (maxDepth : Option Nat) (d : Defect),
      Command.trace input maxDepth ≠ .error (.halted (.defect d)) ∧
      Command.clauseText input maxDepth ≠ .error (.halted (.defect d))) ∧
    (∀ (document : Json) (t : Tree), Tree.ofJson document = .ok t → t.WellFormed ∧
      ∀ {σ : Type} (handle : Handler σ) (limit : Option Nat) (s : σ) (d : Defect),
        ((walk handle limit (some t)).runFrom s).1 = .error (.defect d) →
        ∃ call ∈ (Walk.walkScript limit (some t)).calls, ∃ s',
          ((handle call).runFrom s').1 = .error (.defect d)) ∧
    (∀ (t : Tree) (value : Literal), Literal.ofTree t = .ok value →
      ∃ text, value.text? = some text) ∧
    ∀ (t : Tree) (d : Defect), Rendering.literalText t ≠ .error (.defect d) := by
  refine ⟨fun input maxDepth d => ⟨fun h => ?_, ?_⟩, fun document t hread => ?_,
    fun t value => Literal.exists_text?_of_ofTree, Rendering.defectFree_literalText⟩
  · rw [Command.trace] at h
    rcases hwalk : Command.walkInput (Trace.record none) #[] input maxDepth with e | trace
    · rw [hwalk] at h
      obtain rfl := Except.error.inj h
      exact Command.walkInput_ne_defect (Trace.defectFree_record none) #[] input maxDepth d hwalk
    · rw [hwalk] at h
      exact nomatch h
  · exact Command.walkInput_ne_defect Rendering.defectFree_render "" input maxDepth d
  · have hwell := Tree.wellFormed_of_ofJson hread
    exact ⟨hwell, fun handle limit s d => Walk.exists_call_of_defect hwell⟩

/-- A comparison with a leap second in the west of Greenwich is read from its document.  The handler
that ends at a defect itself is to blame when a walk through it does, and the timestamp has a
text. -/
theorem commands_defectFree_of_leap_second :
    let stamp := Tree.literal .timestamp "TIMESTAMP '2016-12-31T18:59:60-05:00'"
    let t : Tree := .branch (.binary .equal) [.column "t", stamp]
    let value := Literal.timestamp ⟨⟨2016, 12, 31⟩, 18, 59, 59, 999999999, -18000⟩
    let handle : Handler Unit := fun _ => throw (.defect .missingChild)
    Tree.ofJson t.toJson = .ok t ∧ t.WellFormed ∧
      ((walk handle (some 2) (some t)).runFrom ()).1 = .error (.defect .missingChild) ∧
      (∃ call ∈ (Walk.walkScript (some 2) (some t)).calls, ∃ s',
        ((handle call).runFrom s').1 = .error (.defect .missingChild)) ∧
      Literal.ofTree stamp = .ok value ∧ ∃ text, value.text? = some text := by
  intro stamp t value handle
  obtain ⟨-, hread, hvalue, -⟩ := commands_defectFree
  have hdocument : Tree.ofJson t.toJson = .ok t := by decide +kernel
  have hstamp : Literal.ofTree stamp = .ok value := by decide +kernel
  have hdefect : ((walk handle (some 2) (some t)).runFrom ()).1 =
      .error (.defect .missingChild) := rfl
  obtain ⟨hwell, hcause⟩ := hread t.toJson t hdocument
  exact ⟨hdocument, hwell, hdefect, hcause handle (some 2) () .missingChild hdefect, hstamp,
    hvalue stamp value hstamp⟩

end WhereClause
