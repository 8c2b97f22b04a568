import WhereClause.Proofs.Command.Defects
import WhereClause.Proofs.Rendering.Refusal
import WhereClause.Proofs.Walk.Replay

/-!
# The agreement of the commands

The trace and the text of a clause come from two walks through the same tree, and a walk can be
refused by its limit or by its handler.  A recorder refuses nothing, so a trace fails at the limit
only (`Command.trace_of_load`); the other handler can refuse an operand before the walk gets there,
but no walk that is refused by the limit has a text.  `commands_agree` draws the comparison.
-/

namespace WhereClause

/-! ## Walks through well-formed trees -/

/-- A replay ends well only if it is told to. -/
lemma ending_of_replay_eq_ok {σ : Type} {handle : Handler σ} {ending : Except Halt Unit}
    {calls : List Call} {s : σ} (h : (replay handle ending calls s).1 = .ok ()) :
    ending = .ok () := by
  induction calls generalizing s with
  | nil => exact h
  | cons call calls ih =>
    rw [replay] at h
    rcases hcall : (handle call).runFrom s with ⟨_ | _, s'⟩
    · rw [hcall] at h
      cases h
    · rw [hcall] at h
      exact ih h

namespace Walk

/-- The script of a walk through a well-formed tree, or through none, ends well unless the levels
that it goes down to are beyond the limit. -/
lemma ending_walkScript_of_wellFormed {root : Option Tree} (h : ∀ t ∈ root, t.WellFormed)
    (limit : Nat) :
    (walkScript (some limit) root).ending = .ok () ∨
      (walkScript (some limit) root).ending = .error (.error (.tooComplex limit)) ∧
        ∃ t ∈ root, limit < t.levels := by
  cases root with
  | none => exact .inl rfl
  | some t =>
    rw [ending_walkScript, ending_visitScript_of_wellFormed (h t rfl) (some limit) 0, Nat.zero_add]
    rcases Nat.lt_or_ge limit t.levels with hlevels | hlevels
    · exact .inr ⟨ending_levelScript_of_lt hlevels, t, rfl, hlevels⟩
    · exact .inl (ending_levelScript_of_le (by simpa using hlevels))

end Walk

/-! ## Commands -/

namespace Command

variable {input : Option String} {root : Option Tree}

/-- Without a clause no walk is made. -/
lemma walkInput_of_load_eq_error {σ : Type} (handle : Handler σ) (s : σ) {e : CommandError}
    (h : load input = .error e) (maxDepth : Option Nat) :
    walkInput handle s input maxDepth = .error e := by
  rw [walkInput, h]
  rfl

/-- A walk through the clause of an input is the replay of its script. -/
lemma walkInput_of_load {σ : Type} (handle : Handler σ) (s : σ) (h : load input = .ok root)
    (maxDepth : Option Nat) :
    let script := Walk.walkScript (some (levelLimit maxDepth)) root
    walkInput handle s input maxDepth =
      match replay handle script.ending script.calls s with
      | (.ok (), s) => .ok s
      | (.error halt, _) => .error (.halted halt) := by
  intro script
  rw [walkInput, h, ← Walk.runFrom_walk_eq_replay]
  dsimp only [bind, Except.bind]
  rcases (walk handle (some (levelLimit maxDepth)) root).runFrom s with ⟨_ | _, s'⟩ <;> rfl

/-- An input denotes no clause if it is missing, if it is not JSON, or if its document is no
tree. -/
lemma load_eq_error {e : CommandError} (h : load input = .error e) :
    e = .noInput ∨ e = .notJson ∨ ∃ fault, e = .notATree fault := by
  unfold load at h
  split at h
  · exact .inl (Except.error.inj h).symm
  · split at h
    · exact .inr (.inl (Except.error.inj h).symm)
    · exact nomatch h
    · split at h
      · exact nomatch h
      · exact .inr (.inr ⟨_, (Except.error.inj h).symm⟩)

/-- The trace of a clause is the one of its script, and fails if the script does not end well. -/
lemma trace_of_load (h : load input = .ok root) (maxDepth : Option Nat) :
    let script := Walk.walkScript (some (levelLimit maxDepth)) root
    trace input maxDepth =
      match script.ending with
      | .ok _ => .ok (Trace.toJson (script.calls.map Event.ofCall).toArray)
      | .error halt => .error (.halted halt) := by
  intro script
  rw [trace, walkInput_of_load _ _ h, Trace.replay_record_none]
  rcases script.ending with halt | _
  · rfl
  · simp [script, bind, Except.bind, pure, Except.pure]

/-- If the trace of a clause fails, then because the clause has more levels than the limit. -/
lemma tooComplex_of_trace_eq_error (h : load input = .ok root) {maxDepth : Option Nat}
    {e : CommandError} (he : trace input maxDepth = .error e) :
    let limit := levelLimit maxDepth
    e = .halted (.error (.tooComplex limit)) ∧
      (Walk.walkScript (some limit) root).ending = .error (.error (.tooComplex limit)) ∧
      ∃ t ∈ root, limit < t.levels := by
  intro limit
  rw [trace_of_load h] at he
  rcases Walk.ending_walkScript_of_wellFormed (wellFormed_of_load h) limit with hok | hbeyond
  · rw [hok] at he
    exact nomatch he
  · rw [hbeyond.1] at he
    exact ⟨(Except.error.inj he).symm, hbeyond⟩

/-- If the text of a clause fails, then because the clause has more levels than the limit, or
because an operand of a call that the walk makes has no text. -/
lemma exists_reason_of_clauseText_eq_error (h : load input = .ok root) {maxDepth : Option Nat}
    {e : CommandError} (he : clauseText input maxDepth = .error e) :
    let limit := levelLimit maxDepth
    ∃ reason, e = .halted (.error reason) ∧
      ((reason = .tooComplex limit ∧ ∃ t ∈ root, limit < t.levels) ∨
        ∃ call ∈ (Walk.walkScript (some limit) root).calls, ∃ operand,
          some operand ∈ call.operands ∧
            Rendering.operandText operand = .error (.error reason)) := by
  intro limit
  rw [clauseText, walkInput_of_load _ _ h] at he
  split at he
  · exact nomatch he
  · rename_i halt written hreplay
    obtain rfl := Except.error.inj he
    rcases exists_call_of_replay_eq_error (congrArg Prod.fst hreplay) with hending | hcall
    · rcases Walk.ending_walkScript_of_wellFormed (wellFormed_of_load h) limit with hok | hbeyond
      · exact nomatch hending.symm.trans hok
      · obtain rfl := Except.error.inj (hending.symm.trans hbeyond.1)
        exact ⟨_, rfl, .inl ⟨rfl, hbeyond.2⟩⟩
    · obtain ⟨call, hmem, written', hcall⟩ := hcall
      obtain ⟨operand, hoperand, htext⟩ := Rendering.exists_operand_of_render_eq_error hcall
      cases halt with
      | error reason => exact ⟨reason, rfl, .inr ⟨call, hmem, operand, hoperand, htext⟩⟩
      | defect d => exact absurd htext (Rendering.defectFree_operandText operand d)

/-- If a clause has a text, then its walk is within the limit. -/
lemma ending_of_clauseText_eq_ok (h : load input = .ok root) {maxDepth : Option Nat} {text : String}
    (htext : clauseText input maxDepth = .ok text) :
    (Walk.walkScript (some (levelLimit maxDepth)) root).ending = .ok () := by
  rw [clauseText, walkInput_of_load _ _ h] at htext
  split at htext
  · rename_i written hreplay
    exact ending_of_replay_eq_ok (congrArg Prod.fst hreplay)
  · exact nomatch htext

end Command

/-- The two commands agree.  An input that denotes no clause makes both of them fail, with the same
error, for the lack of an input, of JSON or of a tree.  For an input that denotes one, the trace can
fail only because the clause has more levels than the limit, which is 256 unless another is given.
Then the text fails as well, for the same reason or for an operand that the walk came to before; and
the text never fails for any other reason.  If there is a text, there is a trace. -/
theorem commands_agree (input : Option String) (maxDepth : Option Nat) :
    (∀ e, Command.load input = .error e →
      (e = .noInput ∨ e = .notJson ∨ ∃ fault, e = .notATree fault) ∧
        Command.trace input maxDepth = .error e ∧ Command.clauseText input maxDepth = .error e) ∧
    ∀ root, Command.load input = .ok root →
      let limit := maxDepth.getD 256
      let refused (reason : QueryError) : Prop := reason = .tooComplex limit ∨
        ∃ call ∈ (Walk.walkScript (some limit) root).calls, ∃ operand,
          some operand ∈ call.operands ∧ Rendering.operandText operand = .error (.error reason)
      (∀ e, Command.trace input maxDepth = .error e →
        e = .halted (.error (.tooComplex limit)) ∧
          ∃ reason, Command.clauseText input maxDepth = .error (.halted (.error reason)) ∧
            refused reason) ∧
      (∀ e, Command.clauseText input maxDepth = .error e →
        ∃ reason, e = .halted (.error reason) ∧ refused reason) ∧
      ∀ text, Command.clauseText input maxDepth = .ok text →
        ∃ document, Command.trace input maxDepth = .ok document := by
  refine ⟨fun e he => ⟨Command.load_eq_error he, ?_, ?_⟩, fun root hload => ?_⟩
  · rw [Command.trace, Command.walkInput_of_load_eq_error _ _ he]
    rfl
  · exact Command.walkInput_of_load_eq_error _ _ he maxDepth
  intro limit refused
  have htext : ∀ e, Command.clauseText input maxDepth = .error e →
      ∃ reason, e = .halted (.error reason) ∧ refused reason := by
    intro e he
    obtain ⟨reason, rfl, hreason⟩ := Command.exists_reason_of_clauseText_eq_error hload he
    exact ⟨reason, rfl, hreason.imp_left And.left⟩
  refine ⟨fun e he => ?_, htext, fun text hok => ?_⟩
  · obtain ⟨rfl, hending, -⟩ := Command.tooComplex_of_trace_eq_error hload he
    rcases hclause : Command.clauseText input maxDepth with e | text
    · obtain ⟨reason, rfl, hreason⟩ := htext e hclause
      exact ⟨rfl, reason, rfl, hreason⟩
    · have hwithin := Command.ending_of_clauseText_eq_ok hload hclause
      cases hending.symm.trans hwithin
  · have hending := Command.ending_of_clauseText_eq_ok hload hok
    exact ⟨_, by rw [Command.trace_of_load hload, hending]⟩

/-- A null test of a function has two levels.  With a limit of one level the trace fails at the
limit, and the text before that, at the operand.  A null test of a column has a text and a trace,
and without an input both are missing. -/
theorem commands_agree_of_null_test :
    let input := "\x7b\"tag\":\"IS_NULL\",\"children\":[\x7b\"tag\":\"SCORE\"\x7d]\x7d"
    let valid := "\x7b\"tag\":\"IS_NULL\",\"children\":[\x7b\"tag\":\"COL\",\"text\":\"a\"\x7d]\x7d"
    let t : Tree := .branch (.nullTest .isNull) [.branch .score []]
    let u : Tree := .branch (.nullTest .isNull) [.column "a"]
    Command.load none = .error .noInput ∧ Command.trace none none = .error .noInput ∧
      Command.load (some input) = .ok (some t) ∧
      Command.trace (some input) (some 1) = .error (.halted (.error (.tooComplex 1))) ∧
      (∃ reason, Command.clauseText (some input) (some 1) = .error (.halted (.error reason))) ∧
      Command.clauseText (some input) (some 1) =
        .error (.halted (.error (.rejected (.operand .score)))) ∧
      Command.load (some valid) = .ok (some u) ∧
      Command.clauseText (some valid) none = .ok "a IS NULL" ∧
      ∃ document, Command.trace (some valid) none = .ok document := by
  intro input valid t u
  have hnone : Command.load none = .error .noInput := rfl
  have hload : Command.load (some input) = .ok (some t) := by decide +kernel
  have hvalid : Command.load (some valid) = .ok (some u) := by decide +kernel
  have htrace : Command.trace (some input) (some 1) =
      .error (.halted (.error (.tooComplex 1))) := by
    rw [Command.trace_of_load hload]
    rfl
  have htext : Command.clauseText (some valid) none = .ok "a IS NULL" := by decide +kernel
  obtain ⟨hfailed, -⟩ := commands_agree none none
  obtain ⟨-, hloaded⟩ := commands_agree (some input) (some 1)
  obtain ⟨-, hwritten⟩ := commands_agree (some valid) none
  obtain ⟨-, reason, hreason, -⟩ := (hloaded (some t) hload).1 _ htrace
  exact ⟨hnone, (hfailed .noInput hnone).2.1, hload, htrace, ⟨reason, hreason⟩,
    by decide +kernel, hvalid, htext, (hwritten (some u) hvalid).2.2 _ htext⟩

end WhereClause
