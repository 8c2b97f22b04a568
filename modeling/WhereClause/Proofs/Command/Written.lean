import WhereClause.Proofs.Command.Defects
import WhereClause.Proofs.Command.Depth

/-!
# Commands on written trees

A tree may be walked as it is, or written as a JSON text and given to a command.  Nothing is lost on
the way through the text, whatever characters the tree has in its texts: the commands find exactly
what the walks find, up to a depth of 64 levels, and refuse the text of any deeper tree
(`commands_of_written`).
-/

namespace WhereClause

namespace Json

/-- The text is one of the two in which the document is written: without blanks, or on indented
lines. -/
def IsWrittenAs (document : Json) (text : String) : Prop :=
  text = document.compact ∨ text = document.indented

end Json

namespace Command

variable {σ : Type} {handle : Handler σ} {s : σ} {input : Option String} {root : Option Tree}

/-- Either text of a well-formed tree denotes this tree if it has at most 64 levels, and is refused
otherwise. -/
lemma load_of_isWrittenAs {t : Tree} (ht : t.WellFormed) {text : String}
    (htext : t.toJson.IsWrittenAs text) :
    load (some text) = if t.depth ≤ 64 then .ok (some t) else .error .notJson := by
  rcases htext with rfl | rfl
  · exact load_compact ht
  · exact load_indented ht

/-- A walk through the clause of an input has a result if the walk through the tree ends well, and
the result is the state that this walk leaves. -/
lemma walkInput_eq_ok_iff (hload : load input = .ok root) (maxDepth : Option Nat) {s' : σ} :
    walkInput handle s input maxDepth = .ok s' ↔
      (walk handle (some (levelLimit maxDepth)) root).runFrom s = (.ok (), s') := by
  rw [walkInput, hload]
  dsimp only [bind, Except.bind]
  rcases (walk handle (some (levelLimit maxDepth)) root).runFrom s with ⟨halt | _, s''⟩
  · constructor <;> intro h <;> cases h
  · constructor
    · intro h
      rw [Except.ok.inj h]
    · intro h
      rw [(Prod.mk.inj h).2]
      rfl

/-- A walk through the clause of an input fails if the walk through the tree ends early, and with
the error of this walk if its handler comes to no defect. -/
lemma walkInput_eq_error_iff (hload : load input = .ok root)
    (hhandle : ∀ call, (handle call).DefectFree) (maxDepth : Option Nat) {e : CommandError} :
    walkInput handle s input maxDepth = .error e ↔
      ∃ reason, e = .halted (.error reason) ∧
        ((walk handle (some (levelLimit maxDepth)) root).runFrom s).1 = .error (.error reason) := by
  have hwalk := Walk.defectFree_walk hhandle (wellFormed_of_load hload)
    (some (levelLimit maxDepth)) s
  rw [walkInput, hload]
  dsimp only [bind, Except.bind]
  rcases hrun : (walk handle (some (levelLimit maxDepth)) root).runFrom s with
    ⟨(reason | defect) | _, s'⟩
  · constructor
    · intro h
      exact ⟨reason, (Except.error.inj h).symm, rfl⟩
    · rintro ⟨reason', rfl, hreason⟩
      rw [Except.error.inj hreason]
      rfl
  · rw [hrun] at hwalk
    exact absurd rfl (hwalk defect)
  · constructor
    · intro h
      cases h
    · rintro ⟨_, -, h⟩
      cases h

/-- The trace of a clause is the document of what is recorded of a walk through it. -/
lemma trace_eq_ok_iff (hload : load input = .ok root) (maxDepth : Option Nat) {document : Json} :
    trace input maxDepth = .ok document ↔
      ∃ recorded : Trace, document = recorded.toJson ∧
        (walk (Trace.record none) (some (levelLimit maxDepth)) root).runFrom #[] =
          (.ok (), recorded) := by
  have hwalk (recorded : Trace) :
      walkInput (Trace.record none) #[] input maxDepth = .ok recorded ↔
        (walk (Trace.record none) (some (levelLimit maxDepth)) root).runFrom #[] =
          (.ok (), recorded) :=
    walkInput_eq_ok_iff hload maxDepth
  rw [trace]
  rcases hrun : walkInput (Trace.record none) #[] input maxDepth with e | recorded
  · constructor
    · intro h
      cases h
    · rintro ⟨recorded, -, h⟩
      cases hrun.symm.trans ((hwalk recorded).mpr h)
  · constructor
    · intro h
      exact ⟨recorded, (Except.ok.inj h).symm, (hwalk recorded).mp hrun⟩
    · rintro ⟨recorded', rfl, h⟩
      obtain rfl := Except.ok.inj (hrun.symm.trans ((hwalk recorded').mpr h))
      rfl

/-- The trace of a clause fails as the walk through it does that records the calls. -/
lemma trace_eq_error_iff (hload : load input = .ok root) (maxDepth : Option Nat)
    {e : CommandError} :
    trace input maxDepth = .error e ↔
      ∃ reason, e = .halted (.error reason) ∧
        ((walk (Trace.record none) (some (levelLimit maxDepth)) root).runFrom #[]).1 =
          .error (.error reason) := by
  rw [← walkInput_eq_error_iff hload (Trace.defectFree_record none) maxDepth, trace]
  rcases walkInput (Trace.record none) #[] input maxDepth with e' | recorded
  · change (.error e' : Except CommandError Json) = .error e ↔ _
    rw [Except.error.injEq, Except.error.injEq]
  · constructor <;> intro h <;> cases h

end Command

/-- The commands find in either text of a well-formed tree what walks find in the tree itself.  If
the tree has at most 64 levels, then the text of the clause is the one that the walk writes under
the given limit, 256 unless another is given, and the command has no text exactly if the walk ends
with an error, which is then the error of the command; the trace is the document of the events that
are recorded of the walk, and fails in the same way.  The text of a tree with more than 64 levels is
refused by both commands as not being JSON. -/
theorem commands_of_written {t : Tree} (ht : t.WellFormed) {text : String}
    (htext : t.toJson.IsWrittenAs text) (maxDepth : Option Nat) :
    let written := (walk Rendering.render (some (maxDepth.getD 256)) (some t)).runFrom ""
    let recorded := (walk (Trace.record none) (some (maxDepth.getD 256)) (some t)).runFrom #[]
    (t.depth ≤ 64 →
      (∀ clause, Command.clauseText (some text) maxDepth = .ok clause ↔
        written = (.ok (), clause)) ∧
      (∀ e, Command.clauseText (some text) maxDepth = .error e ↔
        ∃ reason, e = .halted (.error reason) ∧ written.1 = .error (.error reason)) ∧
      (∀ document, Command.trace (some text) maxDepth = .ok document ↔
        ∃ events : Trace, document = events.toJson ∧ recorded = (.ok (), events)) ∧
      ∀ e, Command.trace (some text) maxDepth = .error e ↔
        ∃ reason, e = .halted (.error reason) ∧ recorded.1 = .error (.error reason)) ∧
    (64 < t.depth →
      Command.clauseText (some text) maxDepth = .error .notJson ∧
        Command.trace (some text) maxDepth = .error .notJson) := by
  intro written recorded
  have hload := Command.load_of_isWrittenAs ht htext
  refine ⟨fun hdepth => ?_, fun hdepth => ?_⟩
  · rw [if_pos hdepth] at hload
    refine ⟨fun clause => ?_, fun e => ?_, fun document => ?_, fun e => ?_⟩
    · exact Command.walkInput_eq_ok_iff hload maxDepth
    · exact Command.walkInput_eq_error_iff hload Rendering.defectFree_render maxDepth
    · exact Command.trace_eq_ok_iff hload maxDepth
    · exact Command.trace_eq_error_iff hload maxDepth
  · rw [if_neg (Nat.not_le.mpr hdepth)] at hload
    refine ⟨Command.walkInput_of_load_eq_error _ _ hload maxDepth, ?_⟩
    rw [Command.trace, Command.walkInput_of_load_eq_error _ _ hload]
    rfl

/-- A null test of a column whose name has a quote, a backslash, a new line and a letter beyond
ASCII is written on indented lines and comes back as a clause and as a trace; with a limit of one
level both commands fail as the walks do.  A column under 64 negations has 65 levels. -/
theorem commands_of_written_of_escapes :
    let t : Tree := .branch (.nullTest .isNull) [.column "a\"\\\nß"]
    let text := t.toJson.indented
    let deep := Tree.negations 64
    t.WellFormed ∧ t.toJson.IsWrittenAs text ∧ t.depth ≤ 64 ∧
      Command.clauseText (some text) none = .ok "\"a\"\"\\\nß\" IS NULL" ∧
      (∃ document, Command.trace (some text) none = .ok document) ∧
      Command.clauseText (some text) (some 1) = .error (.halted (.error (.tooComplex 1))) ∧
      Command.trace (some text) (some 1) = .error (.halted (.error (.tooComplex 1))) ∧
      deep.WellFormed ∧ 64 < deep.depth ∧
      Command.trace (some deep.toJson.compact) (some 100) = .error .notJson := by
  intro t text deep
  have ht : t.WellFormed := by
    simp [t, Tree.wellFormed_node, Tree.branch, Tree.column, Tree.leaf, Tag.Admits, Tag.arity?,
      Arity.Allows]
  have hdeep : deep.WellFormed := Tree.wellFormed_negations 64
  have hdepth : 64 < deep.depth := by
    rw [Tree.depth_negations]
    decide
  have htext : t.toJson.IsWrittenAs text := .inr rfl
  obtain ⟨hclause, -, htrace, -⟩ := (commands_of_written ht htext none).1 (by decide)
  obtain ⟨-, hclause', -, htrace'⟩ := (commands_of_written ht htext (some 1)).1 (by decide)
  obtain ⟨-, hrefused⟩ := (commands_of_written hdeep (.inl rfl) (some 100)).2 hdepth
  exact ⟨ht, htext, by decide, (hclause _).mpr rfl, ⟨_, (htrace _).mpr ⟨_, rfl, rfl⟩⟩,
    (hclause' _).mpr ⟨_, rfl, rfl⟩, (htrace' _).mpr ⟨_, rfl, rfl⟩, hdeep, hdepth, hrefused⟩

end WhereClause
