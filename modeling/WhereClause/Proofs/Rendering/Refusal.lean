import WhereClause.Proofs.Sequence
import WhereClause.Proofs.Walk.History

/-!
# Refused calls

Writing a clause refuses a call only for an operand that has no text
(`Rendering.exists_operand_of_render_eq_error`).  What a refused call leaves behind is the text that
was there before, and behind it the word, if any, that the operator has in front of its left
operand: that word is written before the operands are looked at (`refused_call_keeps_text_iff`).
-/

namespace WhereClause

/-! ## What writing refuses -/

namespace Rendering

variable {halt : Halt}

/-- Writing a text ends well. -/
lemma runFrom_write (text written : String) :
    (write text).runFrom written = (.ok (), written ++ text) := rfl

/-- Writing a text that may be missing fails if it is. -/
lemma eq_error_of_writeOrHalt {text : Except Halt String} {written : String}
    (h : ((writeOrHalt text).runFrom written).1 = .error halt) : text = .error halt := by
  cases text with
  | error halt' => exact congrArg _ (Except.error.inj h)
  | ok text => exact nomatch h

/-- A binary operator is refused for one of its operands. -/
lemma eq_error_of_binaryText {op : BinaryOp} {left right : Tree}
    (h : binaryText op left right = .error halt) :
    operandText left = .error halt ∨ operandText right = .error halt := by
  rcases eq_error_or_of_bind_eq_error h with hleft | ⟨_, -, h⟩
  · exact .inl hleft
  · rcases eq_error_or_of_bind_eq_error h with hright | ⟨_, -, h⟩
    · exact .inr hright
    · exact nomatch h

/-- A null test is refused for its operand. -/
lemma eq_error_of_nullTestPredicate {test : NullTest} {operand : Tree}
    (h : nullTestPredicate test operand = .error halt) : operandText operand = .error halt := by
  rcases eq_error_or_of_bind_eq_error h with hoperand | ⟨_, -, h⟩
  · exact hoperand
  · exact nomatch h

/-- A function is refused for its argument or for its column. -/
lemma eq_error_of_functionPredicate {op : FunctionOp} {column : Option Tree} {argument : Tree}
    (h : functionPredicate op column argument = .error halt) :
    ∃ operand, some operand ∈ [column, some argument] ∧ operandText operand = .error halt := by
  rcases eq_error_or_of_bind_eq_error h with hargument | ⟨_, -, h⟩
  · exact ⟨argument, by simp, hargument⟩
  · cases column with
    | none => exact nomatch h
    | some column =>
      rcases eq_error_or_of_bind_eq_error h with hcolumn | ⟨_, -, h⟩
      · exact ⟨column, by simp, hcolumn⟩
      · exact nomatch h

/-- Writing refuses a call only for an operand that has no text, and for the reason why it has
none. -/
theorem exists_operand_of_render_eq_error {call : Call} {written : String}
    (h : ((render call).runFrom written).1 = .error halt) :
    ∃ operand, some operand ∈ call.operands ∧ operandText operand = .error halt := by
  cases call with
  | start root => exact nomatch h
  | stop => exact nomatch h
  | binary op node left right =>
    rw [render, Action.runFrom_bind_of_ok (runFrom_write _ _)] at h
    rcases eq_error_of_binaryText (eq_error_of_writeOrHalt h) with hleft | hright
    · exact ⟨left, by simp [Call.operands], hleft⟩
    · exact ⟨right, by simp [Call.operands], hright⟩
  | connective op phase node left right => cases phase <;> exact nomatch h
  | negation phase node operand => cases phase <;> exact nomatch h
  | nullTest test node operand =>
    exact ⟨operand, List.mem_singleton_self _,
      eq_error_of_nullTestPredicate (eq_error_of_writeOrHalt h)⟩
  | function op node column argument =>
    exact eq_error_of_functionPredicate (eq_error_of_writeOrHalt h)
  | score node => exact nomatch h

end Rendering

/-! ## What a refused call leaves behind -/

namespace Rendering

/-- What is written for a call before its operands are looked at. -/
def leadOf : Call → String
  | .binary op .. => leadText op
  | _ => ""

/-- Something is written before the operands are looked at for the two membership tests of the
values of a column, and for no other call. -/
lemma leadOf_eq_ite (call : Call) :
    leadOf call =
      if call.hook = .binary .anyInList ∨ call.hook = .binary .anyNotInList then "ANY "
      else "" := by
  cases call with
  | binary op node left right => cases op <;> rfl
  | _ => rfl

/-- Writing a text that may be missing changes nothing if it is. -/
lemma state_of_writeOrHalt_eq_error {text : Except Halt String} {written : String} {halt : Halt}
    (h : ((writeOrHalt text).runFrom written).1 = .error halt) :
    ((writeOrHalt text).runFrom written).2 = written := by
  rw [eq_error_of_writeOrHalt h]
  rfl

/-- A refused call leaves the text that was there before it, and behind it what is written before
the operands are looked at. -/
theorem state_of_render_eq_error {call : Call} {written : String} {halt : Halt}
    (h : ((render call).runFrom written).1 = .error halt) :
    ((render call).runFrom written).2 = written ++ leadOf call := by
  cases call with
  | start root => exact nomatch h
  | stop => exact nomatch h
  | binary op node left right =>
    rw [render, Action.runFrom_bind_of_ok (runFrom_write _ _)] at h ⊢
    exact state_of_writeOrHalt_eq_error h
  | connective op phase node left right => cases phase <;> exact nomatch h
  | negation phase node operand => cases phase <;> exact nomatch h
  | nullTest test node operand =>
    exact (state_of_writeOrHalt_eq_error h).trans String.append_empty.symm
  | function op node column argument =>
    exact (state_of_writeOrHalt_eq_error h).trans String.append_empty.symm
  | score node => exact nomatch h

end Rendering

/-- A refused call leaves the text as it was before the call, whatever has been written by then, if
and only if it is not one of the two membership tests of the values of a column.  Those two leave
the word behind that stands in front of their left operand. -/
theorem refused_call_keeps_text_iff {call : Call} {written : String} {halt : Halt}
    (h : ((Rendering.render call).runFrom written).1 = .error halt) :
    let after := ((Rendering.render call).runFrom written).2
    (after = written ↔
      call.hook ≠ .binary .anyInList ∧ call.hook ≠ .binary .anyNotInList) ∧
    (after ≠ written → after = written ++ "ANY ") := by
  intro after
  have hafter : after = written ++ Rendering.leadOf call := Rendering.state_of_render_eq_error h
  have hsame : after = written ↔ Rendering.leadOf call = "" := by
    rw [hafter, String.append_eq_left_iff]
  rw [Rendering.leadOf_eq_ite] at hafter hsame
  split_ifs at hafter hsame with hany
  · refine ⟨?_, fun _ => hafter⟩
    rw [hsame, ← not_or]
    exact ⟨fun hempty => absurd hempty (by decide), fun hother => absurd hany hother⟩
  · rw [not_or] at hany
    have hkept : after = written := hsame.mpr rfl
    exact ⟨⟨fun _ => hany, fun _ => hkept⟩, fun hne => absurd hkept hne⟩

/-- A list whose only item is no number is refused as an operand.  A comparison of the list with the
values of a column leaves the text alone, and a membership test of these values leaves its word
behind. -/
theorem refused_call_keeps_text_iff_of_malformed_item :
    let items : Tree := .list [.literal .number "7x"]
    let equalAny : Call := .binary .equalAny (.branch (.binary .equalAny) []) items (.column "a")
    let notInAny : Call :=
      .binary .anyNotInList (.branch (.binary .anyNotInList) []) (.column "a") items
    let refusal : Except Halt Unit := .error (.error (.malformedNumber "7x"))
    ((Rendering.render equalAny).runFrom "NOT (").1 = refusal ∧
      ((Rendering.render equalAny).runFrom "NOT (").2 = "NOT (" ∧
      ((Rendering.render notInAny).runFrom "NOT (").1 = refusal ∧
      ((Rendering.render notInAny).runFrom "NOT (").2 ≠ "NOT (" ∧
      ((Rendering.render notInAny).runFrom "NOT (").2 = "NOT (ANY " := by
  intro items equalAny notInAny refusal
  have hequalAny : ((Rendering.render equalAny).runFrom "NOT (").1 = refusal := by decide +kernel
  have hnotInAny : ((Rendering.render notInAny).runFrom "NOT (").1 = refusal := by decide +kernel
  obtain ⟨hkept, -⟩ := refused_call_keeps_text_iff hequalAny
  obtain ⟨hleft, hword⟩ := refused_call_keeps_text_iff hnotInAny
  have hchanged : ((Rendering.render notInAny).runFrom "NOT (").2 ≠ "NOT (" :=
    fun hsame => (hleft.mp hsame).2 rfl
  exact ⟨hequalAny, hkept.mpr ⟨nofun, nofun⟩, hnotInAny, hchanged, hword hchanged⟩

/-- A membership test of the values of a column, in a list with an item that is no number, is called
after a function without arguments.  It is refused, and the text is not what it was before it. -/
theorem exists_refused_call_with_text :
    let written := Rendering.textAfter [.direct (.score (.branch .score []))]
    let call : Call := .binary .anyInList (.branch (.binary .anyInList) []) (.column "a")
      (.list [.literal .number "7x"])
    ((Rendering.render call).runFrom written).1 = .error (.error (.malformedNumber "7x")) ∧
      written = "SCORE()" ∧ ((Rendering.render call).runFrom written).2 = "SCORE()ANY " ∧
      ((Rendering.render call).runFrom written).2 ≠ written := by
  decide +kernel

end WhereClause
