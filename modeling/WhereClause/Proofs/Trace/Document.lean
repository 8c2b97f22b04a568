import WhereClause.Proofs.Json.Reading
import WhereClause.Trace

/-!
# Documents of traces

The document of a trace tells its events one by one, each with its hook and with the descriptions of
its operands, and the trace is read back from it (`Trace.ofJson?_toJson`).  An absent column is
`null` there and a description is a string, so neither the text `null` nor the empty text is taken
for an absent column.

Such a document has no number in it and does not nest deeply (`Trace.numberFree_toJson`,
`Trace.nesting_toJson_le`), however many events there are.
-/

namespace WhereClause

/-- Items that are each read back from what is written for them are read back all together. -/
lemma mapM_map_eq_some {α β : Type} {write : α → β} {read? : β → Option α}
    (h : ∀ a, read? (write a) = some a) (as : List α) :
    (as.map write).mapM read? = some as := by
  induction as with
  | nil => rfl
  | cons a as ih =>
    rw [List.map_cons, List.mapM_cons, h, ih]
    rfl

namespace Event

/-! ## Events -/

/-- The description of an operand that a document gives. -/
def operandOfJson? : Json → Option (Option String)
  | .null => some none
  | .string s => some (some s)
  | _ => none

/-- The event that a document gives. -/
def ofJson? (v : Json) : Option Event := do
  let .string name ← v.field? "hook" | none
  let .array operands ← v.field? "operands" | none
  return ⟨← Hook.ofName? name, ← operands.mapM operandOfJson?⟩

/-- The description of an operand is read back from its document. -/
lemma operandOfJson?_elim (operand : Option String) :
    operandOfJson? (operand.elim .null .string) = some operand := by
  cases operand <;> rfl

/-- An event is read back from its document. -/
theorem ofJson?_toJson (e : Event) : ofJson? e.toJson = some e := by
  have hhook : e.toJson.field? "hook" = some (.string e.hook.name) := rfl
  have hfield : e.toJson.field? "operands" =
      some (.array (e.operands.map fun operand => operand.elim .null .string)) := rfl
  have hoperands := mapM_map_eq_some operandOfJson?_elim e.operands
  rw [ofJson?, hhook, hfield]
  simp [hoperands]

/-- There is no number in the document of an event. -/
lemma numberFree_toJson (e : Event) : e.toJson.NumberFree := by
  refine .object fun m hm => ?_
  rcases List.mem_pair.mp hm with rfl | rfl
  · exact .string _
  · refine .array fun v hv => ?_
    obtain ⟨operand, -, rfl⟩ := List.mem_map.mp hv
    cases operand with
    | none => exact .null
    | some s => exact .string s

/-- The document of an event is an object around an array. -/
lemma nesting_toJson (e : Event) : e.toJson.nesting = 2 := by
  have hoperands : ∀ operand ∈ e.operands.map fun operand => operand.elim Json.null .string,
      operand.nesting ≤ 0 := by
    intro v hv
    obtain ⟨operand, -, rfl⟩ := List.mem_map.mp hv
    cases operand <;> exact Nat.le_refl 0
  have hitems := Nat.le_zero.mp (Json.nestingItems_le hoperands)
  simp [toJson, Json.nesting, Json.nestingMembers, hitems]

end Event

namespace Trace

/-! ## Traces -/

/-- The trace that a document gives. -/
def ofJson? : Json → Option Trace
  | .array events => (events.mapM Event.ofJson?).map List.toArray
  | _ => none

/-- A trace is read back from its document. -/
theorem ofJson?_toJson (trace : Trace) : ofJson? trace.toJson = some trace := by
  rw [toJson, ofJson?, mapM_map_eq_some Event.ofJson?_toJson]
  rfl

/-- There is no number in the document of a trace. -/
theorem numberFree_toJson (trace : Trace) : trace.toJson.NumberFree := by
  refine .array fun v hv => ?_
  obtain ⟨e, -, rfl⟩ := List.mem_map.mp hv
  exact e.numberFree_toJson

/-- At most three arrays and objects lie around each other in the document of a trace. -/
theorem nesting_toJson_le (trace : Trace) : trace.toJson.nesting ≤ 3 := by
  have hevents : ∀ v ∈ trace.toList.map Event.toJson, v.nesting ≤ 2 := by
    intro v hv
    obtain ⟨e, -, rfl⟩ := List.mem_map.mp hv
    exact e.nesting_toJson.le
  have hitems := Json.nestingItems_le hevents
  rw [toJson, Json.nesting]
  omega

end Trace

end WhereClause
