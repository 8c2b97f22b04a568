import WhereClause.Literal.Reading
import WhereClause.Proofs.Timestamp.Reading

/-!
# The values of each kind of literal

`Literal.OfKind` says which values a literal of a kind can have: integers that fit into 64 bits and
finite floats for numbers, timestamps that can be written for timestamps.  Reading a spelling never
yields anything else (`Literal.ofKind_of_ofSpelling`), so the value of a literal always has a text
(`Literal.exists_text?_of_ofTree`).
-/

namespace WhereClause

namespace Literal

/-- The value is one that literals of the kind can have. -/
inductive OfKind : LiteralKind → Literal → Prop
  | boolean (b : Bool) : OfKind .boolean (.boolean b)
  | integer {i : Int} : FitsInt64 i → OfKind .number (.integer i)
  | float {x : Binary64} : x.IsFinite → OfKind .number (.float x)
  | string (s : String) : OfKind .string (.string s)
  | timestamp {t : Timestamp} : t.Expressible → OfKind .timestamp (.timestamp t)

/-- The value of a numeral is one of a number. -/
lemma ofKind_of_ofNumeral? {n : Numeral} {value : Literal} (h : ofNumeral? n = some value) :
    OfKind .number value := by
  unfold ofNumeral? at h
  split at h
  · split at h
    · obtain rfl := Option.some.inj h
      exact .integer ‹_›
    · exact nomatch h
  · dsimp only at h
    split at h
    · obtain rfl := Option.some.inj h
      exact .float ‹_›
    · exact nomatch h

/-- The value of a spelled number is one of a number. -/
lemma ofKind_of_readNumber {spelling : String} {value : Literal}
    (h : readNumber spelling = .ok value) : OfKind .number value := by
  unfold readNumber at h
  split at h
  · rename_i hread
    obtain rfl := Except.ok.inj h
    obtain ⟨n, -, hn⟩ := Option.bind_eq_some_iff.mp hread
    exact ofKind_of_ofNumeral? hn
  · exact nomatch h

/-- A timestamp that is read can be written. -/
lemma expressible_of_readTimestamp {text : String} {t : Timestamp}
    (h : readTimestamp text = .ok t) : t.Expressible := by
  unfold readTimestamp at h
  split at h
  · obtain rfl := Except.ok.inj h
    exact Timestamp.expressible_of_read? ‹_›
  · exact nomatch h

/-- A spelling of a kind has a value of that kind, if it has one at all. -/
theorem ofKind_of_ofSpelling {kind : LiteralKind} {spelling : String} {value : Literal}
    (h : ofSpelling kind spelling = .ok value) : OfKind kind value := by
  cases kind with
  | boolean =>
    obtain rfl := Except.ok.inj h
    exact .boolean _
  | number => exact ofKind_of_readNumber h
  | string =>
    obtain rfl := Except.ok.inj h
    exact .string _
  | timestamp =>
    rw [ofSpelling] at h
    split at h
    · rename_i inner _
      rcases hread : readTimestamp (String.ofList inner) with e | t
      · rw [hread] at h
        exact nomatch h
      · rw [hread] at h
        obtain rfl := Except.ok.inj h
        exact .timestamp (expressible_of_readTimestamp hread)
    · exact nomatch h

/-- The value of a tree is the value of a spelling of its kind. -/
lemma ofSpelling_of_ofTree {t : Tree} {value : Literal} (h : ofTree t = .ok value) :
    ∃ kind, t.tag = .literal kind ∧ ofSpelling kind t.text = .ok value := by
  obtain ⟨tag, text, children⟩ := t
  cases tag with
  | literal kind => exact ⟨kind, rfl, h⟩
  | _ => exact nomatch h

/-- A value that a literal can have has a text. -/
lemma OfKind.exists_text? {kind : LiteralKind} {value : Literal} (h : OfKind kind value) :
    ∃ text, value.text? = some text := by
  cases h with
  | boolean b => cases b <;> exact ⟨_, rfl⟩
  | integer => exact ⟨_, rfl⟩
  | float => exact ⟨_, rfl⟩
  | string => exact ⟨_, rfl⟩
  | timestamp ht => exact ⟨_, by rw [text?, Timestamp.write?, if_pos ht, Option.map_some]⟩

/-- The value of a literal always has a text. -/
lemma exists_text?_of_ofTree {t : Tree} {value : Literal} (h : ofTree t = .ok value) :
    ∃ text, value.text? = some text := by
  obtain ⟨kind, -, hspelling⟩ := ofSpelling_of_ofTree h
  exact (ofKind_of_ofSpelling hspelling).exists_text?

end Literal

end WhereClause
