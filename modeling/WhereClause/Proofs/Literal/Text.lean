import WhereClause.Proofs.Binary64.Text
import WhereClause.Proofs.Literal.Kind
import WhereClause.Proofs.Timestamp.RoundTrip

/-!
# The texts of values

What clause text relies on in the texts of values: a number begins with a digit or a minus sign and
has no other characters than those of numbers (`Literal.isNumberText_of_ofKind`), and a timestamp
has no quote in it (`Timestamp.quote_not_mem_of_write?`).

The delicate point is a float with a power of ten.  If all of its digits were dropped as zeros at
the end, the text would begin with the letter `e` and look like a name.  But the text is the
spelling of a numeral, which has a digit in front (`Binary64.exists_spell_text`).
-/

namespace WhereClause

/-! ## Texts of numbers -/

/-- The text begins as numbers do. -/
def StartsNumber : List Char → Prop
  | [] => False
  | c :: _ => c.isDigit = true ∨ c = '-'

instance : (cs : List Char) → Decidable (StartsNumber cs)
  | [] => isFalse id
  | c :: _ => inferInstanceAs (Decidable (c.isDigit = true ∨ c = '-'))

/-- The character occurs in numbers. -/
def IsNumberChar (c : Char) : Prop :=
  c.isDigit = true ∨ c = '.' ∨ c = 'e' ∨ c = '-'

instance (c : Char) : Decidable (IsNumberChar c) :=
  inferInstanceAs (Decidable (_ ∨ _ ∨ _ ∨ _))

/-- The text has the form of a number as far as its first character and its character set go. -/
structure IsNumberText (cs : List Char) : Prop where
  starts : StartsNumber cs
  chars : ∀ c ∈ cs, IsNumberChar c

/-- Digits have the characters of numbers. -/
lemma AreDigits.isNumberChar {cs : List Char} (h : AreDigits cs) : ∀ c ∈ cs, IsNumberChar c :=
  fun c hc => .inl (h c hc)

namespace Numeral

variable {sign : Option Sign}

/-- What is written for a sign has the characters of numbers, unless it is a plus. -/
lemma isNumberChar_signText (h : sign ≠ some .plus) : ∀ c ∈ signText sign, IsNumberChar c := by
  rcases sign with _ | _ | _
  · exact fun c hc => nomatch hc
  · exact absurd rfl h
  · exact List.forall_mem_singleton.mpr (.inr (.inr (.inr rfl)))

/-- What is written for an integer has the characters of numbers. -/
lemma isNumberChar_ofInt (i : Int) : ∀ c ∈ ofInt i, IsNumberChar c := by
  rw [ofInt_eq, List.forall_mem_append]
  exact ⟨isNumberChar_signText (signOf_ne_plus i), (areDigits_ofNat i.natAbs).isNumberChar⟩

/-- A numeral without a plus begins as numbers do. -/
lemma startsNumber_append {whole : List Char} (hsign : sign ≠ some .plus) (hne : whole ≠ [])
    (hwhole : AreDigits whole) (rest : List Char) :
    StartsNumber (signText sign ++ (whole ++ rest)) := by
  obtain ⟨d, ds, rfl⟩ := List.exists_cons_of_ne_nil hne
  rcases sign with _ | _ | _
  · exact .inl (hwhole d List.mem_cons_self)
  · exact absurd rfl hsign
  · exact .inr rfl

/-- The spelling of a numeral without a plus is the text of a number. -/
lemma isNumberText_spell {n : Numeral} (h : n.IsSpellable) (hsign : n.sign ≠ some .plus) :
    IsNumberText n.spell := by
  obtain ⟨sign, whole, fraction, exponent⟩ := n
  obtain ⟨hne, hdigits⟩ := h
  obtain ⟨hwhole, hfraction⟩ := List.forall_mem_append.mp hdigits
  refine ⟨startsNumber_append hsign hne hwhole _, ?_⟩
  rw [spell, List.forall_mem_append, List.forall_mem_append, List.forall_mem_append]
  refine ⟨isNumberChar_signText hsign, AreDigits.isNumberChar hwhole, ?_, ?_⟩
  · cases fraction with
    | none => exact fun c hc => absurd hc List.not_mem_nil
    | some digits =>
      exact List.forall_mem_cons.mpr ⟨.inr (.inl rfl), AreDigits.isNumberChar hfraction⟩
  · cases exponent with
    | none => exact fun c hc => absurd hc List.not_mem_nil
    | some i => exact List.forall_mem_cons.mpr ⟨.inr (.inr (.inl rfl)), isNumberChar_ofInt i⟩

end Numeral

namespace Literal

/-- The text of the value of a number is that of a number. -/
theorem isNumberText_of_ofKind {value : Literal} (h : OfKind .number value) {text : String}
    (htext : value.text? = some text) : IsNumberText text.toList := by
  cases h with
  | @integer i _ =>
    obtain rfl := Option.some.inj htext
    rw [String.toList_ofList, ← Numeral.spell_ofInteger]
    exact Numeral.isNumberText_spell (Numeral.isSpellable_ofInteger i) (Numeral.signOf_ne_plus i)
  | float hx =>
    obtain rfl := Option.some.inj htext
    obtain ⟨n, hspell, hspellable, hsign, -⟩ := Binary64.exists_spell_text floatLayout hx
    rw [String.toList_ofList, ← hspell]
    exact Numeral.isNumberText_spell hspellable hsign

end Literal

/-! ## Texts of timestamps -/

namespace Timestamp

/-- The text of a timestamp has no quote in it. -/
theorem quote_not_mem_of_write? {t : Timestamp} {text : List Char} (h : t.write? = some text) :
    Literal.quote ∉ text := by
  have hpadded (width n : Nat) : Literal.quote ∉ padded width n := fun hmem =>
    absurd (areDigits_padded width n _ hmem) (by decide)
  have hfraction : Literal.quote ∉ fractionText t.nanosecond := by
    rw [fractionText]
    split
    · exact List.not_mem_nil
    · intro hmem
      rcases List.mem_cons.mp hmem with hpoint | hmem
      · exact absurd hpoint (by decide)
      · exact hpadded _ _ ((List.rdropWhile_prefix _ _).subset hmem)
  have hoffset : Literal.quote ∉ offsetText t.offset := by
    rw [offsetText]
    split
    · decide
    · simp only [List.mem_append, List.mem_cons, hpadded]
      split <;> simp [Literal.quote]
  rw [write?] at h
  split at h
  · obtain rfl := Option.some.inj h
    simp only [List.mem_append, List.mem_cons, hpadded, hfraction, hoffset]
    simp [Literal.quote]
  · cases h

end Timestamp

end WhereClause
