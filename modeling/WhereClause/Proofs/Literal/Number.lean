import WhereClause.Proofs.Binary64.Range
import WhereClause.Proofs.Literal.Kind
import WhereClause.Proofs.Numeral.Reading

/-!
# The language of number literals

A number literal is an integer if it has neither a point nor a power of ten, and a float otherwise.
`Numeral.SpellsInteger` and `Numeral.SpellsFloat` say which texts have which value.  These texts are
all that a number literal can have, and every other text is refused as it is
(`Literal.ofTree_number_iff`).  So the words for infinities and for what is not a number, which are
numbers elsewhere, are none here.
-/

namespace WhereClause

namespace Numeral

variable {cs : List Char} {n : Numeral}

/-! ## Spellings -/

/-- The text has a point or the mark of a power of ten in it. -/
def HasMark (cs : List Char) : Prop :=
  ∃ c ∈ cs, c = '.' ∨ c = 'e' ∨ c = 'E'

/-- The character can occur in a numeral. -/
def IsNumeralChar (c : Char) : Prop :=
  c.isDigit = true ∨ c = '+' ∨ c = '-' ∨ c = '.' ∨ c = 'e' ∨ c = 'E'

instance (c : Char) : Decidable (IsNumeralChar c) :=
  inferInstanceAs (Decidable (_ ∨ _ ∨ _ ∨ _ ∨ _ ∨ _))

/-- The text spells the integer: perhaps a sign, and at least one digit. -/
def SpellsInteger (cs : List Char) (i : Int) : Prop :=
  ∃ sign digits, cs = signText sign ++ digits ∧ digits ≠ [] ∧ AreDigits digits ∧
    signed sign (value digits) = i

/-- The text spells the float: it is a numeral that has a point or a power of ten, and the exact
value of the numeral is in the range of finite numbers and rounds to the float. -/
def SpellsFloat (cs : List Char) (x : Binary64) : Prop :=
  HasMark cs ∧ ∃ n, Spells cs n ∧ n.toDecimal.num < Binary64.overflow * n.toDecimal.den ∧
    x.negative = n.toDecimal.negative ∧ Binary64.readsBack x.magnitude n.toDecimal = true

/-- The mark of a power of ten is a mark. -/
lemma SpellsExponent.hasMark {power : List Char} {exponent : Int}
    (h : SpellsExponent power (some exponent)) : HasMark power := by
  cases h with
  | power sign hmark => exact ⟨_, List.mem_cons_self, .inr hmark⟩

/-- Digits and signs are no marks. -/
lemma not_hasMark_signText_append {digits : List Char} (sign : Option Sign)
    (hdigits : AreDigits digits) : ¬HasMark (signText sign ++ digits) := by
  rintro ⟨c, hc, hmark⟩
  rcases List.mem_append.mp hc with hsign | hdigit
  · rcases sign with _ | _ | _
    · exact List.not_mem_nil hsign
    · obtain rfl := List.mem_singleton.mp hsign
      exact absurd hmark (by decide)
    · obtain rfl := List.mem_singleton.mp hsign
      exact absurd hmark (by decide)
  · have := hdigits c hdigit
    rcases hmark with rfl | rfl | rfl <;> exact absurd this (by decide)

/-- A numeral is spelled without a mark exactly if it is whole. -/
lemma isWhole_iff_of_spells (h : Spells cs n) : n.IsWhole ↔ ¬HasMark cs := by
  obtain ⟨sign, whole, fraction, exponent⟩ := n
  obtain ⟨power, rfl, hpower, hdigits, -⟩ := h
  constructor
  · rintro ⟨rfl, rfl⟩
    cases hpower
    rw [fractionText, List.nil_append, List.append_nil]
    exact not_hasMark_signText_append sign (hdigits.of_subset (List.subset_append_left _ _))
  · intro hnone
    refine ⟨?_, ?_⟩
    · cases fraction with
      | none => rfl
      | some digits =>
        refine absurd ⟨'.', ?_, .inl rfl⟩ hnone
        simp [fractionText]
    · cases exponent with
      | none => rfl
      | some e =>
        obtain ⟨c, hc, hmark⟩ := hpower.hasMark
        refine absurd ⟨c, ?_, hmark⟩ hnone
        simp [hc]

/-- The spellings of an integer are those of the whole numerals with this value. -/
lemma spellsInteger_iff {i : Int} :
    SpellsInteger cs i ↔ ∃ n, Spells cs n ∧ n.IsWhole ∧ n.wholePart = i := by
  constructor
  · rintro ⟨sign, digits, rfl, hne, hdigits, rfl⟩
    refine ⟨⟨sign, digits, none, none⟩, ⟨[], ?_, .absent, ?_, ?_⟩, ⟨rfl, rfl⟩, rfl⟩
    · rw [fractionText, List.append_nil, List.append_nil]
    · exact hdigits.append AreDigits.nil
    · exact List.append_ne_nil_of_left_ne_nil hne _
  · rintro ⟨⟨sign, whole, fraction, exponent⟩, ⟨power, rfl, hpower, hdigits, hne⟩, hwhole, rfl⟩
    obtain ⟨rfl, rfl⟩ := hwhole
    cases hpower
    change AreDigits (whole ++ []) at hdigits
    change whole ++ [] ≠ [] at hne
    rw [List.append_nil] at hdigits hne
    refine ⟨sign, whole, ?_, hne, hdigits, rfl⟩
    rw [fractionText, List.append_nil, List.append_nil]

/-- The spellings of a float are those of the other numerals that are rounded to it, if it is
finite. -/
lemma spellsFloat_iff {x : Binary64} : SpellsFloat cs x ↔
    ∃ n, Spells cs n ∧ ¬n.IsWhole ∧ Binary64.ofDecimal n.toDecimal = x ∧ x.IsFinite := by
  constructor
  · rintro ⟨hmark, n, hspells, hrange, hrounds⟩
    have hx := Binary64.ofDecimal_eq_iff.mpr hrounds
    refine ⟨n, hspells, ?_, hx, ?_⟩
    · rw [isWhole_iff_of_spells hspells]
      exact not_not_intro hmark
    · rw [← hx]
      exact Binary64.isFinite_ofDecimal_iff.mpr hrange
  · rintro ⟨n, hspells, hwhole, rfl, hfinite⟩
    refine ⟨?_, n, hspells, Binary64.isFinite_ofDecimal_iff.mp hfinite,
      Binary64.ofDecimal_eq_iff.mp rfl⟩
    rwa [isWhole_iff_of_spells hspells, Classical.not_not] at hwhole

/-- Signs occur in numerals. -/
lemma isNumeralChar_signText (sign : Option Sign) : ∀ c ∈ signText sign, IsNumeralChar c := by
  rcases sign with _ | _ | _
  · exact fun c hc => absurd hc List.not_mem_nil
  · exact List.forall_mem_singleton.mpr (.inr (.inl rfl))
  · exact List.forall_mem_singleton.mpr (.inr (.inr (.inl rfl)))

/-- Digits occur in numerals. -/
lemma isNumeralChar_of_areDigits (h : AreDigits cs) : ∀ c ∈ cs, IsNumeralChar c :=
  fun c hc => .inl (h c hc)

/-- Nothing else occurs in the spelling of a numeral. -/
lemma isNumeralChar_of_spells (h : Spells cs n) : ∀ c ∈ cs, IsNumeralChar c := by
  obtain ⟨sign, whole, fraction, exponent⟩ := n
  obtain ⟨power, rfl, hpower, hdigits, -⟩ := h
  obtain ⟨hwhole, hfraction⟩ := List.forall_mem_append.mp hdigits
  rw [List.forall_mem_append, List.forall_mem_append, List.forall_mem_append]
  refine ⟨isNumeralChar_signText sign, isNumeralChar_of_areDigits hwhole, ?_, ?_⟩
  · cases fraction with
    | none => exact fun c hc => absurd hc List.not_mem_nil
    | some digits =>
      refine List.forall_mem_cons.mpr ⟨?_, isNumeralChar_of_areDigits hfraction⟩
      exact .inr (.inr (.inr (.inl rfl)))
  · cases hpower with
    | absent => exact fun c hc => absurd hc List.not_mem_nil
    | power sign hmark _ hpower =>
      rw [List.forall_mem_cons, List.forall_mem_append]
      refine ⟨?_, isNumeralChar_signText sign, isNumeralChar_of_areDigits hpower⟩
      exact .inr (.inr (.inr (.inr hmark)))

end Numeral

namespace Literal

open Numeral

/-! ## Values of number literals -/

/-- A numeral has an integer for its value if it is whole and fits into 64 bits. -/
lemma ofNumeral?_eq_integer_iff {n : Numeral} {i : Int} :
    ofNumeral? n = some (integer i) ↔ n.IsWhole ∧ n.wholePart = i ∧ FitsInt64 i := by
  unfold ofNumeral?
  by_cases hwhole : n.IsWhole
  · rw [if_pos hwhole]
    by_cases hfits : FitsInt64 n.wholePart
    · rw [if_pos hfits, Option.some_inj, integer.injEq]
      refine ⟨?_, fun h => h.2.1⟩
      rintro rfl
      exact ⟨hwhole, rfl, hfits⟩
    · rw [if_neg hfits]
      refine ⟨nofun, ?_⟩
      rintro ⟨-, rfl, hfits'⟩
      exact absurd hfits' hfits
  · rw [if_neg hwhole]
    refine ⟨fun h => ?_, fun h => absurd h.1 hwhole⟩
    dsimp only at h
    split at h <;> cases h

/-- A numeral has a float for its value if it is not whole and is rounded to a finite number. -/
lemma ofNumeral?_eq_float_iff {n : Numeral} {x : Binary64} : ofNumeral? n = some (float x) ↔
    ¬n.IsWhole ∧ Binary64.ofDecimal n.toDecimal = x ∧ x.IsFinite := by
  unfold ofNumeral?
  by_cases hwhole : n.IsWhole
  · rw [if_pos hwhole]
    refine ⟨fun h => ?_, fun h => absurd hwhole h.1⟩
    split at h <;> cases h
  · rw [if_neg hwhole]
    dsimp only
    by_cases hfinite : (Binary64.ofDecimal n.toDecimal).IsFinite
    · rw [if_pos hfinite, Option.some_inj, float.injEq]
      refine ⟨?_, fun h => h.2.1⟩
      rintro rfl
      exact ⟨hwhole, rfl, hfinite⟩
    · rw [if_neg hfinite]
      refine ⟨nofun, ?_⟩
      rintro ⟨-, rfl, hfinite'⟩
      exact absurd hfinite' hfinite

variable {text : String} {value : Literal}

/-- The value of a number literal is that of the numeral that it spells. -/
lemma readNumber_eq_ok_iff :
    readNumber text = .ok value ↔ ∃ n, Spells text.toList n ∧ ofNumeral? n = some value := by
  have hread : readNumber text = .ok value ↔
      (read? text.toList).bind ofNumeral? = some value := by
    unfold readNumber
    rcases (read? text.toList).bind ofNumeral? with _ | found
    · exact ⟨nofun, nofun⟩
    · rw [Except.ok.injEq, Option.some_inj]
  simp only [hread, Option.bind_eq_some_iff, read?_eq_some_iff]

/-- A number literal without a value is refused with its text. -/
lemma readNumber_of_ne_ok (h : ∀ value, readNumber text ≠ .ok value) :
    readNumber text = .error (.malformedNumber text) := by
  unfold readNumber at h ⊢
  split at h
  · exact absurd rfl (h _)
  · rfl

/-- A number literal is an integer exactly if it spells one that fits into 64 bits. -/
lemma readNumber_eq_integer_iff {i : Int} :
    readNumber text = .ok (integer i) ↔ SpellsInteger text.toList i ∧ FitsInt64 i := by
  rw [readNumber_eq_ok_iff, spellsInteger_iff]
  simp only [ofNumeral?_eq_integer_iff]
  constructor
  · rintro ⟨n, hspells, hwhole, hvalue, hfits⟩
    exact ⟨⟨n, hspells, hwhole, hvalue⟩, hfits⟩
  · rintro ⟨⟨n, hspells, hwhole, hvalue⟩, hfits⟩
    exact ⟨n, hspells, hwhole, hvalue, hfits⟩

/-- A number literal is a float exactly if it spells this float. -/
lemma readNumber_eq_float_iff {x : Binary64} :
    readNumber text = .ok (float x) ↔ SpellsFloat text.toList x := by
  rw [readNumber_eq_ok_iff, spellsFloat_iff]
  simp only [ofNumeral?_eq_float_iff]

/-- A number literal is refused exactly if it spells neither an integer of 64 bits nor a float. -/
lemma readNumber_eq_error_iff : readNumber text = .error (.malformedNumber text) ↔
    ¬(∃ i, SpellsInteger text.toList i ∧ FitsInt64 i) ∧ ¬∃ x, SpellsFloat text.toList x := by
  simp only [← readNumber_eq_integer_iff, ← readNumber_eq_float_iff]
  constructor
  · intro h
    rw [h]
    exact ⟨nofun, nofun⟩
  · rintro ⟨hinteger, hfloat⟩
    refine readNumber_of_ne_ok fun value h => ?_
    cases ofKind_of_readNumber h with
    | @integer i => exact hinteger ⟨i, h⟩
    | @float x => exact hfloat ⟨x, h⟩

/-- A text with a character that no numeral has is refused. -/
lemma readNumber_of_not_isNumeralChar {c : Char} (hc : c ∈ text.toList)
    (hchar : ¬IsNumeralChar c) : readNumber text = .error (.malformedNumber text) := by
  refine readNumber_of_ne_ok fun value h => ?_
  obtain ⟨n, hspells, -⟩ := readNumber_eq_ok_iff.mp h
  exact hchar (isNumeralChar_of_spells hspells c hc)

/-- The value of a node that is a float is finite, whatever the node. -/
lemma isFinite_of_ofTree {t : Tree} {x : Binary64} (h : ofTree t = .ok (float x)) :
    x.IsFinite := by
  obtain ⟨kind, -, hspelling⟩ := ofSpelling_of_ofTree h
  cases ofKind_of_ofSpelling hspelling with
  | float hx => exact hx

/-- A number literal is an integer exactly if its text spells one that fits into 64 bits, and a
float exactly if its text spells one, which has to have a point or a power of ten and to be in the
range of finite numbers.  Every other text is refused with an error that carries it unchanged, in
particular every text with a character other than digits, signs, the point and the mark of a power
of ten.  So no node has a value that is infinite or a NaN. -/
theorem ofTree_number_iff (text : String) (children : List Tree) :
    let number : Tree := .node (.literal .number) text children
    (∀ i, ofTree number = .ok (integer i) ↔ SpellsInteger text.toList i ∧ FitsInt64 i) ∧
      (∀ x, ofTree number = .ok (float x) ↔ SpellsFloat text.toList x) ∧
      (ofTree number = .error (.malformedNumber text) ↔
        ¬(∃ i, SpellsInteger text.toList i ∧ FitsInt64 i) ∧ ¬∃ x, SpellsFloat text.toList x) ∧
      (∀ c ∈ text.toList, ¬IsNumeralChar c → ofTree number = .error (.malformedNumber text)) ∧
      ∀ t x, ofTree t = .ok (float x) → x.IsFinite :=
  ⟨fun _ => readNumber_eq_integer_iff, fun _ => readNumber_eq_float_iff, readNumber_eq_error_iff,
    fun _ => readNumber_of_not_isNumeralChar, fun _ _ => isFinite_of_ofTree⟩

/-- Zeros in front of the least integer do not count, but the integer below it is out of range, even
though a float could be near it.  A point at the end makes a float.  A word for an infinity is
refused for its letters, and a power of ten that is too great is refused as well. -/
theorem ofTree_number_iff_of_boundaries :
    let number (text : String) : Tree := .node (.literal .number) text []
    let five : Binary64 := ⟨false, 4617315517961601024, by decide⟩
    ofTree (number "-009223372036854775808") = .ok (integer (-9223372036854775808)) ∧
      (¬∃ i, SpellsInteger "-9223372036854775809".toList i ∧ FitsInt64 i) ∧
      SpellsFloat "+05.".toList five ∧ five.IsFinite ∧
      (¬∃ x, SpellsFloat "1e400".toList x) ∧
      ofTree (number "-Infinity") = .error (.malformedNumber "-Infinity") := by
  intro number five
  obtain ⟨hinteger, -⟩ := ofTree_number_iff "-009223372036854775808" []
  obtain ⟨-, -, hbeyond, -⟩ := ofTree_number_iff "-9223372036854775809" []
  obtain ⟨-, hfloat, -, -, hfinite⟩ := ofTree_number_iff "+05." []
  obtain ⟨-, -, hpower, -⟩ := ofTree_number_iff "1e400" []
  obtain ⟨-, -, -, hword, -⟩ := ofTree_number_iff "-Infinity" []
  have hfive : ofTree (number "+05.") = .ok (float five) := by decide +kernel
  refine ⟨?_, ?_, ?_, ?_, ?_, ?_⟩
  · rw [hinteger]
    refine ⟨⟨some .minus, "009223372036854775808".toList, by decide +kernel, by decide +kernel,
      List.all_eq_true.mp (by decide +kernel), by decide +kernel⟩, by decide⟩
  · exact (hbeyond.mp (by decide +kernel)).1
  · exact (hfloat five).mp hfive
  · exact hfinite (number "+05.") five hfive
  · exact (hpower.mp (by decide +kernel)).2
  · exact hword 'I' (by decide +kernel) (by decide)

end Literal

end WhereClause
