import WhereClause.Numeral
import Mathlib.Data.List.DropRight
import Mathlib.Tactic.Lemma

/-!
# Reading numerals

`Numeral.Spells` is the grammar of written numbers: it says which texts spell a numeral.  Exactly
the spellings of a numeral are read as this numeral (`Numeral.read?_eq_some_iff`).

`Numeral.spell` is the spelling that a numeral is written with.  A numeral with a digit before the
point is read back from it (`Numeral.read?_spell`), so a number can be read back from any text that
is written for a numeral, and it remains to look at the value of that numeral.

Texts of numbers are put together from digits, sometimes without the zeros at their end.  Their
values are those of `Numeral.value`.
-/

namespace WhereClause

-- Powers of natural numbers are those of the core library, whatever else is in scope.
attribute [local instance (high)] instPowNat

/-! ## Digits -/

/-- All characters of the text are digits. -/
def AreDigits (cs : List Char) : Prop :=
  ∀ c ∈ cs, c.isDigit = true

namespace AreDigits

variable {cs ds : List Char}

lemma nil : AreDigits [] :=
  fun _ h => nomatch h

lemma append (hcs : AreDigits cs) (hds : AreDigits ds) : AreDigits (cs ++ ds) := by
  intro c hc
  rcases List.mem_append.mp hc with hc | hc
  · exact hcs c hc
  · exact hds c hc

lemma replicate_zero (count : Nat) : AreDigits (List.replicate count '0') := by
  intro c hc
  rw [List.eq_of_mem_replicate hc]
  rfl

lemma of_subset (hcs : AreDigits cs) (h : ds ⊆ cs) : AreDigits ds :=
  fun c hc => hcs c (h hc)

/-- The digits at the start of a text are taken, up to a text that does not start with a digit. -/
lemma takeWhile_append (hcs : AreDigits cs) {rest : List Char}
    (hrest : rest.head?.all (!·.isDigit)) : (cs ++ rest).takeWhile Char.isDigit = cs := by
  rw [List.takeWhile_append_of_pos hcs]
  cases rest with
  | nil => exact List.append_nil cs
  | cons c rest =>
    have hc : ¬c.isDigit = true := by simpa using hrest
    rw [List.takeWhile_cons_of_neg hc, List.append_nil]

/-- What is left behind the digits at the start of a text. -/
lemma dropWhile_append (hcs : AreDigits cs) {rest : List Char}
    (hrest : rest.head?.all (!·.isDigit)) : (cs ++ rest).dropWhile Char.isDigit = rest := by
  rw [List.dropWhile_append_of_pos hcs]
  cases rest with
  | nil => rfl
  | cons c rest =>
    have hc : ¬c.isDigit = true := by simpa using hrest
    exact List.dropWhile_cons_of_neg hc

/-- No text that begins with a digit begins with a sign. -/
lemma head?_ne_sign (hcs : AreDigits cs) : ∀ c ∈ cs.head?, c ≠ '+' ∧ c ≠ '-' := by
  intro c hc
  have hdigit := hcs c (List.mem_of_mem_head? hc)
  refine ⟨?_, ?_⟩
  all_goals
    rintro rfl
    exact absurd hdigit (by decide)

/-- Digits behind a number make it less than that number and one, moved by their count. -/
lemma ofDigitChars_lt (hds : AreDigits ds) (init : Nat) :
    Nat.ofDigitChars 10 ds init < 10 ^ ds.length * (init + 1) := by
  induction ds generalizing init with
  | nil => simp
  | cons d ds ih =>
    have hd : d.toNat - '0'.toNat ≤ 9 := by
      have hdigit := hds d List.mem_cons_self
      rw [Char.isDigit_iff_toNat] at hdigit
      exact Nat.sub_le_of_le_add hdigit.2
    have htail := ih (hds.of_subset (List.subset_cons_self d ds))
      (10 * init + (d.toNat - '0'.toNat))
    rw [Nat.ofDigitChars_cons, List.length_cons, Nat.pow_succ, Nat.mul_assoc]
    exact Nat.lt_of_lt_of_le htail (Nat.mul_le_mul_left _ (by omega))

end AreDigits

namespace Numeral

/-- The number that the digits denote. -/
abbrev value (digits : List Char) : Nat :=
  Nat.ofDigitChars 10 digits 0

/-- The digits of a natural number are digits. -/
lemma areDigits_ofNat (n : Nat) : AreDigits (ofNat n) :=
  fun _ => Nat.isDigit_of_mem_toDigits (by decide) (by decide)

/-- The digits of a number denote the number. -/
lemma value_ofNat (n : Nat) : value (ofNat n) = n :=
  Nat.ofDigitChars_ten_toDigits

/-- Zeros in front do not count. -/
lemma value_zeros_append (count : Nat) (digits : List Char) :
    value (List.replicate count '0' ++ digits) = value digits := by
  rw [value, Nat.ofDigitChars_append, Nat.ofDigitChars_replicate_zero, Nat.mul_zero]

/-- Every zero at the end is a factor of ten. -/
lemma value_append_zeros (digits : List Char) (count : Nat) :
    value (digits ++ List.replicate count '0') = value digits * 10 ^ count := by
  rw [value, Nat.ofDigitChars_append, Nat.ofDigitChars_replicate_zero, Nat.mul_comm]

/-- What is dropped as zeros at the end are zeros. -/
lemma rdropWhile_append_zeros (digits : List Char) :
    ∃ count, digits.rdropWhile (· == '0') ++ List.replicate count '0' = digits := by
  have hzeros : digits.rtakeWhile (· == '0') =
      List.replicate (digits.rtakeWhile (· == '0')).length '0' :=
    List.eq_replicate_of_mem fun c hc =>
      eq_of_beq (List.mem_rtakeWhile_imp (p := fun c : Char => c == '0') hc)
  exact ⟨_, hzeros ▸ List.rdropWhile_append_rtakeWhile⟩

/-! ## Spellings -/

/-- A sign as it is written. -/
def signText : Option Sign → List Char
  | none => []
  | some .plus => ['+']
  | some .minus => ['-']

/-- The digits after a point as they are written, the point included. -/
def fractionText : Option (List Char) → List Char
  | none => []
  | some digits => '.' :: digits

/-- A power of ten as it is written. -/
def exponentText : Option Int → List Char
  | none => []
  | some exponent => 'e' :: ofInt exponent

/-- A numeral as it is written. -/
def spell (n : Numeral) : List Char :=
  signText n.sign ++ (n.whole ++ (fractionText n.fraction ++ exponentText n.exponent))

/-- The numeral has a digit before the point, and its digits are digits. -/
structure IsSpellable (n : Numeral) : Prop where
  whole_ne_nil : n.whole ≠ []
  digits : AreDigits n.digits

/-- The text spells a power of ten: `e` or `E`, perhaps a sign, and at least one digit.  It is empty
if there is no power of ten. -/
inductive SpellsExponent : List Char → Option Int → Prop
  | absent : SpellsExponent [] none
  | power {mark : Char} (sign : Option Sign) {digits : List Char} :
      mark = 'e' ∨ mark = 'E' → digits ≠ [] → AreDigits digits →
      SpellsExponent (mark :: (signText sign ++ digits)) (some (signed sign (value digits)))

/-- The text spells the numeral: perhaps a sign, digits, perhaps a point with digits behind it, and
perhaps a power of ten.  There is a digit before or after the point. -/
def Spells (cs : List Char) (n : Numeral) : Prop :=
  ∃ power, cs = signText n.sign ++ (n.whole ++ (fractionText n.fraction ++ power)) ∧
    SpellsExponent power n.exponent ∧ AreDigits n.digits ∧ n.digits ≠ []

/-! ### Reading spellings -/

/-- A sign is read in front of anything but another sign. -/
lemma readSign_signText (sign : Option Sign) {cs : List Char}
    (h : ∀ c ∈ cs.head?, c ≠ '+' ∧ c ≠ '-') : readSign (signText sign ++ cs) = (sign, cs) := by
  rcases sign with _ | _ | _
  · change readSign cs = _
    unfold readSign
    split
    · exact absurd rfl (h '+' rfl).1
    · exact absurd rfl (h '-' rfl).2
    · rfl
  · rfl
  · rfl

/-- No power of ten begins with a digit. -/
lemma SpellsExponent.head?_not_isDigit {cs : List Char} {exponent : Option Int}
    (h : SpellsExponent cs exponent) : cs.head?.all (!·.isDigit) := by
  cases h with
  | absent => rfl
  | power sign hmark => rcases hmark with rfl | rfl <;> rfl

/-- A power of ten is read. -/
lemma readExponent?_of_spells {cs : List Char} {exponent : Option Int}
    (h : SpellsExponent cs exponent) : readExponent? cs = some exponent := by
  cases h with
  | absent => rfl
  | @power mark sign digits hmark hne hdigits =>
    have hall : digits.all Char.isDigit = true := List.all_eq_true.mpr hdigits
    rw [readExponent?, readSign_signText sign hdigits.head?_ne_sign]
    exact if_pos ⟨hmark, hne, hall⟩

/-- Digits after a point are read, up to a power of ten. -/
lemma readFraction_fractionText {fraction : Option (List Char)} {power : List Char}
    {exponent : Option Int} (hfraction : AreDigits (fraction.getD []))
    (hpower : SpellsExponent power exponent) :
    readFraction (fractionText fraction ++ power) = (fraction, power) := by
  cases fraction with
  | none =>
    cases hpower with
    | absent => rfl
    | power sign hmark => rcases hmark with rfl | rfl <;> rfl
  | some digits =>
    have hdigits : AreDigits digits := hfraction
    change (some ((digits ++ power).takeWhile Char.isDigit),
      (digits ++ power).dropWhile Char.isDigit) = _
    rw [hdigits.takeWhile_append hpower.head?_not_isDigit,
      hdigits.dropWhile_append hpower.head?_not_isDigit]

/-- A numeral is read from every spelling of it. -/
theorem read?_of_spells {cs : List Char} {n : Numeral} (h : Spells cs n) : read? cs = some n := by
  obtain ⟨sign, whole, fraction, exponent⟩ := n
  obtain ⟨power, rfl, hpower, hdigits, hne⟩ := h
  have hwhole : AreDigits whole := hdigits.of_subset (List.subset_append_left _ _)
  have hfraction : AreDigits (fraction.getD []) := hdigits.of_subset (List.subset_append_right _ _)
  have hrest : (fractionText fraction ++ power).head?.all (!·.isDigit) := by
    cases fraction with
    | none => exact hpower.head?_not_isDigit
    | some digits => rfl
  have hsign : ∀ c ∈ (whole ++ (fractionText fraction ++ power)).head?, c ≠ '+' ∧ c ≠ '-' := by
    cases whole with
    | nil =>
      cases fraction with
      | none => exact absurd rfl hne
      | some digits =>
        intro c hc
        obtain rfl := Option.some.inj hc
        decide
    | cons d ds => exact hwhole.head?_ne_sign
  rw [read?]
  dsimp only
  rw [readSign_signText sign hsign]
  dsimp only
  rw [hwhole.takeWhile_append hrest, hwhole.dropWhile_append hrest,
    readFraction_fractionText hfraction hpower, readExponent?_of_spells hpower]
  exact if_neg hne

/-! ### Texts that are read -/

/-- What is read as a sign and what is left make up the text. -/
lemma signText_readSign (cs : List Char) :
    signText (readSign cs).1 ++ (readSign cs).2 = cs := by
  unfold readSign
  split <;> rfl

/-- What is read as digits after a point and what is left make up the text. -/
lemma fractionText_readFraction (cs : List Char) :
    fractionText (readFraction cs).1 ++ (readFraction cs).2 = cs ∧
      AreDigits ((readFraction cs).1.getD []) := by
  unfold readFraction
  split
  · refine ⟨congrArg _ List.takeWhile_append_dropWhile, fun c hc => ?_⟩
    exact List.mem_takeWhile_imp hc
  · exact ⟨rfl, AreDigits.nil⟩

/-- What is read as a power of ten is one. -/
lemma spells_of_readExponent? {cs : List Char} {exponent : Option Int}
    (h : readExponent? cs = some exponent) : SpellsExponent cs exponent := by
  cases cs with
  | nil =>
    obtain rfl := Option.some.inj h
    exact .absent
  | cons mark cs =>
    rw [readExponent?] at h
    dsimp only at h
    split at h
    · rename_i hpower
      obtain ⟨hmark, hne, hdigits⟩ := hpower
      obtain rfl := Option.some.inj h
      have hspells := SpellsExponent.power (readSign cs).1 hmark hne (List.all_eq_true.mp hdigits)
      rwa [signText_readSign] at hspells
    · exact nomatch h

/-- Exactly the spellings of a numeral are read as this numeral. -/
theorem read?_eq_some_iff {cs : List Char} {n : Numeral} : read? cs = some n ↔ Spells cs n := by
  refine ⟨fun h => ?_, read?_of_spells⟩
  rw [read?] at h
  dsimp only at h
  obtain ⟨exponent, hexponent, h⟩ := Option.bind_eq_some_iff.mp h
  split at h
  · exact nomatch h
  · rename_i hne
    obtain rfl := Option.some.inj h
    obtain ⟨htext, hfraction⟩ :=
      fractionText_readFraction ((readSign cs).2.dropWhile Char.isDigit)
    refine ⟨_, ?_, spells_of_readExponent? hexponent, ?_, hne⟩
    · dsimp only
      rw [htext, List.takeWhile_append_dropWhile, signText_readSign]
    · refine AreDigits.append (fun c hc => ?_) hfraction
      exact List.mem_takeWhile_imp hc

/-! ### The text of a numeral -/

/-- The sign that an integer is written with. -/
def signOf (i : Int) : Option Sign :=
  if i < 0 then some .minus else none

/-- No integer is written with a plus. -/
lemma signOf_ne_plus (i : Int) : signOf i ≠ some .plus := by
  unfold signOf
  split <;> decide

/-- An integer is written as its sign and the digits of its absolute value. -/
lemma ofInt_eq (i : Int) : ofInt i = signText (signOf i) ++ ofNat i.natAbs := by
  unfold ofInt signOf
  split <;> rfl

/-- The sign and the digits of an integer denote the integer. -/
lemma signed_signOf (i : Int) : signed (signOf i) (value (ofNat i.natAbs)) = i := by
  rw [value_ofNat, signed, signOf]
  by_cases hneg : i < 0
  · rw [if_pos hneg, if_pos rfl]
    omega
  · rw [if_neg hneg, if_neg nofun]
    omega

/-- A power of ten is spelled by what is written for it. -/
lemma spells_exponentText (exponent : Option Int) :
    SpellsExponent (exponentText exponent) exponent := by
  cases exponent with
  | none => exact .absent
  | some i =>
    have hne : ofNat i.natAbs ≠ [] := Nat.toDigits_ne_nil
    have hmark : 'e' = 'e' ∨ 'e' = 'E' := .inl rfl
    have hspells := SpellsExponent.power (signOf i) hmark hne (areDigits_ofNat i.natAbs)
    rwa [signed_signOf, ← ofInt_eq] at hspells

/-- A numeral with a digit before the point is read back from what is written for it. -/
theorem read?_spell {n : Numeral} (h : n.IsSpellable) : read? n.spell = some n :=
  read?_of_spells ⟨_, rfl, spells_exponentText n.exponent, h.digits,
    List.append_ne_nil_of_left_ne_nil h.whole_ne_nil _⟩

/-- The numeral that an integer is written as. -/
def ofInteger (i : Int) : Numeral :=
  ⟨signOf i, ofNat i.natAbs, none, none⟩

/-- An integer is written as the spelling of its numeral. -/
lemma spell_ofInteger (i : Int) : (ofInteger i).spell = ofInt i := by
  rw [spell, ofInteger, fractionText, exponentText, List.append_nil, List.append_nil, ofInt_eq]

/-- The numeral of an integer can be spelled. -/
lemma isSpellable_ofInteger (i : Int) : (ofInteger i).IsSpellable :=
  ⟨Nat.toDigits_ne_nil, (areDigits_ofNat i.natAbs).append AreDigits.nil⟩

end Numeral

end WhereClause
