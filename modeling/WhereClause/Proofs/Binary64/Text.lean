import WhereClause.Proofs.Binary64.Rounding
import WhereClause.Proofs.Numeral.Reading

/-!
# Reading the text of a binary64 number back

The text of a finite number is the spelling of a numeral that is rounded to this number
(`Binary64.exists_spell_text`), so it is read back as the same number.  The value of the numeral is
that of the decimal that is written (`Binary64.Denotes`), although zeros are dropped at the end of
its digits and others are added to reach the point.
-/

namespace WhereClause

-- Powers of natural numbers are those of the core library, whatever else is in scope.
attribute [local instance (high)] instPowNat

namespace Binary64

open Numeral

/-! ## Layouts -/

/-- The numeral has a point or a power of ten, and it has the given digits, the first of which has
the place value `10 ^ lead`; there may be zeros in front of them and behind them. -/
structure Denotes (n : Numeral) (digits : List Char) (lead : Int) : Prop where
  whole_ne_nil : n.whole ≠ []
  not_isWhole : ¬n.IsWhole
  sign_eq : n.sign = none
  digits_eq : ∃ before after : Nat,
    n.digits = List.replicate before '0' ++ (digits ++ List.replicate after '0') ∧
      n.exponent.getD 0 - (n.fraction.getD []).length = lead + 1 - digits.length - after

variable {digits : List Char} {lead : Int} {n : Numeral}

/-- The numeral can be spelled. -/
lemma Denotes.isSpellable (h : Denotes n digits lead) (hdigits : AreDigits digits) :
    n.IsSpellable := by
  obtain ⟨before, after, heq, -⟩ := h.digits_eq
  refine ⟨h.whole_ne_nil, heq ▸ ?_⟩
  exact (AreDigits.replicate_zero before).append (hdigits.append (AreDigits.replicate_zero after))

/-- The numeral reads back as the magnitude that its digits without zeros read back as. -/
lemma Denotes.readsBack_toDecimal (h : Denotes n digits lead) (negative : Bool) (m : Nat) :
    readsBack m n.toDecimal =
      readsBack m ⟨negative, value digits, lead + 1 - digits.length⟩ := by
  obtain ⟨before, after, hdigits, hplace⟩ := h.digits_eq
  have hvalue : value n.digits = value digits * 10 ^ after := by
    rw [hdigits, value_zeros_append, value_append_zeros]
  have hdecimal : n.toDecimal =
      ⟨n.sign = some .minus, value n.digits, n.exponent.getD 0 - (n.fraction.getD []).length⟩ := rfl
  rw [hdecimal, hvalue, hplace, readsBack_zeros _ negative]

/-- Digits that all stand behind the point are the spelling of a numeral with these digits. -/
lemma exists_spell_of_neg (digits : List Char) (hlead : lead < 0) :
    ∃ n : Numeral, n.spell = positional digits lead ∧ Denotes n digits lead := by
  let zeros := List.replicate (-lead - 1).toNat '0'
  let n : Numeral := ⟨none, ['0'], some (zeros ++ digits), none⟩
  have hdigits : n.digits = List.replicate (1 + (-lead - 1).toNat) '0' ++
      (digits ++ List.replicate 0 '0') := by
    simp [n, zeros, Numeral.digits, List.replicate_add]
  have hplace : n.exponent.getD 0 - (n.fraction.getD []).length =
      lead + 1 - digits.length - (0 : Nat) := by
    simp only [n, zeros, Option.getD_none, Option.getD_some, List.length_append,
      List.length_replicate]
    omega
  refine ⟨n, ?_, List.cons_ne_nil _ _, nofun, rfl, _, _, hdigits, hplace⟩
  rw [positional, if_pos hlead]
  simp [n, zeros, spell, signText, fractionText, exponentText]

/-- Digits on both sides of the point are the spelling of a numeral with these digits. -/
lemma exists_spell_of_lt_length (hlead : ¬lead < 0) (hlong : lead.toNat + 1 < digits.length) :
    ∃ n : Numeral, n.spell = positional digits lead ∧ Denotes n digits lead := by
  let places := lead.toNat + 1
  let n : Numeral := ⟨none, digits.take places, some (digits.drop places), none⟩
  have hfraction : digits.drop places ≠ [] := by simpa [places] using hlong
  have hfull : (digits.take places).length = places := List.length_take_of_le (by omega)
  have hwhole : (digits.take places).rightpad places '0' = digits.take places := by
    rw [List.rightpad, hfull, Nat.sub_self, List.replicate_zero, List.append_nil]
  have hplace : n.exponent.getD 0 - (n.fraction.getD []).length =
      lead + 1 - digits.length - (0 : Nat) := by
    simp only [n, places, Option.getD_none, Option.getD_some, List.length_drop]
    omega
  have hne : digits.take places ≠ [] := List.ne_nil_of_length_pos (by omega)
  refine ⟨n, ?_, hne, nofun, rfl, 0, 0, by simp [n, Numeral.digits], hplace⟩
  rw [positional, if_neg hlead]
  dsimp only
  rw [hwhole, if_neg hfraction]
  simp [n, places, spell, signText, fractionText, exponentText]

/-- Digits that all stand in front of the point, with zeros behind them as far as they are needed,
are the spelling of a numeral with these digits. -/
lemma exists_spell_of_length_le (hlead : ¬lead < 0) (hshort : digits.length ≤ lead.toNat + 1) :
    ∃ n : Numeral, n.spell = positional digits lead ∧ Denotes n digits lead := by
  let places := lead.toNat + 1
  let n : Numeral := ⟨none, digits.rightpad places '0', some ['0'], none⟩
  have hfraction : digits.drop places = [] := List.drop_eq_nil_of_le hshort
  have hne : digits.rightpad places '0' ≠ [] := by
    apply List.ne_nil_of_length_pos
    rw [List.rightpad, List.length_append, List.length_replicate]
    omega
  have hdigits : n.digits = List.replicate 0 '0' ++
      (digits ++ List.replicate (places - digits.length + 1) '0') := by
    simp [n, Numeral.digits, List.rightpad, List.replicate_add]
  have hplace : n.exponent.getD 0 - (n.fraction.getD []).length =
      lead + 1 - digits.length - (places - digits.length + 1 : Nat) := by
    simp only [n, places, Option.getD_none, Option.getD_some, List.length_singleton]
    omega
  refine ⟨n, ?_, hne, nofun, rfl, _, _, hdigits, hplace⟩
  rw [positional, if_neg hlead]
  dsimp only
  rw [if_pos hfraction, List.take_of_length_le hshort]
  simp [n, places, spell, signText, fractionText, exponentText]

/-- Digits with a point are the spelling of a numeral with these digits. -/
lemma exists_spell_positional (digits : List Char) (lead : Int) :
    ∃ n : Numeral, n.spell = positional digits lead ∧ Denotes n digits lead := by
  by_cases hlead : lead < 0
  · exact exists_spell_of_neg digits hlead
  · rcases Nat.lt_or_ge (lead.toNat + 1) digits.length with hlong | hshort
    · exact exists_spell_of_lt_length hlead hlong
    · exact exists_spell_of_length_le hlead hshort

/-- Digits with a power of ten are the spelling of a numeral with these digits. -/
lemma exists_spell_scientific (hne : digits ≠ []) (lead : Int) :
    ∃ n : Numeral, n.spell = scientific digits lead ∧ Denotes n digits lead := by
  rcases digits with _ | ⟨d, _ | ⟨e, ds⟩⟩
  · exact absurd rfl hne
  · exact ⟨⟨none, [d], none, some lead⟩, rfl, hne, nofun, rfl, 0, 0, rfl, by simp⟩
  · refine ⟨⟨none, [d], some (e :: ds), some lead⟩, rfl, List.cons_ne_nil _ _, nofun, rfl, 0, 0,
      by simp [Numeral.digits], ?_⟩
    simp only [Option.getD_some, List.length_cons]
    omega

/-! ## Texts -/

/-- A decimal other than zero is written as the spelling of a numeral with the same value. -/
lemma exists_spell_write (layout : Layout) {d : Decimal} (hd : d.significand ≠ 0) :
    ∃ n : Numeral, n.spell = layout.write d ∧ n.IsSpellable ∧ n.sign = none ∧ ¬n.IsWhole ∧
      ∀ m, readsBack m n.toDecimal = readsBack m d := by
  let all := ofNat d.significand
  let digits := all.rdropWhile (· == '0')
  let lead : Int := d.exponent + all.length - 1
  obtain ⟨zeros, hzeros⟩ := rdropWhile_append_zeros all
  have hvalue : value digits * 10 ^ zeros = d.significand := by
    rw [← value_append_zeros, hzeros, value_ofNat]
  have hdigits : AreDigits digits :=
    (areDigits_ofNat _).of_subset (List.rdropWhile_prefix _ _).subset
  have hne : digits ≠ [] := by
    intro hnil
    rw [hnil, value, Nat.ofDigitChars_nil, Nat.zero_mul] at hvalue
    exact hd hvalue.symm
  have hplace : lead + 1 - digits.length - zeros = d.exponent := by
    have hlength : digits.length + zeros = all.length := by
      rw [← hzeros, List.length_append, List.length_replicate]
    omega
  obtain ⟨n, hspell, hn⟩ : ∃ n : Numeral, n.spell = layout.write d ∧ Denotes n digits lead := by
    rw [Layout.write]
    split
    · exact exists_spell_positional digits lead
    · exact exists_spell_scientific hne lead
  refine ⟨n, hspell, hn.isSpellable hdigits, hn.sign_eq, hn.not_isWhole, fun m => ?_⟩
  rw [hn.readsBack_toDecimal d.negative, ← readsBack_zeros d.negative _ _ zeros, hvalue, hplace]

/-- The text of a finite magnitude is the spelling of a numeral that is rounded to the magnitude. -/
lemma exists_spell_magnitudeText (layout : Layout) {m : Nat} (hm : m < infinity) :
    ∃ n : Numeral, n.spell = magnitudeText layout m ∧ n.IsSpellable ∧ n.sign = none ∧ ¬n.IsWhole ∧
      nearestDecimal n.toDecimal = m := by
  rw [magnitudeText, if_pos hm]
  split
  · rename_i hzero
    exact ⟨⟨none, ['0'], some ['0'], none⟩, rfl,
      ⟨List.cons_ne_nil _ _, AreDigits.replicate_zero 2⟩, rfl, nofun, hzero ▸ rfl⟩
  · rename_i hne
    obtain ⟨n, hspell, hspellable, hsign, hwhole, hvalue⟩ :=
      exists_spell_write layout (significand_shortest_ne_zero hm hne)
    refine ⟨n, hspell, hspellable, hsign, hwhole, nearestDecimal_of_readsBack hm ?_⟩
    rw [hvalue]
    exact readsBack_shortest hm

/-- The text of a finite number is the spelling of a numeral whose nearest number it is. -/
theorem exists_spell_text (layout : Layout) {x : Binary64} (hx : x.IsFinite) :
    ∃ n : Numeral, n.spell = x.text layout ∧ n.IsSpellable ∧ n.sign ≠ some .plus ∧ ¬n.IsWhole ∧
      ofDecimal n.toDecimal = x := by
  obtain ⟨⟨sign, whole, fraction, exponent⟩, hspell, hspellable, hsign, hwhole, hnearest⟩ :=
    exists_spell_magnitudeText layout hx
  obtain rfl : sign = none := hsign
  have hnan : ¬x.IsNaN := Nat.lt_asymm hx
  obtain ⟨negative, magnitude, hlt⟩ := x
  obtain rfl : _ = magnitude := hnearest
  rw [text, if_neg hnan, ← hspell]
  cases negative with
  | false => exact ⟨_, rfl, hspellable, nofun, hwhole, rfl⟩
  | true =>
    exact ⟨⟨some .minus, whole, fraction, exponent⟩, rfl,
      ⟨hspellable.whole_ne_nil, hspellable.digits⟩, nofun, hwhole, rfl⟩

end Binary64

end WhereClause
