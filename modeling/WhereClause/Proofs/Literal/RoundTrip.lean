import WhereClause.Proofs.Binary64.Text
import WhereClause.Proofs.Literal.Kind
import WhereClause.Proofs.Literal.Section
import WhereClause.Proofs.Timestamp.RoundTrip

/-!
# Reading the text of a value back

The text of a value is a spelling of this value, for all kinds of literals but strings
(`Literal.ofSpelling_of_text?`).  A string is read without a look at what is between its quotes, so
the doubling of quotes in its text is not undone.  `Literal.ofTree_leaf_text` says this of the nodes
of a clause.
-/

namespace WhereClause

namespace Literal

open Numeral

/-! ## Numbers -/

/-- An integer is read back from its text. -/
lemma readNumber_integer {i : Int} (h : FitsInt64 i) :
    readNumber (String.ofList (ofInt i)) = .ok (integer i) := by
  have hvalue : (ofInteger i).wholePart = i := signed_signOf i
  have hliteral : ofNumeral? (ofInteger i) = some (integer i) := by
    rw [ofNumeral?, if_pos ⟨rfl, rfl⟩, hvalue, if_pos h]
  rw [readNumber, String.toList_ofList, ← spell_ofInteger, read?_spell (isSpellable_ofInteger i),
    Option.bind_some, hliteral]

/-- A finite float is read back from its text. -/
lemma readNumber_float {x : Binary64} (h : x.IsFinite) :
    readNumber (String.ofList (x.text floatLayout)) = .ok (float x) := by
  obtain ⟨n, hspell, hspellable, -, hwhole, hx⟩ := Binary64.exists_spell_text floatLayout h
  have hliteral : ofNumeral? n = some (float x) := by
    rw [ofNumeral?, if_neg hwhole, hx]
    exact if_pos h
  rw [readNumber, String.toList_ofList, ← hspell, read?_spell hspellable, Option.bind_some,
    hliteral]

/-! ## Timestamps -/

/-- The value of a spelled timestamp is proper. -/
lemma proper_of_ofSpelling {spelling : String} {t : Timestamp}
    (h : ofSpelling .timestamp spelling = .ok (timestamp t)) : t.Proper := by
  rw [ofSpelling] at h
  split at h
  · rename_i inner _
    unfold readTimestamp at h
    split at h
    · rename_i hread
      obtain rfl : _ = t := Literal.timestamp.inj (Except.ok.inj h)
      exact Timestamp.proper_of_read? hread
    · cases h
  · cases h

/-- A proper timestamp is read back from its text. -/
lemma ofSpelling_timestamp {t : Timestamp} (h : t.Proper) {text : String}
    (htext : (timestamp t).text? = some text) :
    ofSpelling .timestamp text = .ok (timestamp t) := by
  obtain ⟨inner, hinner, rfl⟩ := Option.map_eq_some_iff.mp htext
  have hsection : quotedSection? ("TIMESTAMP " ++
      String.ofList (quote :: (inner ++ [quote]))).toList = some inner := by
    rw [String.toList_append, String.toList_ofList, String.toList_ofList]
    have hword : quote ∉ ['T', 'I', 'M', 'E', 'S', 'T', 'A', 'M', 'P', ' '] := by decide
    exact quotedSection?_of_enclosed hword inner List.not_mem_nil
  rw [ofSpelling, hsection]
  dsimp only
  rw [readTimestamp, String.toList_ofList, Timestamp.read?_of_write? h hinner]
  rfl

/-! ## All kinds -/

/-- The text of the value of a spelling spells the same value, unless it is a string. -/
theorem ofSpelling_of_text? {kind : LiteralKind} {spelling text : String} {value : Literal}
    (h : ofSpelling kind spelling = .ok value) (hkind : kind ≠ .string)
    (htext : value.text? = some text) : ofSpelling kind text = .ok value := by
  cases ofKind_of_ofSpelling h with
  | boolean b =>
    cases b with
    | true =>
      obtain rfl := Option.some.inj htext
      rfl
    | false =>
      obtain rfl := Option.some.inj htext
      rfl
  | integer hi =>
    obtain rfl := Option.some.inj htext
    exact readNumber_integer hi
  | float hx =>
    obtain rfl := Option.some.inj htext
    exact readNumber_float hx
  | string s => exact absurd rfl hkind
  | timestamp _ => exact ofSpelling_timestamp (proper_of_ofSpelling h) htext

/-- What is between the quotes of the text of a string has every quote of the string doubled. -/
lemma ofSpelling_string_encode (s : String) :
    ofSpelling .string (String.ofList (Quoted.encode quote s.toList)) =
      .ok (string (String.ofList (Quoted.double quote s.toList))) := by
  have hinner : unquote (Quoted.encode quote s.toList) = Quoted.double quote s.toList :=
    List.dropLast_concat
  rw [ofSpelling, String.toList_ofList, hinner]

/-- The value of a literal node has a text, and a node of the same kind that is spelled like this
text has a value again.  It is the same value if this is no string: the same truth value or integer,
the same float with the same sign, also of zero, the same date and time of day to the nanosecond at
the same offset.  If the value is a string, the other one is this string with every quote doubled,
and the two are the same exactly if there is no quote in them. -/
theorem ofTree_leaf_text {t : Tree} {value : Literal} (h : ofTree t = .ok value) :
    ∃ text again, value.text? = some text ∧ ofTree (.leaf t.tag text) = .ok again ∧
      ((∀ s, value ≠ string s) → again = value) ∧
      ∀ s, value = string s →
        again = string (String.ofList (Quoted.double quote s.toList)) ∧
          (again = value ↔ quote ∉ s.toList) := by
  obtain ⟨kind, htag, hspelling⟩ := ofSpelling_of_ofTree h
  have hleaf (text : String) : ofTree (.leaf t.tag text) = ofSpelling kind text := by
    rw [htag]
    rfl
  by_cases hkind : kind = .string
  · subst hkind
    cases ofKind_of_ofSpelling hspelling with
    | string s =>
      have hdoubled : string (String.ofList (Quoted.double quote s.toList)) = string s ↔
          quote ∉ s.toList := by
        rw [Literal.string.injEq, ← Quoted.double_eq_self_iff, ← String.toList_inj,
          String.toList_ofList]
      refine ⟨_, _, rfl, (hleaf _).trans (ofSpelling_string_encode s), ?_, ?_⟩
      · exact fun hne => absurd rfl (hne s)
      · intro s' hs'
        obtain rfl := Literal.string.inj hs'
        exact ⟨rfl, hdoubled⟩
  · obtain ⟨text, htext⟩ := (ofKind_of_ofSpelling hspelling).exists_text?
    have hagain := (hleaf text).trans (ofSpelling_of_text? hspelling hkind htext)
    refine ⟨text, value, htext, hagain, fun _ => rfl, ?_⟩
    rintro s rfl
    cases ofKind_of_ofSpelling hspelling
    exact absurd rfl hkind

/-- The negative zero keeps its sign, and the least integer its value.  A leap second is written as
the last nanosecond before it and keeps its offset of less than an hour behind UTC.  A string with a
doubled quote gets two quotes more. -/
theorem ofTree_leaf_text_of_extremes :
    let zero : Binary64 := ⟨true, 0, by decide⟩
    let least : Int := -9223372036854775808
    let leap : Timestamp := ⟨⟨2016, 12, 31⟩, 23, 29, 59, 999999999, -1800⟩
    ofTree (.literal .number "-0e5") = .ok (float zero) ∧
      ofTree (.literal .number "-0.0") = .ok (float zero) ∧
      ofTree (.literal .number "-09223372036854775808") = .ok (integer least) ∧
      ofTree (.literal .number "-9223372036854775808") = .ok (integer least) ∧
      ofTree (.literal .timestamp "'2016-12-31 23:29:60-00:30'") = .ok (timestamp leap) ∧
      ofTree (.literal .timestamp "TIMESTAMP '2016-12-31T23:29:59.999999999-00:30'") =
        .ok (timestamp leap) ∧
      ofTree (.literal .string "'it''s'") = .ok (string "it''s") ∧
      ofTree (.literal .string "'it''''s'") = .ok (string "it''''s") := by
  intro zero least leap
  have hzero : ofTree (.literal .number "-0e5") = .ok (float zero) := by decide +kernel
  have hleast : ofTree (.literal .number "-09223372036854775808") = .ok (integer least) := by
    decide +kernel
  have hleap : ofTree (.literal .timestamp "'2016-12-31 23:29:60-00:30'") =
      .ok (timestamp leap) := by
    decide +kernel
  have hstring : ofTree (.literal .string "'it''s'") = .ok (string "it''s") := by decide +kernel
  obtain ⟨zeroText, zeroAgain, hzeroText, hzeroAgain, hzeroSame, -⟩ := ofTree_leaf_text hzero
  obtain ⟨leastText, leastAgain, hleastText, hleastAgain, hleastSame, -⟩ := ofTree_leaf_text hleast
  obtain ⟨leapText, leapAgain, hleapText, hleapAgain, hleapSame, -⟩ := ofTree_leaf_text hleap
  obtain ⟨text, again, htext, hagain, -, hdoubled⟩ := ofTree_leaf_text hstring
  obtain rfl : "-0.0" = zeroText := Option.some.inj (Eq.trans (by decide +kernel) hzeroText)
  obtain rfl : "-9223372036854775808" = leastText :=
    Option.some.inj (Eq.trans (by decide +kernel) hleastText)
  obtain rfl : "TIMESTAMP '2016-12-31T23:29:59.999999999-00:30'" = leapText :=
    Option.some.inj (Eq.trans (by decide +kernel) hleapText)
  obtain rfl : "'it''''s'" = text := Option.some.inj (Eq.trans (by decide +kernel) htext)
  obtain rfl := hzeroSame nofun
  obtain rfl := hleastSame nofun
  obtain rfl := hleapSame nofun
  obtain rfl := (hdoubled _ rfl).1
  exact ⟨hzero, hzeroAgain, hleast, hleastAgain, hleap, hleapAgain, hstring, hagain⟩

end Literal

end WhereClause
