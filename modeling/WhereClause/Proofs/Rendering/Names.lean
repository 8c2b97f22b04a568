import WhereClause.Proofs.Rendering.Reading

/-!
# Names and what comes behind them

What is written for a name is one token of the clause text, a word or a text between double quotes,
and the token tells the name.  So the name can be told from the text even if more text comes behind
it, as long as this begins with a blank, a comma or a closing parenthesis
(`Rendering.nameText_append_inj`).  Names with quotes, blanks or operators in them are no exception:
between the quotes around a name every quote is one of a pair.
-/

namespace WhereClause

namespace Quoted

/-- The quotes of the text can be put into pairs of neighbours. -/
inductive Paired (quote : Char) : List Char → Prop
  | nil : Paired quote []
  | other {c : Char} {cs : List Char} : c ≠ quote → Paired quote cs → Paired quote (c :: cs)
  | pair {cs : List Char} : Paired quote cs → Paired quote (quote :: quote :: cs)

/-- The quotes of a text in which every quote is doubled come in pairs. -/
lemma paired_double (quote : Char) (text : List Char) : Paired quote (double quote text) := by
  induction text with
  | nil => exact .nil
  | cons c cs ih =>
    rw [double_cons]
    split
    · rename_i hc
      rw [hc]
      exact .pair ih
    · rename_i hc
      exact .other hc ih

end Quoted

namespace Rendering

variable {name : List Char}

/-! ## The tokens of names -/

/-- The token that is written for a name. -/
def nameToken (name : List Char) : Token :=
  if IsBare name then .word (String.ofList name) else .quoted '"' (String.ofList name)

/-- The token of a name tells the name. -/
lemma nameToken_injective : Function.Injective nameToken := by
  intro a b h
  unfold nameToken at h
  split at h
  · split at h
    · exact String.ofList_injective (Token.word.inj h)
    · cases h
  · split at h
    · cases h
    · exact String.ofList_injective (Token.quoted.inj h).2

/-- What is written for a name is its token. -/
lemma scan_nameText (name : List Char) {r : List Char} (hr : Delimited r) :
    scan (nameText name ++ r) = nameToken name :: scan r := by
  unfold nameText nameToken
  split
  · rename_i hbare
    rw [← String.toList_ofList (l := name)] at hbare
    have htoken := isToken_bare hbare r hr
    rwa [String.toList_ofList] at htoken
  · exact scan_encode (.inl rfl) name (hr.head?_ne (.inl rfl))

/-! ## Quotes -/

/-- If there is a quote in what is written for a name, then the name stands between quotes, and the
quotes in between come in pairs. -/
lemma exists_paired_of_quote_mem (h : '"' ∈ nameText name) :
    ∃ content, nameText name = '"' :: (content ++ ['"']) ∧ Quoted.Paired '"' content := by
  rw [nameText] at h ⊢
  split at h
  · rename_i hbare
    exact absurd (isNameChar_of_isBare hbare '"' h) (by decide)
  · rename_i hbare
    rw [if_neg hbare]
    exact ⟨_, rfl, Quoted.paired_double '"' name⟩

/-- Whatever two names are, with quotes, blanks, line ends or operators in them or empty: if what is
written for them, with the rests of two texts behind it, comes out the same, then the names are the
same and so are the rests.  Each rest is empty or begins with a blank, a comma or a closing
parenthesis.  In particular no two names are written alike.  If there is a double quote in what is
written for a name, then there is one at either end, and those in between come in pairs. -/
theorem nameText_append_inj :
    (∀ a b r s : List Char, Delimited r → Delimited s → nameText a ++ r = nameText b ++ s →
      a = b ∧ r = s) ∧
    Function.Injective nameText ∧
    ∀ name : List Char, '"' ∈ nameText name →
      ∃ content, nameText name = '"' :: (content ++ ['"']) ∧ Quoted.Paired '"' content := by
  have hrests (a b r s : List Char) (hr : Delimited r) (hs : Delimited s)
      (h : nameText a ++ r = nameText b ++ s) : a = b ∧ r = s := by
    have htokens : nameToken a :: scan r = nameToken b :: scan s := by
      rw [← scan_nameText a hr, h, scan_nameText b hs]
    obtain rfl := nameToken_injective (List.cons.inj htokens).1
    exact ⟨rfl, List.append_cancel_left h⟩
  refine ⟨hrests, fun a b h => ?_, fun name => exists_paired_of_quote_mem⟩
  exact (hrests a b [] [] delimited_nil delimited_nil (by rw [h])).1

/-- A name with quotes and a blank in it is told from what comes behind it.  A name with a blank at
its end and a quoted text behind it are not written like the name that is made of both. -/
theorem nameText_append_inj_of_inner_quotes :
    let name := "x\" \"y".toList
    let parts := "x\"".toList ++ " \"y".toList
    let rest := ", 'z')".toList
    nameText name = "\"x\"\" \"\"y\"".toList ∧
      Delimited rest ∧ nameText name ++ rest = nameText parts ++ rest ∧ name = parts ∧
      Delimited " \"y\"".toList ∧
      nameText "x ".toList ++ " \"y\"".toList ≠ nameText "x \" \"y".toList ∧
      '"' ∈ nameText name ∧
      ∃ content, nameText name = '"' :: (content ++ ['"']) ∧ Quoted.Paired '"' content := by
  intro name parts rest
  obtain ⟨hrests, -, hquotes⟩ := nameText_append_inj
  have hrest : Delimited rest := by
    rintro c ⟨⟩
    exact .inr (.inr rfl)
  have hquoted : Delimited " \"y\"".toList := by
    rintro c ⟨⟩
    exact .inl rfl
  have hsame : nameText name ++ rest = nameText parts ++ rest := by decide +kernel
  have hmem : '"' ∈ nameText name := by decide +kernel
  refine ⟨by decide +kernel, hrest, hsame, (hrests _ _ _ _ hrest hrest hsame).1, hquoted, ?_, hmem,
    hquotes name hmem⟩
  intro h
  rw [← List.append_nil (nameText "x \" \"y".toList)] at h
  exact absurd (hrests _ _ _ _ hquoted delimited_nil h).1 (by decide +kernel)

end Rendering

end WhereClause
