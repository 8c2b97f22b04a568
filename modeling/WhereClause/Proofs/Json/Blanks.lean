import WhereClause.Proofs.Json.Layout

/-!
# Blanks that mean nothing

The blanks of a JSON text that mean nothing are those outside quotes, and `Json.withoutBlanks`
leaves them out.  What is left of a layout of tokens are the tokens closed up, whatever blanks were
between them (`Token.dropBlanks_of_layout`): a text on indented lines differs from the text without
blanks in nothing else (`Json.withoutBlanks_indented`).
-/

namespace WhereClause

namespace Json

namespace Token

/-! ## Leaving blanks out -/

/-- Where a character stands. -/
inductive Place
  | outside
  /-- Between quotes. -/
  | inside
  /-- Directly after a backslash between quotes. -/
  | escaped

/-- Leaves out the blanks outside quotes, in a text that begins at the given place. -/
def dropBlanks : Place → List Char → List Char
  | _, [] => []
  | .outside, c :: cs =>
    if IsBlank c then dropBlanks .outside cs
    else c :: dropBlanks (if c = '"' then .inside else .outside) cs
  | .inside, c :: cs =>
    c :: dropBlanks (if c = '"' then .outside else if c = '\\' then .escaped else .inside) cs
  | .escaped, c :: cs => c :: dropBlanks .inside cs

/-- Blanks are left out. -/
lemma dropBlanks_blanks {blanks : List Char} (h : ∀ c ∈ blanks, IsBlank c) (rest : List Char) :
    dropBlanks .outside (blanks ++ rest) = dropBlanks .outside rest := by
  induction blanks with
  | nil => rfl
  | cons c cs ih =>
    obtain ⟨hc, hcs⟩ := List.forall_mem_cons.mp h
    rw [List.cons_append, dropBlanks, if_pos hc, ih hcs]

/-- A character between quotes stays. -/
lemma dropBlanks_inside {c : Char} (hquote : c ≠ '"') (hbackslash : c ≠ '\\') (rest : List Char) :
    dropBlanks .inside (c :: rest) = c :: dropBlanks .inside rest := by
  rw [dropBlanks, if_neg hquote, if_neg hbackslash]

/-! ## Tokens -/

/-- The digit for a number below sixteen is neither a quote nor a backslash. -/
lemma digitChar_ne {n : Nat} (h : n < 16) : Nat.digitChar n ≠ '"' ∧ Nat.digitChar n ≠ '\\' := by
  have key : ∀ n < 16, Nat.digitChar n ≠ '"' ∧ Nat.digitChar n ≠ '\\' := by decide
  exact key n h

/-- What is written for a character between quotes stays. -/
lemma dropBlanks_escape (c : Char) (rest : List Char) :
    dropBlanks .inside (escape c ++ rest) = escape c ++ dropBlanks .inside rest := by
  unfold escape
  split_ifs with hquote _ _ _ _ _ hcontrol
  · rfl
  · rfl
  · rfl
  · rfl
  · rfl
  · rfl
  · obtain ⟨hhigh, hhigh'⟩ := digitChar_ne (n := c.toNat / 16) (by omega)
    obtain ⟨hlow, hlow'⟩ := digitChar_ne (n := c.toNat % 16) (by omega)
    change '\\' :: 'u' :: '0' :: '0' :: dropBlanks .inside (_ :: _ :: rest) = _
    rw [dropBlanks_inside hhigh hhigh', dropBlanks_inside hlow hlow']
    rfl
  · obtain ⟨hne, hne'⟩ := not_or.mp hquote
    exact dropBlanks_inside hne hne' rest

/-- A text in quotes stays. -/
lemma dropBlanks_quoted (s : String) (rest : List Char) :
    dropBlanks .outside (quoted s ++ rest) = quoted s ++ dropBlanks .outside rest := by
  have hinside (cs rest : List Char) : dropBlanks .inside (cs.flatMap escape ++ rest) =
      cs.flatMap escape ++ dropBlanks .inside rest := by
    induction cs with
    | nil => rfl
    | cons c cs ih =>
      rw [List.flatMap_cons, List.append_assoc, dropBlanks_escape, ih, List.append_assoc]
  rw [quoted, List.cons_append, List.append_assoc]
  change '"' :: dropBlanks .inside (s.toList.flatMap escape ++ (['"'] ++ rest)) = _
  rw [hinside]
  simp [dropBlanks]

/-- What is written for a token stays, if this is no number. -/
lemma dropBlanks_text {t : Token} (h : ∀ d, t ≠ number d) (rest : List Char) :
    dropBlanks .outside (t.text ++ rest) = t.text ++ dropBlanks .outside rest := by
  cases t with
  | string s => exact dropBlanks_quoted s rest
  | boolean b => cases b <;> rfl
  | number d => exact absurd rfl (h d)
  | openBrace | closeBrace | openBracket | closeBracket | colon | comma | null => rfl

/-- What is left of a layout are the tokens closed up. -/
theorem dropBlanks_of_layout {ts : List Token} {text : List Char} (h : Layout ts text)
    (hnumber : NumberFree ts) : dropBlanks .outside text = compact ts := by
  induction h with
  | @nil blanks hblanks =>
    have hskip := dropBlanks_blanks hblanks []
    rwa [List.append_nil] at hskip
  | cons hblanks _ _ ih =>
    obtain ⟨hhead, htail⟩ := numberFree_cons.mp hnumber
    rw [dropBlanks_blanks hblanks, dropBlanks_text hhead, ih htail, compact, compact,
      List.flatMap_cons]

end Token

open Token

/-! ## Texts of values -/

/-- The JSON text without the blanks outside quotes. -/
def withoutBlanks (text : String) : String :=
  String.ofList (dropBlanks .outside text.toList)

/-- There is nothing to leave out of the text without blanks of a value without numbers. -/
theorem withoutBlanks_compact {v : Json} (h : v.NumberFree) :
    withoutBlanks v.compact = v.compact := by
  have hlayout := layout_compact (separate_tokens v)
  rw [withoutBlanks, Json.compact, String.toList_ofList,
    dropBlanks_of_layout hlayout (numberFree_tokens h)]

/-- What is left of the text of a value without numbers on indented lines is its text without
blanks. -/
theorem withoutBlanks_indented {v : Json} (h : v.NumberFree) :
    withoutBlanks v.indented = v.compact := by
  have hlayout := layout_indented (separate_tokens v)
  rw [withoutBlanks, Json.indented, Json.compact, String.toList_ofList,
    dropBlanks_of_layout hlayout (numberFree_tokens h)]

end Json

end WhereClause
