import WhereClause.Json.Document
import Mathlib.Data.List.Chain

/-!
# Layouts of tokens

A text is a layout of some tokens if it consists of what is written for them, with blanks before,
between and after them, and if no two words run together (`Token.Layout`).  Dividing a layout into
tokens finds these tokens (`Token.scan?_of_layout`), so the blanks mean nothing.

In the tokens of a value no two words stand next to each other, so its text without blanks and its
text on indented lines are layouts as well, and the tokens are found in them (`Json.scan?_compact`,
`Json.scan?_indented`).  Only numbers are left out here: they are read rounded.
-/

namespace WhereClause

namespace Json

namespace Token

/-! ## Layouts -/

/-- The token is written as a word or number, which ends where the next character is no longer one
of a word. -/
def IsWord : Token → Prop
  | null | boolean _ | number _ => True
  | _ => False

/-- A word may stand before this text. -/
def Delimits (text : List Char) : Prop :=
  ∀ c ∈ text.head?, ¬IsWordChar c

/-- The text consists of what is written for the tokens, with blanks around them, and nothing that
continues a word stands directly after it. -/
inductive Layout : List Token → List Char → Prop
  | nil {blanks : List Char} : (∀ c ∈ blanks, IsBlank c) → Layout [] blanks
  | cons {t : Token} {ts : List Token} {blanks rest : List Char} :
      (∀ c ∈ blanks, IsBlank c) → (t.IsWord → Delimits rest) → Layout ts rest →
      Layout (t :: ts) (blanks ++ (t.text ++ rest))

/-- There is no number among the tokens. -/
def NumberFree (ts : List Token) : Prop :=
  ∀ d, number d ∉ ts

/-- Tokens are without a number if the first one is none and the others are. -/
lemma numberFree_cons {t : Token} {ts : List Token} :
    NumberFree (t :: ts) ↔ (∀ d, t ≠ number d) ∧ NumberFree ts := by
  simp only [NumberFree, List.mem_cons, not_or, forall_and, ne_comm, ne_eq]

/-- The tokens of a text that comes after some tokens, the last one of them first. -/
def scanAfter (before : List Token) (text : List Char) : Option (List Token) := do
  (← text.foldlM Scanner.step ⟨before, .between⟩).finish?

/-- Blanks between tokens are skipped. -/
lemma scanAfter_blanks {blanks : List Char} (h : ∀ c ∈ blanks, IsBlank c) (before : List Token)
    (rest : List Char) : scanAfter before (blanks ++ rest) = scanAfter before rest := by
  induction blanks with
  | nil => rfl
  | cons c cs ih =>
    obtain ⟨hc, hcs⟩ := List.forall_mem_cons.mp h
    have hstep : Scanner.step ⟨before, .between⟩ c = some ⟨before, .between⟩ := if_pos hc
    rw [← ih hcs, scanAfter, List.cons_append, List.foldlM_cons, hstep]
    rfl

/-! ## Words -/

/-- A character of a word begins a word, as it is neither a blank nor a quote. -/
lemma begin_of_isWordChar {c : Char} (h : IsWordChar c) (before : List Token) :
    begin before c = some ⟨before, .word [c]⟩ := by
  have hblank : ¬IsBlank c := by
    rintro (rfl | rfl | rfl | rfl) <;> exact absurd h (by decide)
  have hquote : c ≠ '"' := by
    rintro rfl
    exact absurd h (by decide)
  rw [begin, if_neg hblank, if_neg hquote, if_pos h]

/-- Inside a word the characters of a word are collected. -/
lemma foldlM_word {word : List Char} (h : ∀ c ∈ word, IsWordChar c) (before : List Token)
    (taken rest : List Char) :
    (word ++ rest).foldlM Scanner.step ⟨before, .word taken⟩ =
      rest.foldlM Scanner.step ⟨before, .word (word.reverse ++ taken)⟩ := by
  induction word generalizing taken with
  | nil => rfl
  | cons c cs ih =>
    obtain ⟨hc, hcs⟩ := List.forall_mem_cons.mp h
    have hstep : Scanner.step ⟨before, .word taken⟩ c = some ⟨before, .word (c :: taken)⟩ :=
      if_pos hc
    rw [List.cons_append, List.foldlM_cons, hstep, Option.bind_eq_bind, Option.bind_some, ih hcs,
      List.reverse_cons, List.append_assoc, List.singleton_append]

/-- No token is written without characters. -/
lemma ofWord?_nil : ofWord? [] = none := by
  decide +kernel

/-- A word that is a token is found if nothing that follows continues it. -/
lemma scanAfter_word {word rest : List Char} {t : Token} (hword : ∀ c ∈ word, IsWordChar c)
    (ht : ofWord? word = some t) (hrest : Delimits rest) (before : List Token) :
    scanAfter before (word ++ rest) = scanAfter (t :: before) rest := by
  have hne : word ≠ [] := by
    rintro rfl
    exact nomatch ofWord?_nil.symm.trans ht
  obtain ⟨c, cs, rfl⟩ := List.exists_cons_of_ne_nil hne
  obtain ⟨hc, hcs⟩ := List.forall_mem_cons.mp hword
  have htaken : (cs.reverse ++ [c]).reverse = c :: cs := by simp
  rw [scanAfter, List.cons_append, List.foldlM_cons]
  have hfirst : Scanner.step ⟨before, .between⟩ c = some ⟨before, .word [c]⟩ :=
    begin_of_isWordChar hc before
  rw [hfirst, Option.bind_eq_bind, Option.bind_eq_bind, Option.bind_some, foldlM_word hcs]
  cases rest with
  | nil =>
    change (ofWord? (cs.reverse ++ [c]).reverse).map _ = _
    rw [htaken, ht]
    rfl
  | cons d ds =>
    have hd : ¬IsWordChar d := hrest d rfl
    have hlast : Scanner.step ⟨before, .word (cs.reverse ++ [c])⟩ d =
        Scanner.step ⟨t :: before, .between⟩ d := by
      change (if IsWordChar d then _ else _) = begin (t :: before) d
      rw [if_neg hd, htaken, ht]
      rfl
    rw [List.foldlM_cons, hlast]
    rfl

/-! ## Quotes -/

/-- The digit for a number below sixteen has this number as its value. -/
lemma hexValue?_digitChar {n : Nat} (h : n < 16) : hexValue? (Nat.digitChar n) = some n := by
  have key : ∀ n < 16, hexValue? (Nat.digitChar n) = some n := by decide
  exact key n h

/-- The four digits of an escape are collected one by one. -/
lemma step_hex {c : Char} {digit : Nat} (h : hexValue? c = some digit) (before : List Token)
    (taken : List Char) {count : Nat} (hcount : count < 3) (value : Nat) :
    Scanner.step ⟨before, .hex taken none count value⟩ c =
      some ⟨before, .hex taken none (count + 1) (16 * value + digit)⟩ := by
  change (do let value := 16 * value + (← hexValue? c); if count < 3 then _ else _) = _
  rw [h]
  exact if_pos hcount

/-- The last digit of an escape completes the number of a character. -/
lemma step_hex_last {c : Char} {digit value : Nat} (h : hexValue? c = some digit)
    (hcontrol : 16 * value + digit < 32) (before : List Token) (taken : List Char) :
    Scanner.step ⟨before, .hex taken none 3 value⟩ c =
      some ⟨before, .quotes (Char.ofNat (16 * value + digit) :: taken) none⟩ := by
  have hhigh : ¬IsHighSurrogate (16 * value + digit) := fun hs => by have := hs.1; omega
  have hlow : ¬IsLowSurrogate (16 * value + digit) := fun hs => by have := hs.1; omega
  change (do let value := 16 * value + (← hexValue? c); if 3 < 3 then _ else _) = _
  rw [h]
  change ofUnit before taken none (16 * value + digit) = _
  rw [ofUnit, if_neg hhigh, if_neg hlow]

/-- What is written for a character inside quotes is read as this character. -/
lemma foldlM_escape (c : Char) (before : List Token) (taken rest : List Char) :
    (escape c ++ rest).foldlM Scanner.step ⟨before, .quotes taken none⟩ =
      rest.foldlM Scanner.step ⟨before, .quotes (c :: taken) none⟩ := by
  unfold escape
  split_ifs with hquote hb hf hn hr ht hcontrol
  · rcases hquote with rfl | rfl <;> rfl
  · rw [hb]; rfl
  · rw [hf]; rfl
  · rw [hn]; rfl
  · rw [hr]; rfl
  · rw [ht]; rfl
  · have hzero : hexValue? '0' = some 0 := rfl
    have hhigh := hexValue?_digitChar (n := c.toNat / 16) (by omega)
    have hlow := hexValue?_digitChar (n := c.toNat % 16) (by omega)
    have hvalue : 16 * (16 * (16 * (16 * 0 + 0) + 0) + c.toNat / 16) + c.toNat % 16 = c.toNat := by
      omega
    have hbelow := hvalue.symm ▸ hcontrol
    change (do
      let s ← Scanner.step ⟨before, .hex taken none 0 0⟩ '0'
      let s ← s.step '0'
      let s ← s.step (Nat.digitChar (c.toNat / 16))
      let s ← s.step (Nat.digitChar (c.toNat % 16))
      rest.foldlM Scanner.step s) = _
    simp only [Option.bind_eq_bind, Option.bind_some,
      step_hex hzero before taken (by decide : 0 < 3),
      step_hex hzero before taken (by decide : 0 + 1 < 3),
      step_hex hhigh before taken (by decide : 0 + 1 + 1 < 3),
      step_hex_last hlow hbelow, hvalue, Char.ofNat_toNat]
  · have hstep : Scanner.step ⟨before, .quotes taken none⟩ c =
        some ⟨before, .quotes (c :: taken) none⟩ := by
      obtain ⟨hne, hne'⟩ := not_or.mp hquote
      change (if c = '"' then _ else if c = '\\' then _ else if c.toNat < 32 then _ else _) = _
      rw [if_neg hne, if_neg hne', if_neg hcontrol]
    rw [List.singleton_append, List.foldlM_cons, hstep]
    rfl

/-- Inside quotes a text is read as it was written. -/
lemma foldlM_flatMap_escape (text : List Char) (before : List Token) (taken rest : List Char) :
    (text.flatMap escape ++ rest).foldlM Scanner.step ⟨before, .quotes taken none⟩ =
      rest.foldlM Scanner.step ⟨before, .quotes (text.reverse ++ taken) none⟩ := by
  induction text generalizing taken with
  | nil => rfl
  | cons c cs ih =>
    rw [List.flatMap_cons, List.append_assoc, foldlM_escape, ih, List.reverse_cons,
      List.append_assoc, List.singleton_append]

/-- A text in quotes is found, whatever follows it. -/
lemma scanAfter_quoted (s : String) (before : List Token) (rest : List Char) :
    scanAfter before (quoted s ++ rest) = scanAfter (string s :: before) rest := by
  have hopen : Scanner.step ⟨before, .between⟩ '"' = some ⟨before, .quotes [] none⟩ := rfl
  have hclose : Scanner.step ⟨before, .quotes (s.toList.reverse ++ []) none⟩ '"' =
      some ⟨string s :: before, .between⟩ := by
    change some (Scanner.mk (string (String.ofList (s.toList.reverse ++ []).reverse) :: before) _) =
      _
    rw [List.append_nil, List.reverse_reverse, String.ofList_toList]
  rw [scanAfter, quoted, List.cons_append, List.foldlM_cons, hopen, Option.bind_eq_bind,
    Option.bind_eq_bind, Option.bind_some, List.append_assoc, foldlM_flatMap_escape,
    List.singleton_append, List.foldlM_cons, hclose]
  rfl

/-! ## Scanning a layout -/

/-- `null` and the truth values consist of characters of a word. -/
lemma isWordChar_of_mem_text {t : Token} (ht : t.IsWord) (hnumber : ∀ d, t ≠ number d) :
    ∀ c ∈ t.text, IsWordChar c := by
  match t with
  | null | boolean true | boolean false =>
    simp only [text, List.forall_mem_cons, List.not_mem_nil, false_imp_iff, implies_true, and_true]
    decide
  | number d => exact absurd rfl (hnumber d)

/-- `null` and the truth values are tokens by their spelling. -/
lemma ofWord?_text {t : Token} (ht : t.IsWord) (hnumber : ∀ d, t ≠ number d) :
    ofWord? t.text = some t := by
  match t with
  | null | boolean true | boolean false => decide +kernel
  | number d => exact absurd rfl (hnumber d)

/-- What is written for a token is found before what follows, unless a word runs on or the token is
a number. -/
lemma scanAfter_text {t : Token} (hnumber : ∀ d, t ≠ number d) {rest : List Char}
    (hrest : t.IsWord → Delimits rest) (before : List Token) :
    scanAfter before (t.text ++ rest) = scanAfter (t :: before) rest := by
  by_cases ht : t.IsWord
  · have hword := isWordChar_of_mem_text ht hnumber
    exact scanAfter_word hword (ofWord?_text ht hnumber) (hrest ht) before
  · cases t with
    | string s => exact scanAfter_quoted s before rest
    | openBrace | closeBrace | openBracket | closeBracket | colon | comma => rfl
    | null | boolean _ | number _ => exact absurd trivial ht

/-- The tokens of a layout are found in it, after those that come before. -/
lemma scanAfter_of_layout {ts : List Token} {text : List Char} (h : Layout ts text)
    (hnumber : NumberFree ts) (before : List Token) :
    scanAfter before text = some (before.reverse ++ ts) := by
  induction h generalizing before with
  | @nil blanks hblanks =>
    have hskip := scanAfter_blanks hblanks before []
    rw [List.append_nil] at hskip
    rw [hskip, List.append_nil]
    rfl
  | cons hblanks hrest _ ih =>
    obtain ⟨hhead, htail⟩ := numberFree_cons.mp hnumber
    rw [scanAfter_blanks hblanks, scanAfter_text hhead hrest, ih htail, List.reverse_cons,
      List.append_assoc, List.singleton_append]

/-- Dividing a layout into tokens finds the tokens that are laid out. -/
theorem scan?_of_layout {ts : List Token} {text : List Char} (h : Layout ts text)
    (hnumber : NumberFree ts) : scan? text = some ts :=
  scanAfter_of_layout h hnumber []

/-! ## The layout without blanks -/

/-- No two words stand next to each other. -/
def Separate (ts : List Token) : Prop :=
  ts.IsChain fun s t => ¬(s.IsWord ∧ t.IsWord)

/-- What is written for a token that is no word ends a word before it. -/
lemma delimits_text {t : Token} (h : ¬t.IsWord) (rest : List Char) : Delimits (t.text ++ rest) := by
  intro c hc
  cases t with
  | null | boolean _ | number _ => exact absurd trivial h
  | openBrace | closeBrace | openBracket | closeBracket | colon | comma | string _ =>
    obtain rfl := Option.some.inj hc
    decide

/-- Tokens without two words next to each other are laid out by what is written for them. -/
theorem layout_compact {ts : List Token} (h : Separate ts) : Layout ts (compact ts) := by
  induction ts with
  | nil => exact .nil (fun c hc => nomatch hc)
  | cons t ts ih =>
    have hrest : t.IsWord → Delimits (compact ts) := by
      intro ht
      cases ts with
      | nil => exact fun c hc => nomatch hc
      | cons u us =>
        have hu : ¬u.IsWord := fun hu => h.rel ⟨ht, hu⟩
        exact delimits_text hu (compact us)
    have hlayout : Layout (t :: ts) ([] ++ (t.text ++ compact ts)) :=
      .cons (fun c hc => nomatch hc) hrest (ih h.tail)
    exact hlayout

/-! ## The layout on indented lines -/

/-- A blank is no character of a word. -/
lemma not_isWordChar_of_isBlank {c : Char} (h : IsBlank c) : ¬IsWordChar c := by
  rcases h with rfl | rfl | rfl | rfl <;> decide

/-- A word may stand before blanks where it may stand before what follows them. -/
lemma delimits_blanks {blanks rest : List Char} (h : ∀ c ∈ blanks, IsBlank c)
    (hrest : Delimits rest) : Delimits (blanks ++ rest) := by
  cases blanks with
  | nil => exact hrest
  | cons b bs =>
    intro c hc
    obtain rfl := Option.some.inj hc
    exact not_isWordChar_of_isBlank (h b List.mem_cons_self)

/-- A new line consists of blanks. -/
lemma isBlank_of_mem_newline {level : Nat} {c : Char} (h : c ∈ newline level) : IsBlank c := by
  rcases List.mem_cons.mp h with rfl | h
  · decide
  · obtain rfl := List.eq_of_mem_replicate h
    decide

/-- Between two tokens on indented lines there are blanks. -/
lemma isBlank_of_mem_gap {level : Nat} {before after : Token} {c : Char}
    (h : c ∈ gap level before after) : IsBlank c := by
  unfold gap at h
  split at h
  · exact nomatch h
  · exact nomatch h
  · exact isBlank_of_mem_newline h
  · exact isBlank_of_mem_newline h
  · exact isBlank_of_mem_newline h
  · exact isBlank_of_mem_newline h
  · exact isBlank_of_mem_newline h
  · obtain rfl := List.mem_singleton.mp h
    decide
  · exact nomatch h

/-- After a word on indented lines nothing continues it if no other word comes next. -/
lemma delimits_indentedAfter {t : Token} {ts : List Token} (ht : t.IsWord)
    (h : Separate (t :: ts)) (level : Nat) : Delimits (indentedAfter level t ts) := by
  cases ts with
  | nil => exact fun c hc => nomatch hc
  | cons u us =>
    have hu : ¬u.IsWord := fun hu => h.rel ⟨ht, hu⟩
    rw [indentedAfter, List.append_assoc]
    exact delimits_blanks (fun c => isBlank_of_mem_gap) (delimits_text hu _)

/-- Tokens without two words next to each other are laid out on indented lines after another
token. -/
lemma layout_indentedAfter {ts : List Token} (h : Separate ts) (level : Nat) (before : Token) :
    Layout ts (indentedAfter level before ts) := by
  induction ts generalizing level before with
  | nil => exact .nil (fun c hc => nomatch hc)
  | cons t ts ih =>
    rw [indentedAfter, List.append_assoc]
    exact .cons (fun c => isBlank_of_mem_gap) (fun ht => delimits_indentedAfter ht h _)
      (ih h.tail _ t)

/-- Tokens without two words next to each other are laid out on indented lines. -/
theorem layout_indented {ts : List Token} (h : Separate ts) : Layout ts (indented ts) := by
  cases ts with
  | nil => exact .nil (fun c hc => nomatch hc)
  | cons t ts =>
    have hlayout : Layout (t :: ts) ([] ++ (t.text ++ indentedAfter (levelAfter 0 t) t ts)) :=
      .cons (fun c hc => nomatch hc) (fun ht => delimits_indentedAfter ht h _)
        (layout_indentedAfter h.tail _ t)
    exact hlayout

/-! ## Words next to each other -/

/-- A token that is no word separates what stands before it from what follows. -/
lemma separate_cons {t : Token} (h : ¬t.IsWord) {ts : List Token} :
    Separate (t :: ts) ↔ Separate ts := by
  rw [Separate, List.isChain_cons]
  exact and_iff_right fun _ _ hboth => h hboth.1

/-- A token that is no word may stand after a word. -/
lemma separate_null_cons {t : Token} (h : ¬t.IsWord) {ts : List Token} :
    Separate (null :: t :: ts) ↔ Separate ts := by
  have hpair : Separate (null :: t :: ts) ↔ Separate (t :: ts) :=
    List.isChain_cons_cons.trans (and_iff_right fun hboth => h hboth.2)
  exact hpair.trans (separate_cons h)

/-- Any token may stand where a word may stand. -/
lemma separate_cons_of_null {ts : List Token} (h : Separate (null :: ts)) (t : Token) :
    Separate (t :: ts) := by
  rw [Separate, List.isChain_cons] at h ⊢
  exact ⟨fun u hu hboth => h.1 u hu ⟨trivial, hboth.2⟩, h.2⟩

end Token

open Token

/-! ## The tokens of a value -/

mutual

/-- The tokens of a value have no two words next to each other if a word may stand before the tokens
that follow. -/
lemma separate_tokensThen (v : Json) {rest : List Token} (h : Separate (.null :: rest)) :
    Separate (tokensThen v rest) := by
  have hrest : Separate rest := h.tail
  match v with
  | null | boolean _ | number _ | string _ => exact separate_cons_of_null h _
  | array [] | object [] => exact (separate_cons id).mpr ((separate_cons id).mpr hrest)
  | array (v :: vs) =>
    have hitems := separate_itemsThen vs ((separate_null_cons (t := .closeBracket) id).mpr hrest)
    exact (separate_cons id).mpr (separate_tokensThen v hitems)
  | object ((k, v) :: ms) =>
    have hmembers := separate_membersThen ms ((separate_null_cons (t := .closeBrace) id).mpr hrest)
    refine (separate_cons id).mpr ((separate_cons id).mpr ((separate_cons id).mpr ?_))
    exact separate_tokensThen v hmembers

/-- Further items may stand after a word. -/
lemma separate_itemsThen (vs : List Json) {rest : List Token} (h : Separate (.null :: rest)) :
    Separate (.null :: itemsThen vs rest) := by
  match vs with
  | [] => exact h
  | v :: vs =>
    exact (separate_null_cons id).mpr (separate_tokensThen v (separate_itemsThen vs h))

/-- Further members may stand after a word. -/
lemma separate_membersThen (ms : List (String × Json)) {rest : List Token}
    (h : Separate (.null :: rest)) : Separate (.null :: membersThen ms rest) := by
  match ms with
  | [] => exact h
  | (k, v) :: ms =>
    refine (separate_null_cons id).mpr ((separate_cons id).mpr ((separate_cons id).mpr ?_))
    exact separate_tokensThen v (separate_membersThen ms h)

end

/-- The tokens of a value have no two words next to each other. -/
theorem separate_tokens (v : Json) : Separate v.tokens :=
  separate_tokensThen v (List.isChain_singleton _)

/-- There is no number in the value. -/
inductive NumberFree : Json → Prop
  | null : NumberFree null
  | boolean (value : Bool) : NumberFree (boolean value)
  | string (value : String) : NumberFree (string value)
  | array {items : List Json} : (∀ v ∈ items, NumberFree v) → NumberFree (array items)
  | object {members : List (String × Json)} :
      (∀ m ∈ members, NumberFree m.2) → NumberFree (object members)

/-- Further items have tokens without a number if each of them has. -/
lemma numberFree_itemsThen {vs : List Json} {rest : List Token} (hrest : Token.NumberFree rest)
    (h : ∀ v ∈ vs, ∀ rest, Token.NumberFree rest → Token.NumberFree (tokensThen v rest)) :
    Token.NumberFree (itemsThen vs rest) := by
  induction vs with
  | nil => exact hrest
  | cons v vs ih =>
    obtain ⟨hv, hvs⟩ := List.forall_mem_cons.mp h
    exact numberFree_cons.mpr ⟨nofun, hv _ (ih hvs)⟩

/-- Further members have tokens without a number if each of their values has. -/
lemma numberFree_membersThen {ms : List (String × Json)} {rest : List Token}
    (hrest : Token.NumberFree rest)
    (h : ∀ m ∈ ms, ∀ rest, Token.NumberFree rest → Token.NumberFree (tokensThen m.2 rest)) :
    Token.NumberFree (membersThen ms rest) := by
  induction ms with
  | nil => exact hrest
  | cons m ms ih =>
    obtain ⟨hm, hms⟩ := List.forall_mem_cons.mp h
    exact numberFree_cons.mpr ⟨nofun, numberFree_cons.mpr ⟨nofun,
      numberFree_cons.mpr ⟨nofun, hm _ (ih hms)⟩⟩⟩

/-- A value without a number has tokens without a number. -/
lemma numberFree_tokensThen {v : Json} (h : v.NumberFree) {rest : List Token}
    (hrest : Token.NumberFree rest) : Token.NumberFree (tokensThen v rest) := by
  induction h generalizing rest with
  | null | boolean _ | string _ => exact numberFree_cons.mpr ⟨nofun, hrest⟩
  | @array items _ ih =>
    have hclose : Token.NumberFree (.closeBracket :: rest) := numberFree_cons.mpr ⟨nofun, hrest⟩
    cases items with
    | nil => exact numberFree_cons.mpr ⟨nofun, hclose⟩
    | cons v vs =>
      obtain ⟨hv, hvs⟩ := List.forall_mem_cons.mp ih
      have hitems := numberFree_itemsThen hclose fun v hv rest => hvs v hv
      exact numberFree_cons.mpr ⟨nofun, hv hitems⟩
  | @object members _ ih =>
    have hclose : Token.NumberFree (.closeBrace :: rest) := numberFree_cons.mpr ⟨nofun, hrest⟩
    cases members with
    | nil => exact numberFree_cons.mpr ⟨nofun, hclose⟩
    | cons m ms =>
      obtain ⟨hm, hms⟩ := List.forall_mem_cons.mp ih
      have hmembers := numberFree_membersThen hclose fun m hm rest => hms m hm
      exact numberFree_cons.mpr ⟨nofun, numberFree_cons.mpr ⟨nofun,
        numberFree_cons.mpr ⟨nofun, hm hmembers⟩⟩⟩

/-- The tokens of a value without a number are no numbers. -/
lemma numberFree_tokens {v : Json} (h : v.NumberFree) : Token.NumberFree v.tokens :=
  numberFree_tokensThen h fun _ => List.not_mem_nil

/-- The tokens of a value without a number are found in its text without blanks. -/
theorem scan?_compact {v : Json} (h : v.NumberFree) : scan? v.compact.toList = some v.tokens := by
  rw [compact, String.toList_ofList]
  exact scan?_of_layout (layout_compact (separate_tokens v)) (numberFree_tokens h)

/-- The tokens of a value without a number are found in its text on indented lines. -/
theorem scan?_indented {v : Json} (h : v.NumberFree) :
    scan? v.indented.toList = some v.tokens := by
  rw [indented, String.toList_ofList]
  exact scan?_of_layout (layout_indented (separate_tokens v)) (numberFree_tokens h)

end Json

end WhereClause
