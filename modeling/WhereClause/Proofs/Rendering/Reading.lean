import WhereClause.Proofs.Rendering.Reader

/-!
# Reading operands back

`Reads step text a` says that a step of the reader makes `a` of a text, and `Refuses step text` that
the step fails on it, in front of all that may follow a word or a quoted text.  The lemmas about
sequences and choices of steps build such statements up along the parts of a text.

Every operand of a predicate tree is read back as its normal form (`reads_operand`).
-/

namespace WhereClause

namespace Rendering

open ReadStep

-- What holds of all characters of a text is decided by going through the text, whatever else is in
-- scope.
attribute [local instance (high)] List.decidableBAll

variable {α β : Type}

/-! ### What a step makes of a text -/

/-- The step makes `a` of the text if a word or a quoted text may end behind it. -/
def Reads (step : ReadStep α) (text : String) (a : α) : Prop :=
  ∀ r, Delimited r → step (scan (text.toList ++ r)) = some (a, scan r)

/-- The step makes `a` of the text whatever comes behind it. -/
def Takes (step : ReadStep α) (text : String) (a : α) : Prop :=
  ∀ r, step (scan (text.toList ++ r)) = some (a, scan r)

/-- The step fails on the text if a word or a quoted text may end behind it. -/
def Refuses (step : ReadStep α) (text : String) : Prop :=
  ∀ r, Delimited r → step (scan (text.toList ++ r)) = none

/-- A word or a quoted text may end in front of the text. -/
def Delimits (text : String) : Prop :=
  ∀ r, Delimited r → Delimited (text.toList ++ r)

namespace ReadStep

/-- A sequence goes on with what its first step leaves. -/
lemma bind_of_some {x : ReadStep α} {f : α → ReadStep β} {ts rest : List Token} {a : α}
    (h : x ts = some (a, rest)) : (x >>= f) ts = f a rest := by
  change (x ts).bind (fun p => f p.1 p.2) = f a rest
  rw [h, Option.bind_some]

/-- A sequence fails if its first step does. -/
lemma bind_of_none {x : ReadStep α} {f : α → ReadStep β} {ts : List Token} (h : x ts = none) :
    (x >>= f) ts = none := by
  change (x ts).bind (fun p => f p.1 p.2) = none
  rw [h, Option.bind_none]

/-- A choice takes its first step if that does not fail. -/
lemma orElse_of_some {x y : ReadStep α} {ts : List Token} {r : α × List Token}
    (h : x ts = some r) : (x <|> y) ts = some r := by
  change (x ts <|> y ts) = some r
  rw [h]
  rfl

/-- A choice takes its second step if the first one fails. -/
lemma orElse_of_none {x y : ReadStep α} {ts : List Token} (h : x ts = none) :
    (x <|> y) ts = y ts := by
  change (x ts <|> y ts) = y ts
  rw [h]
  rfl

end ReadStep

/-- What is taken whatever comes behind it is read. -/
lemma Takes.reads {step : ReadStep α} {text : String} {a : α} (h : Takes step text a) :
    Reads step text a :=
  fun r _ => h r

/-- A sequence reads what is taken first and then the rest. -/
lemma Takes.bind {x : ReadStep α} {f : α → ReadStep β} {s t : String} {a : α} {b : β}
    (hx : Takes x s a) (hf : Reads (f a) t b) : Reads (x >>= f) (s ++ t) b := by
  intro r hr
  rw [String.toList_append, List.append_assoc, bind_of_some (hx (t.toList ++ r)), hf r hr]

/-- A sequence fails if it does so behind what is taken first. -/
lemma Takes.bind_refuses {x : ReadStep α} {f : α → ReadStep β} {s t : String} {a : α}
    (hx : Takes x s a) (hf : Refuses (f a) t) : Refuses (x >>= f) (s ++ t) := by
  intro r hr
  rw [String.toList_append, List.append_assoc, bind_of_some (hx (t.toList ++ r)), hf r hr]

namespace Reads

variable {x y : ReadStep α} {f : α → ReadStep β} {s t : String} {a : α} {b : β}

/-- A sequence reads one part of a text after the other. -/
lemma bind (hx : Reads x s a) (ht : Delimits t) (hf : Reads (f a) t b) :
    Reads (x >>= f) (s ++ t) b := by
  intro r hr
  rw [String.toList_append, List.append_assoc, bind_of_some (hx (t.toList ++ r) (ht r hr)), hf r hr]

/-- What is read may be changed at the end. -/
lemma map (hx : Reads x s a) (g : α → β) : Reads (do return g (← x)) s (g a) := by
  intro r hr
  rw [bind_of_some (hx r hr)]
  rfl

/-- A sequence fails if it does so behind what is read first. -/
lemma bind_refuses (hx : Reads x s a) (ht : Delimits t) (hf : Refuses (f a) t) :
    Refuses (x >>= f) (s ++ t) := by
  intro r hr
  rw [String.toList_append, List.append_assoc, bind_of_some (hx (t.toList ++ r) (ht r hr)), hf r hr]

/-- A choice reads what its first step reads. -/
lemma orElse_left (hx : Reads x s a) : Reads (x <|> y) s a :=
  fun r hr => orElse_of_some (hx r hr)

/-- A choice reads what its second step reads if the first one fails. -/
lemma orElse_right (hx : Refuses x s) (hy : Reads y s a) : Reads (x <|> y) s a :=
  fun r hr => (orElse_of_none (hx r hr)).trans (hy r hr)

end Reads

namespace Refuses

variable {x y : ReadStep α} {s : String}

/-- A sequence fails if its first step does. -/
lemma bind (hx : Refuses x s) (f : α → ReadStep β) : Refuses (x >>= f) s :=
  fun r hr => bind_of_none (hx r hr)

/-- A step fails on what begins with a text that it fails on. -/
lemma append (hx : Refuses x s) {t : String} (ht : Delimits t) : Refuses x (s ++ t) := by
  intro r hr
  rw [String.toList_append, List.append_assoc]
  exact hx (t.toList ++ r) (ht r hr)

/-- A choice fails if both of its steps do. -/
lemma orElse (hx : Refuses x s) (hy : Refuses y s) : Refuses (x <|> y) s :=
  fun r hr => (orElse_of_none (hx r hr)).trans (hy r hr)

end Refuses

/-! ### Tokens -/

/-- The scanner makes one token of the text if a word or a quoted text may end behind it. -/
def IsToken (text : String) (token : Token) : Prop :=
  ∀ r, Delimited r → scan (text.toList ++ r) = token :: scan r

/-- The first token of the text is the given one, whatever comes behind it. -/
def Begins (text : String) (token : Token) : Prop :=
  ∀ r, ∃ ts, scan (text.toList ++ r) = token :: ts

/-- What begins with a text begins with its first token. -/
lemma Begins.append {s : String} {token : Token} (h : Begins s token) (t : String) :
    Begins (s ++ t) token := by
  intro r
  rw [String.toList_append, List.append_assoc]
  exact h (t.toList ++ r)

/-- A step refuses a text if it fails on the first token. -/
lemma Begins.refuses {text : String} {token : Token} (h : Begins text token) {step : ReadStep α}
    (hstep : ∀ ts, step (token :: ts) = none) : Refuses step text := by
  intro r _
  obtain ⟨ts, hts⟩ := h r
  rw [hts, hstep]

/-- A text that begins with a parenthesis begins with that token. -/
lemma begins_opening (text : String) : Begins ("(" ++ text) .opening :=
  Begins.append (fun _ => ⟨_, rfl⟩) text

/-- A text that begins with a comma begins with that token. -/
lemma begins_comma (text : String) : Begins (", " ++ text) .comma :=
  Begins.append (fun _ => ⟨_, rfl⟩) text

/-- A word is a token. -/
lemma isToken_word {text : String} (hne : text.toList ≠ [])
    (h : ∀ c ∈ text.toList, ¬IsSeparator c) : IsToken text (.word text) := by
  intro r hr
  rw [scan_word hne h hr, String.ofList_toList]

/-- A text between quotes is a token. -/
lemma isToken_encode {quote : Char} (hquote : quote = '"' ∨ quote = Literal.quote)
    (cs : List Char) :
    IsToken (String.ofList (Quoted.encode quote cs)) (.quoted quote (String.ofList cs)) := by
  intro r hr
  rw [String.toList_ofList]
  exact scan_encode hquote cs (hr.head?_ne hquote)

/-- A step reads a token if it makes something of the token and leaves what follows. -/
lemma IsToken.reads {text : String} {token : Token} (h : IsToken text token) {step : ReadStep α}
    {a : α} (hstep : ∀ ts, step (token :: ts) = some (a, ts)) : Reads step text a := by
  intro r hr
  rw [h r hr, hstep]

/-- A step refuses a token if it fails on it. -/
lemma IsToken.refuses {text : String} {token : Token} (h : IsToken text token) {step : ReadStep α}
    (hstep : ∀ ts, step (token :: ts) = none) : Refuses step text := by
  intro r hr
  rw [h r hr, hstep]

/-- A step that takes a word refuses a word that does not satisfy its condition. -/
lemma word_eq_none {p : String → Prop} [DecidablePred p] {w : String} (h : ¬p w)
    (ts : List Token) : word p (.word w :: ts) = none :=
  if_neg h

/-- A step that takes a word takes one that satisfies its condition. -/
lemma word_eq_some {p : String → Prop} [DecidablePred p] {w : String} (h : p w)
    (ts : List Token) : word p (.word w :: ts) = some (w, ts) :=
  if_pos h

/-! ### Words of operands -/

/-- The characters of numbers are those of words. -/
lemma not_isSeparator_of_isNumberChar {c : Char} (h : IsNumberChar c) : ¬IsSeparator c := by
  rintro (rfl | rfl | rfl | rfl | rfl | rfl) <;> exact absurd h (by decide)

/-- The text of a number is a word. -/
lemma isToken_number {text : String} (h : IsNumberText text.toList) :
    IsToken text (.word text) := by
  have hne : text.toList ≠ [] := by
    intro hnil
    have hstarts := h.starts
    rw [hnil] at hstarts
    exact hstarts
  exact isToken_word hne fun c hc => not_isSeparator_of_isNumberChar (h.chars c hc)

/-- The characters of bare names are those of words. -/
lemma not_isSeparator_of_isNameChar {c : Char} (h : IsNameChar c) : ¬IsSeparator c := by
  rintro (rfl | rfl | rfl | rfl | rfl | rfl) <;> exact absurd h (by decide)

/-- The first character of a bare name may be one of the others. -/
lemma isNameChar_of_isNameStart {c : Char} (h : IsNameStart c) : IsNameChar c := by
  rcases h with h | h
  · exact .inl (by simp [Char.isAlphanum, h])
  · exact .inr (.inl h)

/-- A bare name has no other characters than those of bare names. -/
lemma isNameChar_of_isBare {name : List Char} (h : IsBare name) : ∀ c ∈ name, IsNameChar c := by
  cases name with
  | nil => exact h.elim
  | cons c cs => exact List.forall_mem_cons.mpr ⟨isNameChar_of_isNameStart h.1, h.2⟩

/-- A bare name is a word. -/
lemma isToken_bare {text : String} (h : IsBare text.toList) : IsToken text (.word text) := by
  have hne : text.toList ≠ [] := by
    intro hnil
    rw [hnil] at h
    exact h
  exact isToken_word hne fun c hc => not_isSeparator_of_isNameChar (isNameChar_of_isBare h c hc)

/-- No letter is a digit. -/
lemma not_isDigit_of_isAlpha {c : Char} (h : c.isAlpha = true) : ¬c.isDigit = true := by
  have hletter : c.isUpper = true ∨ c.isLower = true := (Bool.or_eq_true _ _).mp h
  intro hdigit
  have hle : c.toNat ≤ 57 := (Char.isDigit_iff_toNat.mp hdigit).2
  rcases hletter with hupper | hlower
  · have hge : (65 : UInt32) ≤ c.val := (of_decide_eq_true hupper).1
    exact absurd (Nat.le_trans (UInt32.le_iff_toNat_le.mp hge) hle) (by decide)
  · have hge : (97 : UInt32) ≤ c.val := of_decide_eq_true ((Bool.and_eq_true _ _).mp hlower).1
    exact absurd (Nat.le_trans (UInt32.le_iff_toNat_le.mp hge) hle) (by decide)

/-- A bare name does not begin as numbers do. -/
lemma not_startsNumber_of_isBare {cs : List Char} (h : IsBare cs) : ¬StartsNumber cs := by
  cases cs with
  | nil => exact id
  | cons c cs =>
    obtain ⟨hc | rfl, -⟩ := h
    · rintro (hdigit | rfl)
      · exact not_isDigit_of_isAlpha hc hdigit
      · exact absurd hc (by decide)
    · rintro (hdigit | hminus)
      · exact absurd hdigit (by decide)
      · exact absurd hminus (by decide)

/-! ### Literals -/

/-- A word is not taken for a name if it is reserved or no bare name. -/
lemma name_word_eq_none {w : String} (h : IsBare w.toList → w ∈ reservedWords)
    (ts : List Token) : name (.word w :: ts) = none := by
  have hquoted : quoted '"' (.word w :: ts) = none := rfl
  have hcondition : ¬(IsBare w.toList ∧ w ∉ reservedWords) := fun hw => hw.2 (h hw.1)
  rw [name, orElse_of_none (bind_of_none hquoted), bind_of_none (word_eq_none hcondition ts)]

/-- A word that begins as numbers do is read as a number. -/
lemma literal_of_startsNumber {w : String} (h : StartsNumber w.toList) (ts : List Token) :
    literal (.word w :: ts) = some (.literal .number w, ts) := by
  have hquoted : quoted Literal.quote (.word w :: ts) = none := rfl
  have hboolean : ¬(w = "TRUE" ∨ w = "FALSE") := by
    rintro (rfl | rfl) <;> exact absurd h (by decide)
  rw [literal, orElse_of_none (bind_of_none hquoted),
    orElse_of_none (bind_of_none (word_eq_none hboolean ts)),
    orElse_of_some (bind_of_some (word_eq_some h ts))]

/-- The text is read as the literal, and is not taken for a name. -/
def ReadsLiteral (text : String) (t : Tree) : Prop :=
  Reads literal text t ∧ Refuses name text

/-- A truth value is read. -/
lemma readsLiteral_boolean {text : String} (h : text = "TRUE" ∨ text = "FALSE") :
    ReadsLiteral text (.literal .boolean text) := by
  have htoken : IsToken text (.word text) := by
    rcases h with rfl | rfl
    · exact isToken_word (by decide) (by decide)
    · exact isToken_word (by decide) (by decide)
  constructor
  · refine htoken.reads fun ts => ?_
    have hquoted : quoted Literal.quote (.word text :: ts) = none := rfl
    rw [literal, orElse_of_none (bind_of_none hquoted),
      orElse_of_some (bind_of_some (word_eq_some h ts))]
  · refine htoken.refuses (name_word_eq_none fun _ => ?_)
    rcases h with rfl | rfl <;> decide

/-- The text of a number is read. -/
lemma readsLiteral_number {text : String} (h : IsNumberText text.toList) :
    ReadsLiteral text (.literal .number text) :=
  ⟨(isToken_number h).reads (literal_of_startsNumber h.starts), (isToken_number h).refuses
    (name_word_eq_none fun hbare => absurd h.starts (not_startsNumber_of_isBare hbare))⟩

/-- A text between the quotes of strings is read. -/
lemma readsLiteral_string (content : List Char) :
    ReadsLiteral (String.ofList (Quoted.encode Literal.quote content))
      (.literal .string (String.ofList (Quoted.encode Literal.quote content))) := by
  have htoken := isToken_encode (.inr rfl) content
  have hstep (ts : List Token) : literal (.quoted Literal.quote (String.ofList content) :: ts) =
      some (.literal .string (quote (String.ofList content)), ts) := rfl
  rw [quote, String.toList_ofList] at hstep
  exact ⟨htoken.reads hstep, htoken.refuses fun _ => rfl⟩

/-- A text without quotes in it, between the quotes of strings and behind the word of timestamps, is
read. -/
lemma readsLiteral_timestamp {content : List Char} (h : Literal.quote ∉ content) :
    ReadsLiteral
      ("TIMESTAMP " ++ String.ofList (Literal.quote :: (content ++ [Literal.quote])))
      (.literal .timestamp
        ("TIMESTAMP " ++ String.ofList (Literal.quote :: (content ++ [Literal.quote])))) := by
  have hencode : Literal.quote :: (content ++ [Literal.quote]) =
      Quoted.encode Literal.quote content := by
    rw [Quoted.encode, Quoted.double_eq_self h]
  have hword (r : List Char) :
      scan ("TIMESTAMP ".toList ++ r) = .word "TIMESTAMP" :: scan r := rfl
  have hstep (ts : List Token) :
      literal (.word "TIMESTAMP" :: .quoted Literal.quote (String.ofList content) :: ts) =
        some (.literal .timestamp ("TIMESTAMP " ++ quote (String.ofList content)), ts) := rfl
  rw [hencode]
  constructor
  · intro r hr
    rw [String.toList_append, List.append_assoc, hword, isToken_encode (.inr rfl) content r hr,
      hstep, quote, String.toList_ofList]
  · intro r hr
    rw [String.toList_append, List.append_assoc, hword]
    exact name_word_eq_none (fun _ => by decide) _

/-- A proper literal is read back. -/
theorem readsLiteral_printLiteral {t : Tree} (h : t.IsProperLiteral) :
    ReadsLiteral t.printLiteral t.normalLiteral := by
  obtain ⟨tag, spelling, children⟩ := t
  obtain ⟨⟨value, hvalue⟩, hstring⟩ := h
  obtain ⟨kind, rfl, hspelling⟩ := Literal.ofSpelling_of_ofTree hvalue
  have hkind := Literal.ofKind_of_ofSpelling hspelling
  rw [Tree.normalLiteral, Tree.printLiteral, hvalue]
  cases hkind with
  | boolean b =>
    cases b with
    | true => exact readsLiteral_boolean (.inl rfl)
    | false => exact readsLiteral_boolean (.inr rfl)
  | integer hi => exact readsLiteral_number (Literal.isNumberText_of_ofKind (.integer hi) rfl)
  | float hx => exact readsLiteral_number (Literal.isNumberText_of_ofKind (.float hx) rfl)
  | string s =>
    obtain ⟨content, rfl⟩ := hstring rfl
    exact readsLiteral_string content
  | @timestamp u hu =>
    obtain ⟨content, hcontent⟩ : ∃ content, u.write? = some content := ⟨_, if_pos hu⟩
    have htext : (Literal.timestamp u).text? =
        some ("TIMESTAMP " ++ String.ofList (Literal.quote :: (content ++ [Literal.quote]))) := by
      rw [Literal.text?, hcontent, Option.map_some]
    dsimp only
    rw [htext]
    exact readsLiteral_timestamp (Timestamp.quote_not_mem_of_write? hcontent)

/-! ### Names -/

/-- The reserved words that literals are written with. -/
def literalWords : List String :=
  ["TRUE", "FALSE", "TIMESTAMP"]

/-- A word that is none of those of literals and does not begin as numbers do is not taken for a
literal. -/
lemma literal_word_eq_none {w : String} (hw : w ∉ literalWords)
    (hnumber : ¬StartsNumber w.toList) (ts : List Token) : literal (.word w :: ts) = none := by
  have hquoted : quoted Literal.quote (.word w :: ts) = none := rfl
  have hboolean : ¬(w = "TRUE" ∨ w = "FALSE") := by simp_all [literalWords]
  have htimestamp : take (.word "TIMESTAMP") (.word w :: ts) = none :=
    if_neg (by simp_all [literalWords])
  rw [literal, orElse_of_none (bind_of_none hquoted),
    orElse_of_none (bind_of_none (word_eq_none hboolean ts)),
    orElse_of_none (bind_of_none (word_eq_none hnumber ts)), bind_of_none htimestamp]

/-- A name that is no reserved word is read back, and is not taken for a literal. -/
theorem reads_name {text : String} (h : text ∉ reservedWords) :
    Reads name (String.ofList (nameText text.toList)) (.column text) ∧
      Refuses literal (String.ofList (nameText text.toList)) := by
  rw [nameText]
  split
  · rename_i hbare
    have hsubset : ∀ w ∈ literalWords, w ∈ reservedWords := by decide
    have hliteral : text ∉ literalWords := fun hmem => h (hsubset text hmem)
    rw [String.ofList_toList]
    refine ⟨(isToken_bare hbare).reads fun ts => ?_, (isToken_bare hbare).refuses
      (literal_word_eq_none hliteral (not_startsNumber_of_isBare hbare))⟩
    have hquoted : quoted '"' (.word text :: ts) = none := rfl
    rw [name, orElse_of_none (bind_of_none hquoted), bind_of_some (word_eq_some ⟨hbare, h⟩ ts)]
    rfl
  · have htoken := isToken_encode (.inl rfl) text.toList
    rw [String.ofList_toList] at htoken
    exact ⟨htoken.reads fun _ => rfl, htoken.refuses fun _ => rfl⟩

/-! ### Lists -/

/-- An opening parenthesis is taken. -/
lemma takes_opening : Takes (take .opening) "(" () :=
  fun _ => rfl

/-- A closing parenthesis is taken. -/
lemma takes_closing : Takes (take .closing) ")" () :=
  fun _ => rfl

/-- A comma is taken with the blank behind it. -/
lemma takes_comma : Takes (take .comma) ", " () :=
  fun _ => rfl

/-- A word or a quoted text may end in front of a text that begins with one of these characters. -/
lemma delimits_of_head {c : Char} (hc : c = ' ' ∨ c = ')' ∨ c = ',') {text : String}
    {cs : List Char} (h : text.toList = c :: cs) : Delimits text := by
  intro r _ d hd
  rw [h] at hd
  obtain rfl := Option.some.inj hd
  exact hc

/-- No closing parenthesis comes where something else is read. -/
lemma Reads.refuses_closing {step : ReadStep α} {text : String} {a : α} (h : Reads step text a)
    (hstep : ∀ ts, step (.closing :: ts) = none) : Refuses (take .closing) text := by
  intro r hr
  have hread := h r hr
  rcases hscan : scan (text.toList ++ r) with _ | ⟨token, ts⟩
  · rfl
  · rw [hscan] at hread
    cases token with
    | closing =>
      rw [hstep] at hread
      exact nomatch hread
    | _ => rfl

/-- The first item of a list is followed by a comma or the parenthesis behind the list. -/
lemma exists_items_eq_append (x : String) (xs : List String) :
    ∃ rest, Delimits rest ∧ String.intercalate ", " (x :: xs) ++ ")" = x ++ rest := by
  cases xs with
  | nil => exact ⟨")", delimits_of_head (.inr (.inl rfl)) rfl, by rw [String.intercalate_singleton]⟩
  | cons y ys =>
    refine ⟨", " ++ (String.intercalate ", " (y :: ys) ++ ")"), ?_, ?_⟩
    · exact delimits_of_head (.inr (.inr rfl)) (by rw [String.toList_append]; rfl)
    · rw [String.intercalate_cons_cons, String.append_assoc, String.append_assoc]

/-- The items of a list are read back, if there are any. -/
lemma reads_items {items : List Tree} (hne : items ≠ []) (h : ∀ t ∈ items, t.IsProperLiteral)
    {n : Nat} (hn : (String.intercalate ", " (items.map Tree.printLiteral)).length < n) :
    Reads (ReadStep.items n) (String.intercalate ", " (items.map Tree.printLiteral) ++ ")")
      (items.map Tree.normalLiteral) := by
  induction items generalizing n with
  | nil => exact absurd rfl hne
  | cons t ts ih =>
    obtain ⟨ht, hts⟩ := List.forall_mem_cons.mp h
    have hliteral := (readsLiteral_printLiteral ht).1
    obtain ⟨m, rfl⟩ := Nat.exists_eq_succ_of_ne_zero (Nat.ne_of_gt (Nat.zero_lt_of_lt hn))
    cases ts with
    | nil =>
      rw [List.map_singleton, String.intercalate_singleton]
      have hend : Reads (do take .closing; return [t.normalLiteral]) ")" [t.normalLiteral] :=
        takes_closing.reads.map fun _ => [t.normalLiteral]
      exact hliteral.bind (delimits_of_head (.inr (.inl rfl)) rfl) hend.orElse_left
    | cons u us =>
      rw [List.map_cons, List.map_cons, String.intercalate_cons_cons] at hn ⊢
      simp only [String.length_append, show ", ".length = 2 from rfl] at hn
      have hrest := ih (List.cons_ne_nil _ _) hts (n := m) (by rw [List.map_cons]; omega)
      rw [String.append_assoc, String.append_assoc]
      have hclosing (text : String) : Refuses (take .closing) (", " ++ text) :=
        (begins_comma text).refuses fun _ => rfl
      refine hliteral.bind ?_ (Reads.orElse_right ((hclosing _).bind _) (takes_comma.bind ?_))
      · exact delimits_of_head (.inr (.inr rfl)) (by rw [String.toList_append]; rfl)
      · exact hrest.map (t.normalLiteral :: ·)

/-- A list is read back. -/
lemma reads_list {items : List Tree} (h : ∀ t ∈ items, t.IsProperLiteral) {n : Nat}
    (hn : (String.intercalate ", " (items.map Tree.printLiteral)).length < n) :
    Reads (list n) ("(" ++ String.intercalate ", " (items.map Tree.printLiteral) ++ ")")
      (.list (items.map Tree.normalLiteral)) := by
  rw [String.append_assoc]
  refine takes_opening.bind ?_
  rcases items with _ | ⟨t, ts⟩
  · exact (takes_closing.reads.map fun _ => Tree.list []).orElse_left
  · have hclosing : Refuses (take .closing)
        (String.intercalate ", " ((t :: ts).map Tree.printLiteral) ++ ")") := by
      obtain ⟨rest, hrest, heq⟩ := exists_items_eq_append t.printLiteral (ts.map Tree.printLiteral)
      rw [List.map_cons, heq]
      have hread := (readsLiteral_printLiteral (h t List.mem_cons_self)).1
      exact (hread.refuses_closing fun _ => rfl).append hrest
    exact Reads.orElse_right (hclosing.bind _)
      ((reads_items (List.cons_ne_nil _ _) h hn).map Tree.list)

/-! ### Operands -/

/-- An operand of a predicate is read back. -/
theorem reads_operand {t : Tree} (h : t.IsPredicateOperand) {n : Nat}
    (hn : t.printOperand.length ≤ n) : Reads (operand n) t.printOperand t.normalOperand := by
  obtain ⟨tag, text, children⟩ := t
  cases tag with
  | name kind => exact (reads_name h).1.orElse_left
  | literal kind =>
    obtain ⟨hreads, hname⟩ := readsLiteral_printLiteral h
    exact Reads.orElse_right hname hreads.orElse_left
  | list =>
    have hlength : (String.intercalate ", " (children.map Tree.printLiteral)).length < n := by
      simp only [Tree.printOperand, Tree.tag_node, Tree.children_node, String.length_append,
        show "(".length = 1 from rfl] at hn
      omega
    have htext : (Tree.node .list text children).printOperand =
        "(" ++ (String.intercalate ", " (children.map Tree.printLiteral) ++ ")") := by
      rw [← String.append_assoc]
      rfl
    have hlist := reads_list h hlength
    rw [String.append_assoc] at hlist
    rw [htext]
    exact Reads.orElse_right ((begins_opening _).refuses fun _ => rfl)
      (Reads.orElse_right ((begins_opening _).refuses fun _ => rfl) hlist)
  | _ => exact h.elim

end Rendering

end WhereClause
