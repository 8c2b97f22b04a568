import WhereClause.Literal
import Mathlib.Tactic.Lemma

/-!
# The tokens of clause text

Clause text is cut into tokens: parentheses, commas, texts between quotes, and words, which are all
that lies between the others.  A text between quotes may hold any character, since a quote in it is
written twice.

The scanner goes through the text once, character by character, so what it makes of a known
beginning can be computed whatever follows.  A word and a quoted text are followed by one of a few
characters wherever they occur in clause text (`Delimited`), and come out as one token then
(`scan_word`, `scan_encode`).  For a quoted text it is enough that no further quote follows.
-/

namespace WhereClause

namespace Rendering

/-- A token of clause text. -/
inductive Token
  | opening
  | closing
  | comma
  | word (text : String)
  /-- A text between quotes, as it was before its quotes were doubled. -/
  | quoted (quote : Char) (text : String)
deriving DecidableEq, Repr

/-- The character cannot stand in a word. -/
def IsSeparator (c : Char) : Prop :=
  c = ' ' ∨ c = '(' ∨ c = ')' ∨ c = ',' ∨ c = '"' ∨ c = Literal.quote

instance (c : Char) : Decidable (IsSeparator c) :=
  inferInstanceAs (Decidable (_ ∨ _ ∨ _ ∨ _ ∨ _ ∨ _))

/-! ### The scanner -/

/-- What the scanner is in the middle of, with the characters it has read of it. -/
inductive Scanner
  | idle
  | inWord (read : List Char)
  | inQuotes (quote : Char) (read : List Char)
  /-- A quote was read, which ends the text unless another one follows. -/
  | afterQuote (quote : Char) (read : List Char)

namespace Scanner

/-- The token that ends where the scanner is, if any. -/
def pending : Scanner → List Token
  | idle | inQuotes .. => []
  | inWord read => [.word (String.ofList read)]
  | afterQuote quote read => [.quoted quote (String.ofList read)]

/-- A character between tokens: the tokens that are complete with it, and what it begins. -/
def enter (c : Char) : List Token × Scanner :=
  if c = ' ' then ([], idle)
  else if c = '(' then ([.opening], idle)
  else if c = ')' then ([.closing], idle)
  else if c = ',' then ([.comma], idle)
  else if c = '"' ∨ c = Literal.quote then ([], inQuotes c [])
  else ([], inWord [c])

/-- A character wherever the scanner is. -/
def step : Scanner → Char → List Token × Scanner
  | idle, c => enter c
  | inWord read, c =>
    if IsSeparator c then (.word (String.ofList read) :: (enter c).1, (enter c).2)
    else ([], inWord (read ++ [c]))
  | inQuotes quote read, c =>
    if c = quote then ([], afterQuote quote read) else ([], inQuotes quote (read ++ [c]))
  | afterQuote quote read, c =>
    if c = quote then ([], inQuotes quote (read ++ [c]))
    else (.quoted quote (String.ofList read) :: (enter c).1, (enter c).2)

/-- The tokens of a text from where the scanner is. -/
def run : Scanner → List Char → List Token
  | s, [] => s.pending
  | s, c :: cs => (s.step c).1 ++ run (s.step c).2 cs

end Scanner

/-- The tokens of a text. -/
def scan (text : List Char) : List Token :=
  Scanner.idle.run text

@[simp]
lemma scan_nil : scan [] = [] := rfl

example (r : List Char) : scan ("AND ".toList ++ r) = .word "AND" :: scan r := rfl

example (r : List Char) : scan (" NOT IN ".toList ++ r) = .word "NOT" :: .word "IN" :: scan r := rfl

/-! ### Words and quoted texts -/

/-- The text is empty or begins with a character that may follow a word or a quoted text. -/
def Delimited (r : List Char) : Prop :=
  ∀ c ∈ r.head?, c = ' ' ∨ c = ')' ∨ c = ','

/-- A text may end behind a word or a quoted text. -/
lemma delimited_nil : Delimited [] := fun _ hc => nomatch hc

/-- What may follow a word or a quoted text does not begin with a quote. -/
lemma Delimited.head?_ne {r : List Char} (hr : Delimited r) {quote : Char}
    (hquote : quote = '"' ∨ quote = Literal.quote) : r.head? ≠ some quote := by
  intro h
  rcases hquote with rfl | rfl <;> exact absurd (hr _ h) (by decide)

/-- The scanner goes through a word. -/
lemma run_inWord {cs : List Char} (h : ∀ c ∈ cs, ¬IsSeparator c) (read r : List Char) :
    (Scanner.inWord read).run (cs ++ r) = (Scanner.inWord (read ++ cs)).run r := by
  induction cs generalizing read with
  | nil => simp
  | cons c cs ih =>
    obtain ⟨hc, hcs⟩ := List.forall_mem_cons.mp h
    have hstep : (Scanner.inWord read).step c = ([], .inWord (read ++ [c])) := if_neg hc
    rw [List.cons_append, Scanner.run, hstep, List.nil_append, ih hcs, List.append_assoc]
    rfl

/-- The scanner goes through a text in which every quote is doubled, and through the quote behind
it. -/
lemma run_inQuotes (quote : Char) (cs read r : List Char) :
    (Scanner.inQuotes quote read).run (Quoted.double quote cs ++ quote :: r) =
      (Scanner.afterQuote quote (read ++ cs)).run r := by
  induction cs generalizing read with
  | nil => simp [Scanner.run, Scanner.step]
  | cons c cs ih =>
    rw [Quoted.double_cons, List.append_assoc]
    by_cases hc : c = quote
    · subst hc
      simp [Scanner.run, Scanner.step, ih]
    · simp [Scanner.run, Scanner.step, ih, hc]

/-- What may follow a word ends it. -/
lemma run_inWord_of_delimited {r : List Char} (hr : Delimited r) (read : List Char) :
    (Scanner.inWord read).run r = .word (String.ofList read) :: scan r := by
  cases r with
  | nil => rfl
  | cons c r =>
    have hc : c = ' ' ∨ c = ')' ∨ c = ',' := hr c rfl
    rcases hc with rfl | rfl | rfl <;> rfl

/-- What does not begin with the quote ends a text between quotes. -/
lemma run_afterQuote {quote : Char} {r : List Char} (hr : r.head? ≠ some quote) (read : List Char) :
    (Scanner.afterQuote quote read).run r = .quoted quote (String.ofList read) :: scan r := by
  cases r with
  | nil => rfl
  | cons c r =>
    have hc : c ≠ quote := fun h => hr (congrArg some h)
    have hstep : (Scanner.afterQuote quote read).step c =
        (.quoted quote (String.ofList read) :: (Scanner.enter c).1, (Scanner.enter c).2) :=
      if_neg hc
    rw [Scanner.run, hstep]
    rfl

/-- A word is one token. -/
theorem scan_word {cs r : List Char} (hne : cs ≠ []) (h : ∀ c ∈ cs, ¬IsSeparator c)
    (hr : Delimited r) : scan (cs ++ r) = .word (String.ofList cs) :: scan r := by
  obtain ⟨c, cs, rfl⟩ := List.exists_cons_of_ne_nil hne
  obtain ⟨hc, hcs⟩ := List.forall_mem_cons.mp h
  have henter : Scanner.enter c = ([], .inWord [c]) := by
    simp only [IsSeparator, not_or] at hc
    simp [Scanner.enter, hc]
  have hrun : scan (c :: cs ++ r) = (Scanner.inWord [c]).run (cs ++ r) := by
    rw [scan, List.cons_append, Scanner.run, Scanner.step, henter, List.nil_append]
  rw [hrun, run_inWord hcs]
  exact run_inWord_of_delimited hr _

/-- A text between quotes is one token, unless another quote follows, which would double its last
one. -/
theorem scan_encode {quote : Char} (hquote : quote = '"' ∨ quote = Literal.quote)
    (cs : List Char) {r : List Char} (hr : r.head? ≠ some quote) :
    scan (Quoted.encode quote cs ++ r) = .quoted quote (String.ofList cs) :: scan r := by
  have hrun : scan (Quoted.encode quote cs ++ r) =
      (Scanner.inQuotes quote []).run (Quoted.double quote cs ++ quote :: r) := by
    rw [Quoted.encode, List.cons_append, List.append_assoc, List.singleton_append]
    rcases hquote with rfl | rfl <;> rfl
  rw [hrun, run_inQuotes]
  exact run_afterQuote hr _

end Rendering

end WhereClause
