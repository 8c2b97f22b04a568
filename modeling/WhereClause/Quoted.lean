/-!
# Quoted texts

A text between quotes, in which a quote is written twice. The quote is a parameter: strings of a
clause use the single one and names the double one.
-/

namespace WhereClause

namespace Quoted

/-- The text with every quote doubled. -/
def double (quote : Char) (text : List Char) : List Char :=
  text.flatMap fun c => if c = quote then [c, c] else [c]

/-- The text with every quote doubled, between quotes. -/
def encode (quote : Char) (text : List Char) : List Char :=
  quote :: (double quote text ++ [quote])

@[simp] theorem double_nil (quote : Char) : double quote [] = [] := rfl

theorem double_cons (quote c : Char) (text : List Char) :
    double quote (c :: text) = (if c = quote then [c, c] else [c]) ++ double quote text := rfl

/-- A text without quotes stays as it is. -/
theorem double_eq_self {quote : Char} {text : List Char} (h : quote ∉ text) :
    double quote text = text := by
  induction text with
  | nil => rfl
  | cons c cs ih =>
    rw [List.mem_cons, not_or] at h
    rw [double_cons, ih h.2, if_neg (Ne.symm h.1)]
    rfl

/-- A quote is written twice and everything else once. -/
theorem count_double (quote c : Char) (text : List Char) :
    (double quote text).count c = (if c = quote then 2 else 1) * text.count c := by
  induction text with
  | nil => rfl
  | cons d ds ih => by_cases h : d = quote <;> by_cases hx : c = d <;> grind [double_cons]

/-- Only a text without quotes stays as it is. -/
theorem double_eq_self_iff {quote : Char} {text : List Char} :
    double quote text = text ↔ quote ∉ text := by
  constructor
  · intro h
    have hcount := count_double quote quote text
    rw [h, if_pos rfl] at hcount
    rw [← List.count_eq_zero]
    omega
  · exact double_eq_self

end Quoted

end WhereClause
