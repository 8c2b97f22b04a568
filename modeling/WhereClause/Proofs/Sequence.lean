import Mathlib.Data.List.Forall2
import Mathlib.Tactic.Lemma

/-!
# Sequences of steps that may fail

A sequence in `Except` succeeds if all of its steps do, and otherwise it fails as the first step
that does.  Two steps make a sequence by `>>=`, and the elements of a list by `List.mapM`
(`mapM_eq_ok_iff`, `mapM_eq_error_iff`).
-/

namespace WhereClause

variable {ε α β : Type}

section TwoSteps

variable {x : Except ε α} {f : α → Except ε β}

/-- A sequence in `Except` succeeds only if its first part does. -/
lemma exists_of_bind_eq_ok {b : β} (h : (x >>= f) = .ok b) : ∃ a, x = .ok a ∧ f a = .ok b := by
  cases x with
  | error e => exact nomatch h
  | ok a => exact ⟨a, rfl, h⟩

/-- A sequence in `Except` fails as its first part does, or as its second part does after it. -/
lemma eq_error_or_of_bind_eq_error {e : ε} (h : (x >>= f) = .error e) :
    x = .error e ∨ ∃ a, x = .ok a ∧ f a = .error e := by
  cases x with
  | error e' => exact .inl (congrArg _ (Except.error.inj h))
  | ok a => exact .inr ⟨a, rfl, h⟩

end TwoSteps

section Lists

variable {f : α → Except ε β} {xs : List α}

/-- What is computed for the elements of a list succeeds if it does so for all of them, and yields
what it yields for each, in order. -/
lemma mapM_eq_ok_iff {ys : List β} :
    xs.mapM f = .ok ys ↔ List.Forall₂ (fun x y => f x = .ok y) xs ys := by
  induction xs generalizing ys with
  | nil =>
    rw [List.forall₂_nil_left_iff, eq_comm]
    exact ⟨Except.ok.inj, congrArg Except.ok⟩
  | cons x xs ih =>
    rw [List.mapM_cons]
    constructor
    · intro h
      obtain ⟨y, hy, h⟩ := exists_of_bind_eq_ok h
      obtain ⟨rest, hrest, h⟩ := exists_of_bind_eq_ok h
      obtain rfl := Except.ok.inj h
      exact .cons hy (ih.mp hrest)
    · rintro (_ | ⟨hy, hrest⟩)
      rw [hy, ih.mpr hrest]
      rfl

/-- What is computed for the elements of a list succeeds only if it does so for each of them. -/
lemma exists_of_mapM_eq_ok {ys : List β} (h : xs.mapM f = .ok ys) : ∀ x ∈ xs, ∃ y, f x = .ok y := by
  have hresults : List.Forall₂ (fun x y => (∃ y, f x = .ok y) ∧ f x = .ok y) xs ys :=
    (mapM_eq_ok_iff.mp h).imp fun x y hy => ⟨⟨y, hy⟩, hy⟩
  exact ((List.forall₂_and_left xs ys).mp hresults).1

/-- What is computed for the elements of a list fails as it does for the first element for which it
fails, whatever comes behind this element. -/
lemma mapM_eq_error_iff {e : ε} : xs.mapM f = .error e ↔
    ∃ before x after, xs = before ++ x :: after ∧ (∀ y ∈ before, ∃ b, f y = .ok b) ∧
      f x = .error e := by
  constructor
  · intro h
    induction xs with
    | nil => exact nomatch h
    | cons x xs ih =>
      rw [List.mapM_cons] at h
      rcases eq_error_or_of_bind_eq_error h with hx | ⟨b, hb, h⟩
      · exact ⟨[], x, xs, rfl, nofun, hx⟩
      · rcases eq_error_or_of_bind_eq_error h with hxs | ⟨bs, -, h⟩
        · obtain ⟨before, x', after, rfl, hbefore, hx'⟩ := ih hxs
          exact ⟨x :: before, x', after, rfl, List.forall_mem_cons.mpr ⟨⟨b, hb⟩, hbefore⟩, hx'⟩
        · exact nomatch h
  · rintro ⟨before, x, after, rfl, hbefore, hx⟩
    induction before with
    | nil =>
      rw [List.nil_append, List.mapM_cons, hx]
      rfl
    | cons y before ih =>
      obtain ⟨⟨b, hb⟩, hbefore⟩ := List.forall_mem_cons.mp hbefore
      rw [List.cons_append, List.mapM_cons, hb, ih hbefore]
      rfl

end Lists

end WhereClause
