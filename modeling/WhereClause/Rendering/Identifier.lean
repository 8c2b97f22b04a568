import WhereClause.Quoted

/-!
# Names in clause text

A name is written bare if it cannot be mistaken for anything else, and between double quotes
otherwise.
-/

namespace WhereClause

namespace Rendering

-- What holds of all characters of a text is decided by going through the text, whatever else is in
-- scope.
attribute [local instance (high)] List.decidableBAll

/-- The character may begin a bare name. -/
def IsNameStart (c : Char) : Prop :=
  c.isAlpha ∨ c = '_'

instance (c : Char) : Decidable (IsNameStart c) :=
  inferInstanceAs (Decidable (_ ∨ _))

/-- The character may stand in a bare name after the first. Colons and points are for names with a
namespace or a qualifier. -/
def IsNameChar (c : Char) : Prop :=
  c.isAlphanum ∨ c = '_' ∨ c = ':' ∨ c = '.'

instance (c : Char) : Decidable (IsNameChar c) :=
  inferInstanceAs (Decidable (_ ∨ _ ∨ _ ∨ _))

/-- The name can be written bare. -/
def IsBare : List Char → Prop
  | [] => False
  | c :: cs => IsNameStart c ∧ ∀ d ∈ cs, IsNameChar d

instance : (name : List Char) → Decidable (IsBare name)
  | [] => isFalse id
  | c :: cs => inferInstanceAs (Decidable (IsNameStart c ∧ ∀ d ∈ cs, IsNameChar d))

/-- What is written for a name. -/
def nameText (name : List Char) : List Char :=
  if IsBare name then name else Quoted.encode '"' name

end Rendering

end WhereClause
