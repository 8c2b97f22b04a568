/-!
# Letter case

Words that differ at most in the case of their ASCII letters.
-/

namespace WhereClause

/-- The characters of a word with its ASCII letters made small, so that two words have equal folds
exactly when they differ at most in the case of ASCII letters. -/
def foldCase (word : String) : List Char :=
  word.toList.map Char.toLower

end WhereClause
