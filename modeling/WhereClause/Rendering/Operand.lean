import WhereClause.Literal.Reading
import WhereClause.Rendering.Identifier

/-!
# Operands in clause text

The operands that clause text has a form for are names, literals, and lists of literals.
-/

namespace WhereClause

namespace Rendering

/-- What is written for a literal. Its value is always read first. A string is then written as it is
spelled, since its quotes are doubled there already, and any other literal by its value. -/
def literalText (t : Tree) : Except Halt String :=
  match Literal.ofTree t with
  | .error e => .error (.error e)
  | .ok (.string _) => .ok t.text
  | .ok value =>
    match value.text? with
    | some text => .ok text
    | none => .error (.defect .unprintable)

/-- What is written for a list of literals. -/
def listText (items : List Tree) : Except Halt String := do
  let texts ← items.mapM literalText
  return "(" ++ String.intercalate ", " texts ++ ")"

/-- What is written for an operand. -/
def operandText (t : Tree) : Except Halt String :=
  match t.tag with
  | .name _ => .ok (String.ofList (nameText t.text.toList))
  | .literal _ => literalText t
  | .list => listText t.children
  | tag => .error (.error (.rejected (.operand tag)))

end Rendering

end WhereClause
