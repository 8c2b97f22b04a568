import WhereClause.Rendering.Operand
import WhereClause.Walk

/-!
# Clause text

A handler that writes the text of the clause it is walked through. A predicate is written when it is
called. `AND` and `OR` bring parentheses with them, whatever their place, and `NOT` puts parentheses
around an operand that does not, so that the text shows the grouping of the tree.
-/

namespace WhereClause

namespace Rendering

/-! ### Words -/

/-- What is written between the operands. -/
def infixText : BinaryOp → String
  | .equal => "="
  | .notEqual => "<>"
  | .greater => ">"
  | .greaterEqual => ">="
  | .less => "<"
  | .lessEqual => "<="
  | .inList | .anyInList => "IN"
  | .notInList | .anyNotInList => "NOT IN"
  | .equalAny => "= ANY"
  | .like => "LIKE"
  | .notLike => "NOT LIKE"

/-- What is written in front of the left operand. -/
def leadText : BinaryOp → String
  | .anyInList | .anyNotInList => "ANY "
  | _ => ""

/-- The word between two predicates. -/
def connectiveText : Connective → String
  | .and => "AND"
  | .or => "OR"

/-- What is written after the operand of a null test. -/
def nullTestText : NullTest → String
  | .isNull => "IS NULL"
  | .isNotNull => "IS NOT NULL"

/-- The name of a function. -/
def functionText : FunctionOp → String
  | .contains => "CONTAINS"
  | .inFolder => "IN_FOLDER"
  | .inTree => "IN_TREE"

/-- The tree brings parentheses of its own. -/
def IsGrouped (t : Tree) : Prop :=
  t.tag = .connective .and ∨ t.tag = .connective .or

instance (t : Tree) : Decidable (IsGrouped t) :=
  inferInstanceAs (Decidable (_ ∨ _))

/-! ### Predicates -/

/-- Two operands with a word between them. -/
def binaryText (op : BinaryOp) (left right : Tree) : Except Halt String := do
  let leftText ← operandText left
  let rightText ← operandText right
  return leftText ++ " " ++ infixText op ++ " " ++ rightText

/-- An operand with a null test. -/
def nullTestPredicate (test : NullTest) (operand : Tree) : Except Halt String := do
  let text ← operandText operand
  return text ++ " " ++ nullTestText test

/-- A function of an argument and perhaps a column. The argument is looked at first. -/
def functionPredicate (op : FunctionOp) (column : Option Tree) (argument : Tree) :
    Except Halt String := do
  let argumentText ← operandText argument
  match column with
  | none => return functionText op ++ "(" ++ argumentText ++ ")"
  | some column =>
    let columnText ← operandText column
    return functionText op ++ "(" ++ columnText ++ ", " ++ argumentText ++ ")"

/-! ### The handler -/

/-- Writes a text behind what has been written. -/
def write (text : String) : Action String Unit :=
  modify (· ++ text)

/-- Writes a text unless there is none. -/
def writeOrHalt (text : Except Halt String) : Action String Unit := do
  write (← text)

/-- Writes what belongs to a call. The start of a walk clears away what was written before. The word
in front of a left operand is written before the operands are looked at, and stays if they turn out
to have no text. -/
def render : Handler String
  | .start _ => set ""
  | .stop => pure ()
  | .binary op _ left right => do
    write (leadText op)
    writeOrHalt (binaryText op left right)
  | .connective _ .opening .. => write "("
  | .connective op .middle .. => write (" " ++ connectiveText op ++ " ")
  | .connective _ .closing .. => write ")"
  | .negation .opening .. => pure ()
  | .negation .middle _ operand => write (if IsGrouped operand then "NOT " else "NOT (")
  | .negation .closing _ operand => write (if IsGrouped operand then "" else ")")
  | .nullTest test _ operand => writeOrHalt (nullTestPredicate test operand)
  | .function op _ column argument => writeOrHalt (functionPredicate op column argument)
  | .score _ => write "SCORE()"

end Rendering

end WhereClause
