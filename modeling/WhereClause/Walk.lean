import WhereClause.Failure

/-!
# Walks

A walk goes through a clause tree from the root and reports its predicates to a handler, one call
after the other. A handler has a state of its own, which it keeps whether or not it accepts a call;
the first call that it does not accept ends the walk.

The order of calls is the order of reading: an operator between two operands is called after the
left operand has been visited and before the right one is, and the grouping operators are called
around their operands as well. Literals, lists and names are visited but never called. The children
that a node needs are looked for before it is called for the first time.
-/

namespace WhereClause

/-- An action on the state of a handler, which may end the walk. -/
abbrev Action (σ α : Type) :=
  ExceptT Halt (StateM σ) α

/-- What is done on each call. -/
abbrev Handler (σ : Type) :=
  Call → Action σ Unit

/-- Runs an action from a state: how it ends, and the state it leaves behind. -/
def Action.runFrom {σ α : Type} (action : Action σ α) (s : σ) : Except Halt α × σ :=
  (ExceptT.run action).run s

namespace Walk

variable {σ : Type}

/-- The number of levels that a walk goes down unless it is told otherwise. -/
def defaultLimit : Nat :=
  256

/-- Refuses a level beyond the limit, if there is a limit. -/
def checkLevel (limit : Option Nat) (level : Nat) : Action σ Unit :=
  match limit with
  | none => pure ()
  | some limit => if limit < level then throw (.error (.tooComplex limit)) else pure ()

/-- Visits the tree that hangs at the given level. -/
def visit (handle : Handler σ) (limit : Option Nat) : (level : Nat) → Tree → Action σ Unit
  | level, .node tag text children => do
    let node := Tree.node tag text children
    checkLevel limit level
    match tag, children with
    | .binary op, left :: right :: _ =>
      visit handle limit (level + 1) left
      handle (.binary op node left right)
      visit handle limit (level + 1) right
    | .connective op, left :: right :: _ =>
      handle (.connective op .opening node left right)
      visit handle limit (level + 1) left
      handle (.connective op .middle node left right)
      visit handle limit (level + 1) right
      handle (.connective op .closing node left right)
    | .negation, operand :: _ =>
      handle (.negation .opening node operand)
      handle (.negation .middle node operand)
      visit handle limit (level + 1) operand
      handle (.negation .closing node operand)
    | .nullTest test, operand :: _ =>
      handle (.nullTest test node operand)
      visit handle limit (level + 1) operand
    | .function op, [argument] =>
      handle (.function op node none argument)
      visit handle limit (level + 1) argument
    | .function op, column :: argument :: _ =>
      visit handle limit (level + 1) column
      handle (.function op node (some column) argument)
      visit handle limit (level + 1) argument
    | .score, _ => handle (.score node)
    | .clause, _ | .literal _, _ | .list, _ | .name _, _ => pure ()
    | .binary _, _ | .connective _, _ | .negation, _ | .nullTest _, _ | .function _, _ =>
      throw (.defect .missingChild)

end Walk

/-- Walks through a clause: its start, its tree from level one on, and its end. A clause that is
absent makes no calls at all. -/
def walk {σ : Type} (handle : Handler σ) (limit : Option Nat) : Option Tree → Action σ Unit
  | none => pure ()
  | some root => do
    handle (.start root)
    Walk.visit handle limit 1 root
    handle .stop

end WhereClause
