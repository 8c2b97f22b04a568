import WhereClause.Json
import WhereClause.Walk

/-!
# Traces

A trace is the sequence of calls of one or more walks, each reduced to its hook and to a description
of its operands.
-/

namespace WhereClause

/-- A recorded call. An absent column is described by `none`. -/
structure Event where
  hook : Hook
  operands : List (Option String)
deriving DecidableEq, Repr

/-- A tree is described by its text, or by the name of its tag if the text is empty. -/
def Tree.description (t : Tree) : String :=
  if t.text = "" then t.tag.grammarName else t.text

namespace Event

/-- The record of a call. -/
def ofCall (call : Call) : Event where
  hook := call.hook
  operands := call.operands.map (·.map Tree.description)

/-- The document of an event. -/
def toJson (e : Event) : Json :=
  .object [("hook", .string e.hook.name),
    ("operands", .array (e.operands.map fun operand => operand.elim .null .string))]

end Event

/-- The events recorded so far. -/
abbrev Trace :=
  Array Event

namespace Trace

/-- Records every call. A hook to refuse may be given; a call of it is recorded and then refused. -/
def record (refused : Option Hook) : Handler Trace := fun call => do
  modify fun trace => trace.push (Event.ofCall call)
  if refused = some call.hook then throw (.error (.rejected (.hook call.hook)))

/-- The document of a trace. -/
def toJson (trace : Trace) : Json :=
  .array (trace.toList.map Event.toJson)

end Trace

end WhereClause
