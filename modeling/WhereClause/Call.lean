import WhereClause.Tree

/-!
# Calls

What a walk reports to a handler is a sequence of calls. A call names the operator node and its
operands, which are trees that nobody has interpreted yet. The `Hook` of a call is what remains of
it without the trees.

The operators that group predicates, `AND`, `OR` and `NOT`, are called in three phases, so that a
handler can act around their operands.
-/

namespace WhereClause

/-- When a grouping operator is called: before everything else, at its own turn, or after
everything else. -/
inductive Phase
  | opening
  | middle
  | closing
deriving DecidableEq, Repr

/-! ### Hooks -/

/-- A kind of call. -/
inductive Hook
  /-- Before a walk. -/
  | start
  /-- After a walk that ended well. -/
  | stop
  | binary (op : BinaryOp)
  | connective (op : Connective) (phase : Phase)
  | negation (phase : Phase)
  | nullTest (test : NullTest)
  | function (op : FunctionOp)
  | score
deriving DecidableEq, Repr

namespace Hook

/-- Every hook once. -/
def all : List Hook :=
  [start, stop,
    binary .equal, binary .notEqual, binary .greater, binary .greaterEqual, binary .less,
    binary .lessEqual,
    negation .opening, negation .middle, negation .closing,
    connective .and .opening, connective .and .middle, connective .and .closing,
    connective .or .opening, connective .or .middle, connective .or .closing,
    binary .inList, binary .notInList, binary .anyInList, binary .anyNotInList, binary .equalAny,
    nullTest .isNull, nullTest .isNotNull,
    binary .like, binary .notLike,
    function .contains, function .inFolder, function .inTree, score]

/-- No hook is missing from `all`. -/
theorem mem_all (h : Hook) : h ∈ all := by
  rcases h with _ | _ | op | ⟨op, phase⟩ | phase | test | op | _
  · decide
  · decide
  · cases op <;> decide
  · cases op <;> cases phase <;> decide
  · cases phase <;> decide
  · cases test <;> decide
  · cases op <;> decide
  · decide

/-- The name of the hook in traces. -/
def name : Hook → String
  | start => "on_start_processing"
  | stop => "on_stop_processing"
  | binary .equal => "on_equals"
  | binary .notEqual => "on_not_equals"
  | binary .greater => "on_greater_than"
  | binary .greaterEqual => "on_greater_or_equals"
  | binary .less => "on_less_than"
  | binary .lessEqual => "on_less_or_equals"
  | negation .opening => "on_pre_not"
  | negation .middle => "on_not"
  | negation .closing => "on_post_not"
  | connective .and .opening => "on_pre_and"
  | connective .and .middle => "on_and"
  | connective .and .closing => "on_post_and"
  | connective .or .opening => "on_pre_or"
  | connective .or .middle => "on_or"
  | connective .or .closing => "on_post_or"
  | binary .inList => "on_in"
  | binary .notInList => "on_not_in"
  | binary .anyInList => "on_in_any"
  | binary .anyNotInList => "on_not_in_any"
  | binary .equalAny => "on_eq_any"
  | nullTest .isNull => "on_is_null"
  | nullTest .isNotNull => "on_is_not_null"
  | binary .like => "on_is_like"
  | binary .notLike => "on_is_not_like"
  | function .contains => "on_contains"
  | function .inFolder => "on_in_folder"
  | function .inTree => "on_in_tree"
  | score => "on_score"

/-- The hook of the given name. -/
def ofName? (word : String) : Option Hook :=
  all.find? fun h => h.name == word

/-- The name of a hook names that hook and no other. -/
@[simp]
theorem ofName?_name (h : Hook) : ofName? h.name = some h := by
  have key : ∀ h ∈ all, ofName? h.name = some h := by decide +kernel
  exact key h (mem_all h)

end Hook

/-! ### Calls -/

/-- A call with the nodes it is about. -/
inductive Call
  | start (root : Tree)
  | stop
  | binary (op : BinaryOp) (node left right : Tree)
  | connective (op : Connective) (phase : Phase) (node left right : Tree)
  | negation (phase : Phase) (node operand : Tree)
  | nullTest (test : NullTest) (node operand : Tree)
  /-- The column is absent in the form with one argument. -/
  | function (op : FunctionOp) (node : Tree) (column : Option Tree) (argument : Tree)
  | score (node : Tree)
deriving Repr

namespace Call

/-- The kind of the call. -/
def hook : Call → Hook
  | start _ => .start
  | stop => .stop
  | binary op .. => .binary op
  | connective op phase .. => .connective op phase
  | negation phase .. => .negation phase
  | nullTest test .. => .nullTest test
  | function op .. => .function op
  | score _ => .score

/-- The operands in order, `none` standing for the absent column of a function. The root of a clause
counts as the operand of the start. -/
def operands : Call → List (Option Tree)
  | start root => [some root]
  | stop => []
  | binary _ _ left right => [some left, some right]
  | connective _ _ _ left right => [some left, some right]
  | negation _ _ operand => [some operand]
  | nullTest _ _ operand => [some operand]
  | function _ _ column argument => [column, some argument]
  | score _ => []

end Call

end WhereClause
