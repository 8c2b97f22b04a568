import WhereClause.Rendering
import WhereClause.Proofs.Rendering.Operand
import WhereClause.Proofs.Tree.Shape
import WhereClause.Proofs.Walk.Steps
import Mathlib.Tactic.Tauto

/-!
# The text of a clause as a function of its tree

The handler that writes clause text does so piece by piece, while a walk goes through predicates and
operands alike.  `Tree.printClause` is the text as a recursive function of the tree, and
`render_ok_iff_printClause` says that a walk through a well-formed tree writes just this text, and
exactly when it ends well: the values among the operands must be renderable (`Tree.Spellable`), and
the levels that the walk goes down to must lie within the limit.

The proof composes what the parts of a visit write, each of which is described by
`Rendering.Writes`.
-/

namespace WhereClause

/-! ## The printer -/

namespace Rendering

/-- How a binary operator is written with the texts of its operands. -/
def binaryForm : BinaryOp → String → String → String
  | .equal, left, right => left ++ " = " ++ right
  | .notEqual, left, right => left ++ " <> " ++ right
  | .greater, left, right => left ++ " > " ++ right
  | .greaterEqual, left, right => left ++ " >= " ++ right
  | .less, left, right => left ++ " < " ++ right
  | .lessEqual, left, right => left ++ " <= " ++ right
  | .inList, left, right => left ++ " IN " ++ right
  | .notInList, left, right => left ++ " NOT IN " ++ right
  | .anyInList, left, right => "ANY " ++ left ++ " IN " ++ right
  | .anyNotInList, left, right => "ANY " ++ left ++ " NOT IN " ++ right
  | .equalAny, left, right => left ++ " = ANY " ++ right
  | .like, left, right => left ++ " LIKE " ++ right
  | .notLike, left, right => left ++ " NOT LIKE " ++ right

/-- A binary operator is written as its word between the operands, behind what leads the left one.
-/
lemma binaryForm_eq (op : BinaryOp) (left right : String) :
    binaryForm op left right =
      leadText op ++ (left ++ (" " ++ infixText op ++ " " ++ right)) := by
  cases op <;> simp [leadText, infixText, binaryForm, String.append_assoc]

/-- How a connective is written with the texts of its predicates. -/
def connectiveForm : Connective → String → String → String
  | .and, left, right => "(" ++ left ++ " AND " ++ right ++ ")"
  | .or, left, right => "(" ++ left ++ " OR " ++ right ++ ")"

/-- A connective is written as its word between the predicates, in parentheses. -/
lemma connectiveForm_eq (op : Connective) (left right : String) :
    connectiveForm op left right =
      "(" ++ (left ++ (" " ++ connectiveText op ++ " " ++ (right ++ ")"))) := by
  cases op <;> simp [connectiveForm, connectiveText, String.append_assoc]

/-- How a null test is written with the text of its operand. -/
def nullTestForm : NullTest → String → String
  | .isNull, operand => operand ++ " IS NULL"
  | .isNotNull, operand => operand ++ " IS NOT NULL"

/-- A null test is written as its words behind the operand. -/
lemma nullTestForm_eq (test : NullTest) (operand : String) :
    nullTestForm test operand = operand ++ (" " ++ nullTestText test) := by
  cases test <;> rfl

/-- How a function is written with the text between its parentheses. -/
def functionForm : FunctionOp → String → String
  | .contains, arguments => "CONTAINS(" ++ arguments ++ ")"
  | .inFolder, arguments => "IN_FOLDER(" ++ arguments ++ ")"
  | .inTree, arguments => "IN_TREE(" ++ arguments ++ ")"

/-- A function is written as its name with parentheses behind it. -/
lemma functionForm_eq (op : FunctionOp) (arguments : String) :
    functionForm op arguments = functionText op ++ "(" ++ arguments ++ ")" := by
  cases op <;> rfl

end Rendering

open Rendering

namespace Tree

/-- The text of a clause.  An operand in the place of a predicate has no text. -/
def printClause : Tree → String
  | node (.binary op) _ (left :: right :: _) =>
    binaryForm op left.printOperand right.printOperand
  | node (.connective op) _ (left :: right :: _) =>
    connectiveForm op left.printClause right.printClause
  | node .negation _ (operand :: _) =>
    if IsGrouped operand then "NOT " ++ operand.printClause
    else "NOT (" ++ operand.printClause ++ ")"
  | node (.nullTest test) _ (operand :: _) => nullTestForm test operand.printOperand
  | node (.function op) _ [argument] => functionForm op argument.printOperand
  | node (.function op) _ (column :: argument :: _) =>
    functionForm op (column.printOperand ++ ", " ++ argument.printOperand)
  | node .score _ _ => "SCORE()"
  | _ => ""

/-! ### Success -/

/-- The second tree is found from the first one by going down through connectives and negations
only. -/
inductive Reaches : Tree → Tree → Prop
  | refl (t : Tree) : Reaches t t
  | through {tag : Tag} {text : String} {children : List Tree} {c t : Tree} :
      tag.Groups → c ∈ children → Reaches c t → Reaches (node tag text children) t

/-- What is reached from a node is the node itself or reached from one of its children. -/
lemma reaches_node {tag : Tag} {text : String} {children : List Tree} {t : Tree} :
    Reaches (node tag text children) t ↔
      t = node tag text children ∨ tag.Groups ∧ ∃ c ∈ children, Reaches c t := by
  constructor
  · rintro (_ | ⟨hgroups, hc, ht⟩)
    · exact .inl rfl
    · exact .inr ⟨hgroups, _, hc, ht⟩
  · rintro (rfl | ⟨hgroups, c, hc, ht⟩)
    · exact .refl _
    · exact .through hgroups hc ht

namespace Reaches

/-- What is reached from a tree that is reached is reached. -/
lemma trans {s t u : Tree} (hst : Reaches s t) (htu : Reaches t u) : Reaches s u := by
  induction hst with
  | refl t => exact htu
  | through htag hc _ ih => exact .through htag hc (ih htu)

/-- What is reached from a well-formed tree is well formed. -/
lemma wellFormed {t u : Tree} (hreach : Reaches t u) (h : t.WellFormed) : u.WellFormed := by
  induction hreach with
  | refl t => exact h
  | through _ hc _ ih => exact ih ((wellFormed_node.mp h).2 _ hc)

end Reaches

/-- Every predicate that is reached through connectives and negations has renderable operands. -/
def Spellable (t : Tree) : Prop :=
  ∀ predicate, Reaches t predicate → predicate.tag.TakesValues →
    ∀ operand ∈ predicate.children, operand.Renderable

/-- What is reached from a spellable tree is spellable. -/
lemma Reaches.spellable {t u : Tree} (hreach : Reaches t u) (h : t.Spellable) : u.Spellable :=
  fun predicate hpredicate => h predicate (hreach.trans hpredicate)

/-- A predicate is spellable if its operands are renderable. -/
lemma spellable_of_takesValues (tag : Tag) (text : String) (children : List Tree)
    (htag : tag.TakesValues) :
    (node tag text children).Spellable ↔ ∀ c ∈ children, c.Renderable := by
  constructor
  · intro h
    exact h _ (.refl _) htag
  · rintro h predicate (_ | ⟨hgroups, -, -⟩) -
    · exact h
    · exact absurd hgroups htag.not_groups

/-- A predicate of one operand is spellable if the operand is renderable. -/
lemma spellable_single {tag : Tag} {text : String} {operand : Tree} (htag : tag.TakesValues) :
    (node tag text [operand]).Spellable ↔ operand.Renderable := by
  simpa using spellable_of_takesValues tag text [operand] htag

/-- A predicate of two operands is spellable if both are renderable. -/
lemma spellable_pair {tag : Tag} {text : String} {left right : Tree} (htag : tag.TakesValues) :
    (node tag text [left, right]).Spellable ↔ left.Renderable ∧ right.Renderable := by
  simpa using spellable_of_takesValues tag text [left, right] htag

/-- A connective or a negation is spellable if its predicates are. -/
lemma spellable_of_groups (tag : Tag) (text : String) (children : List Tree) (htag : tag.Groups) :
    (node tag text children).Spellable ↔ ∀ c ∈ children, c.Spellable := by
  constructor
  · intro h c hc predicate hreach
    exact h predicate (.through htag hc hreach)
  · rintro h predicate (_ | ⟨-, hc, hreach⟩)
    · exact fun hvalues => absurd htag hvalues.not_groups
    · exact h _ hc predicate hreach

/-- A node that is neither a predicate nor groups predicates is spellable. -/
lemma spellable_of_not {tag : Tag} {text : String} {children : List Tree}
    (hvalues : ¬tag.TakesValues) (hgroups : ¬tag.Groups) : (node tag text children).Spellable := by
  rintro predicate (_ | ⟨h, -, -⟩)
  · exact fun h => absurd h hvalues
  · exact absurd h hgroups

/-- A renderable operand is no operator. -/
lemma Renderable.not_isOperator {t : Tree} (h : t.Renderable) : ¬t.tag.IsOperator := by
  unfold Renderable at h
  split at h <;> simp_all [Tag.IsOperator]

/-- A renderable operand is spellable. -/
lemma Renderable.spellable {t : Tree} (h : t.Renderable) : t.Spellable := by
  obtain ⟨tag, text, children⟩ := t
  have htag : ¬tag.IsOperator := h.not_isOperator
  exact spellable_of_not (mt Tag.TakesValues.isOperator htag) (mt Tag.Groups.isOperator htag)

/-- An operand in the place of a predicate has no text. -/
lemma printClause_of_not_isOperator {t : Tree} (h : ¬t.tag.IsOperator) : t.printClause = "" := by
  obtain ⟨tag, text, children⟩ := t
  cases tag <;> simp_all [Tag.IsOperator, printClause]

end Tree

/-! ## What the parts of a visit write -/

namespace Rendering

/-- The action ends well exactly if the condition holds, and has then written the text behind what
had been written before. -/
def Writes (action : Action String Unit) (condition : Prop) (text : String) : Prop :=
  ∀ s, (condition → action.runFrom s = (.ok (), s ++ text)) ∧
    (¬condition → ∃ halt s', action.runFrom s = (.error halt, s'))

namespace Writes

variable {a b : Action String Unit} {p q : Prop} {x y : String}

/-- The condition and, where it holds, the text may be replaced by equal ones. -/
lemma congr (h : Writes a p x) (hpq : p ↔ q) (hxy : q → x = y) : Writes a q y := by
  intro s
  obtain ⟨hok, herror⟩ := h s
  constructor
  · intro hq
    rw [← hxy hq]
    exact hok (hpq.mpr hq)
  · intro hq
    exact herror fun hp => hq (hpq.mp hp)

/-- Actions one after the other write their texts one after the other. -/
lemma bind (ha : Writes a p x) (hb : Writes b q y) : Writes (do a; b) (p ∧ q) (x ++ y) := by
  intro s
  obtain ⟨haok, haerror⟩ := ha s
  by_cases hp : p
  · obtain ⟨hbok, hberror⟩ := hb (s ++ x)
    have hrun : (do a; b).runFrom s = b.runFrom (s ++ x) := Action.runFrom_bind_of_ok (haok hp)
    rw [hrun, ← String.append_assoc]
    exact ⟨fun h => hbok h.2, fun h => hberror fun hq => h ⟨hp, hq⟩⟩
  · obtain ⟨halt, s', hrun⟩ := haerror hp
    exact ⟨fun h => absurd h.1 hp, fun _ => ⟨halt, s', Action.runFrom_bind_of_error hrun⟩⟩

/-- Doing nothing writes nothing. -/
lemma pure : Writes (Pure.pure ()) True "" := by
  intro s
  simp

/-- A text is written as it is. -/
lemma write (text : String) : Writes (write text) True text := by
  intro s
  simp [Rendering.write]

/-- A text that may be missing is written if it is there. -/
lemma writeOrHalt {result : Except Halt String} (hok : p → result = .ok x)
    (herror : ¬p → ∃ halt, result = .error halt) : Writes (writeOrHalt result) p x := by
  intro s
  constructor
  · intro hp
    rw [hok hp]
    rfl
  · intro hp
    obtain ⟨halt, hhalt⟩ := herror hp
    rw [hhalt]
    exact ⟨halt, s, rfl⟩

/-- Looking at a level writes nothing and ends well within the limit. -/
lemma checkLevel (limit : Option Nat) (level : Nat) :
    Writes (Walk.checkLevel limit level) (∀ l ∈ limit, level ≤ l) "" := by
  intro s
  cases limit with
  | none => simp [Walk.checkLevel]
  | some l =>
    rw [Walk.checkLevel]
    split
    · simp
      omega
    · simp
      omega

end Writes

/-! ### Calls -/

/-- What needs the text of an operand fails if the operand is not renderable. -/
lemma exists_bind_operandText_eq_error {α : Type} {t : Tree} (h : ¬t.Renderable)
    (f : String → Except Halt α) : ∃ halt, (operandText t >>= f) = .error halt := by
  obtain ⟨halt, hhalt⟩ := operandText_of_not_renderable h
  exact ⟨halt, by rw [hhalt]; rfl⟩

/-- A binary operator is written if both of its operands are renderable. -/
lemma writes_binary (op : BinaryOp) (node left right : Tree) :
    Writes (render (.binary op node left right)) (left.Renderable ∧ right.Renderable)
      (binaryForm op left.printOperand right.printOperand) := by
  have htext : Writes (writeOrHalt (binaryText op left right)) (left.Renderable ∧ right.Renderable)
      (left.printOperand ++ " " ++ infixText op ++ " " ++ right.printOperand) := by
    apply Writes.writeOrHalt
    · rintro ⟨hleft, hright⟩
      rw [binaryText, operandText_of_renderable hleft, operandText_of_renderable hright]
      rfl
    · intro h
      rw [binaryText]
      by_cases hleft : left.Renderable
      · rw [operandText_of_renderable hleft]
        exact exists_bind_operandText_eq_error (fun hright => h ⟨hleft, hright⟩) _
      · exact exists_bind_operandText_eq_error hleft _
  refine ((Writes.write (leadText op)).bind htext).congr (by simp) fun _ => ?_
  simp only [binaryForm_eq, String.append_assoc]

/-- A null test is written if its operand is renderable. -/
lemma writes_nullTest (test : NullTest) (node operand : Tree) :
    Writes (render (.nullTest test node operand)) operand.Renderable
      (nullTestForm test operand.printOperand) := by
  apply Writes.writeOrHalt
  · intro h
    rw [nullTestPredicate, operandText_of_renderable h, nullTestForm_eq, ← String.append_assoc]
    rfl
  · intro h
    exact exists_bind_operandText_eq_error h _

/-- A function of an argument is written if the argument is renderable. -/
lemma writes_functionOfArgument (op : FunctionOp) (node argument : Tree) :
    Writes (render (.function op node none argument)) argument.Renderable
      (functionForm op argument.printOperand) := by
  apply Writes.writeOrHalt
  · intro h
    rw [functionPredicate, operandText_of_renderable h, functionForm_eq]
    rfl
  · intro h
    exact exists_bind_operandText_eq_error h _

/-- A function of a column and an argument is written if both are renderable. -/
lemma writes_functionOfColumn (op : FunctionOp) (node column argument : Tree) :
    Writes (render (.function op node (some column) argument))
      (column.Renderable ∧ argument.Renderable)
      (functionForm op (column.printOperand ++ ", " ++ argument.printOperand)) := by
  apply Writes.writeOrHalt
  · rintro ⟨hcolumn, hargument⟩
    rw [functionPredicate, operandText_of_renderable hargument]
    dsimp only [bind, Except.bind]
    rw [operandText_of_renderable hcolumn, functionForm_eq]
    simp [String.append_assoc, pure, Except.pure]
  · intro h
    rw [functionPredicate]
    by_cases hargument : argument.Renderable
    · rw [operandText_of_renderable hargument]
      exact exists_bind_operandText_eq_error (fun hcolumn => h ⟨hcolumn, hargument⟩) _
    · exact exists_bind_operandText_eq_error hargument _

/-! ### Visits -/

/-- The levels that a visit from the given level on goes down to lie within the limit. -/
def FitsLimit (limit : Option Nat) (level : Nat) (t : Tree) : Prop :=
  ∀ l ∈ limit, level + t.levels ≤ l + 1

section FitsLimit

variable {limit : Option Nat} {level : Nat} {tag : Tag} {text : String}

/-- A node with two children to go down to fits if its own level and both children do. -/
lemma fitsLimit_pair {left right : Tree} (h : tag.reach = 2) :
    FitsLimit limit level (.node tag text [left, right]) ↔
      (∀ l ∈ limit, level ≤ l) ∧ FitsLimit limit (level + 1) left ∧
        FitsLimit limit (level + 1) right := by
  have hleft := left.levels_pos
  cases limit with
  | none => simp [FitsLimit]
  | some l =>
    simp [FitsLimit, Tree.levels, Tree.levelsOfFirst, h]
    omega

/-- A node with one child to go down to fits if its own level and the child do. -/
lemma fitsLimit_single {operand : Tree} (h : tag.reach ≠ 0) :
    FitsLimit limit level (.node tag text [operand]) ↔
      (∀ l ∈ limit, level ≤ l) ∧ FitsLimit limit (level + 1) operand := by
  have hoperand := operand.levels_pos
  obtain ⟨n, hn⟩ := Nat.exists_eq_succ_of_ne_zero h
  cases limit with
  | none => simp [FitsLimit]
  | some l =>
    cases n <;> simp [FitsLimit, Tree.levels, Tree.levelsOfFirst, hn] <;> omega

/-- A node without children to go down to fits if its own level does. -/
lemma fitsLimit_of_reach_eq_zero {children : List Tree} (h : tag.reach = 0) :
    FitsLimit limit level (.node tag text children) ↔ ∀ l ∈ limit, level ≤ l := by
  cases limit with
  | none => simp [FitsLimit]
  | some l =>
    simp [FitsLimit, Tree.levels, Tree.levelsOfFirst, h]

end FitsLimit

/-- The text of a renderable operand, visited as if it were a predicate, is empty. -/
lemma printClause_of_renderable {t : Tree} (h : t.Renderable) : t.printClause = "" :=
  Tree.printClause_of_not_isOperator h.not_isOperator

/-- A visit of a well-formed tree writes the printed clause if the tree is spellable and fits into
the limit, and fails otherwise. -/
theorem writes_visit {t : Tree} (h : t.WellFormed) (limit : Option Nat) (level : Nat) :
    Writes (Walk.visit render limit level t) (t.Spellable ∧ FitsLimit limit level t)
      t.printClause := by
  induction h using Tree.WellFormed.induct generalizing level with
  | binary op text left right _ _ _ ihleft ihright =>
    have hparts := (Writes.checkLevel limit level).bind ((ihleft (level + 1)).bind
      ((writes_binary op (.node (.binary op) text [left, right]) left right).bind
        (ihright (level + 1))))
    rw [Walk.visit.eq_def]
    have hleft : left.Renderable → left.Spellable := Tree.Renderable.spellable
    have hright : right.Renderable → right.Spellable := Tree.Renderable.spellable
    rw [Tree.spellable_pair (by trivial), fitsLimit_pair rfl]
    refine hparts.congr (by tauto) ?_
    rintro ⟨⟨hl, hr⟩, -⟩
    simp [printClause_of_renderable hl, printClause_of_renderable hr, Tree.printClause]
  | connective op text left right _ _ _ ihleft ihright =>
    have hparts := (Writes.checkLevel limit level).bind ((Writes.write "(").bind
      ((ihleft (level + 1)).bind ((Writes.write (" " ++ connectiveText op ++ " ")).bind
        ((ihright (level + 1)).bind (Writes.write ")")))))
    rw [Walk.visit.eq_def]
    have hspellable : (Tree.node (.connective op) text [left, right]).Spellable ↔
        left.Spellable ∧ right.Spellable := by
      simpa using Tree.spellable_of_groups (.connective op) text [left, right] trivial
    rw [hspellable, fitsLimit_pair rfl]
    refine hparts.congr (by tauto) ?_
    intro _
    simp [Tree.printClause, connectiveForm_eq, String.append_assoc]
  | negation text operand _ _ ih =>
    have hparts := (Writes.checkLevel limit level).bind (Writes.pure.bind
      ((Writes.write (if IsGrouped operand then "NOT " else "NOT (")).bind
        ((ih (level + 1)).bind (Writes.write (if IsGrouped operand then "" else ")")))))
    rw [Walk.visit.eq_def]
    have hspellable : (Tree.node .negation text [operand]).Spellable ↔ operand.Spellable := by
      simpa using Tree.spellable_of_groups .negation text [operand] trivial
    rw [hspellable, fitsLimit_single (by decide)]
    refine hparts.congr (by tauto) ?_
    intro _
    by_cases hgrouped : IsGrouped operand <;> simp [Tree.printClause, hgrouped, String.append_assoc]
  | nullTest test text operand _ _ ih =>
    have hparts := (Writes.checkLevel limit level).bind
      ((writes_nullTest test (.node (.nullTest test) text [operand]) operand).bind (ih (level + 1)))
    rw [Walk.visit.eq_def]
    have hoperand : operand.Renderable → operand.Spellable := Tree.Renderable.spellable
    rw [Tree.spellable_single (by trivial), fitsLimit_single (by exact Nat.succ_ne_zero 0)]
    refine hparts.congr (by tauto) ?_
    rintro ⟨hx, -⟩
    simp [printClause_of_renderable hx, Tree.printClause]
  | functionOfArgument op text argument _ _ ih =>
    have hparts := (Writes.checkLevel limit level).bind
      ((writes_functionOfArgument op (.node (.function op) text [argument]) argument).bind
        (ih (level + 1)))
    rw [Walk.visit.eq_def]
    have hargument : argument.Renderable → argument.Spellable := Tree.Renderable.spellable
    rw [Tree.spellable_single (by trivial), fitsLimit_single (by exact Nat.succ_ne_zero 1)]
    refine hparts.congr (by tauto) ?_
    rintro ⟨hx, -⟩
    simp [printClause_of_renderable hx, Tree.printClause]
  | functionOfColumn op text column argument _ _ _ ihcolumn ihargument =>
    have hparts := (Writes.checkLevel limit level).bind ((ihcolumn (level + 1)).bind
      ((writes_functionOfColumn op (.node (.function op) text [column, argument]) column
        argument).bind (ihargument (level + 1))))
    rw [Walk.visit.eq_def]
    have hcolumn : column.Renderable → column.Spellable := Tree.Renderable.spellable
    have hargument : argument.Renderable → argument.Spellable := Tree.Renderable.spellable
    rw [Tree.spellable_pair (by trivial), fitsLimit_pair rfl]
    refine hparts.congr (by tauto) ?_
    rintro ⟨⟨hc, ha⟩, -⟩
    simp [printClause_of_renderable hc, printClause_of_renderable ha, Tree.printClause]
  | score text _ =>
    have hparts := (Writes.checkLevel limit level).bind (Writes.write "SCORE()")
    rw [Walk.visit.eq_def]
    have hspellable : (Tree.node .score text []).Spellable := Tree.spellable_of_not id id
    rw [fitsLimit_of_reach_eq_zero rfl]
    refine hparts.congr (by tauto) ?_
    intro _
    simp [Tree.printClause]
  | operand tag text children _ htag =>
    have hspellable : (Tree.node tag text children).Spellable :=
      Tree.spellable_of_not (mt Tag.TakesValues.isOperator htag) (mt Tag.Groups.isOperator htag)
    have htext : (Tree.node tag text children).printClause = "" :=
      Tree.printClause_of_not_isOperator htag
    rw [Walk.visit_of_not_isOperator (t := .node tag text children) htag, htext,
      fitsLimit_of_reach_eq_zero (Tag.reach_of_not_isOperator htag)]
    exact (Writes.checkLevel limit level).congr (by tauto) fun _ => rfl

/-! ### Walks -/

/-- A walk through a well-formed tree leaves a text behind exactly if the tree is spellable and its
levels lie within the limit, and this text is the printed clause. -/
lemma runFrom_walk_eq_ok_iff {t : Tree} (h : t.WellFormed) (limit : Option Nat)
    (written text : String) :
    (walk render limit (some t)).runFrom written = (.ok (), text) ↔
      (t.Spellable ∧ ∀ l ∈ limit, t.levels ≤ l) ∧ text = t.printClause := by
  have hrun : (walk render limit (some t)).runFrom written =
      (Walk.visit render limit 1 t).runFrom "" := by
    have hstart : (render (.start t)).runFrom written = (.ok (), "") := rfl
    rw [walk, Action.runFrom_bind_of_ok hstart]
    exact congrFun (bind_pure (Walk.visit render limit 1 t)) ""
  have hfits : (∀ l ∈ limit, t.levels ≤ l) ↔ FitsLimit limit 1 t := by
    refine forall_congr' fun l => imp_congr_right fun _ => ?_
    omega
  obtain ⟨hok, herror⟩ := writes_visit h limit 1 ""
  rw [hrun, hfits]
  by_cases hcondition : t.Spellable ∧ FitsLimit limit 1 t
  · rw [hok hcondition, String.empty_append]
    simp [hcondition, eq_comm]
  · obtain ⟨halt, s', hhalt⟩ := herror hcondition
    rw [hhalt]
    simp [hcondition]

end Rendering

/-- The walk that writes clause text agrees with the recursive printer.  Through a well-formed tree,
under any limit and whatever had been written before, the walk ends well if and only if every
comparison, membership test, pattern match, null test and function that is reached through
connectives and negations has only renderable operands, and the levels that the walk goes down to
lie within the limit.  When it ends well, the text is the printed clause. -/
theorem render_ok_iff_printClause {t : Tree} (h : t.WellFormed) (limit : Option Nat)
    (written : String) :
    ((∃ text, (walk render limit (some t)).runFrom written = (.ok (), text)) ↔
        t.Spellable ∧ ∀ l ∈ limit, t.levels ≤ l) ∧
      ∀ text, (walk render limit (some t)).runFrom written = (.ok (), text) →
        text = t.printClause := by
  refine ⟨?_, fun text htext => ((runFrom_walk_eq_ok_iff h limit written text).mp htext).2⟩
  constructor
  · rintro ⟨text, htext⟩
    exact ((runFrom_walk_eq_ok_iff h limit written text).mp htext).1
  · intro hcondition
    exact ⟨_, (runFrom_walk_eq_ok_iff h limit written _).mpr ⟨hcondition, rfl⟩⟩

/-- A negated conjunction of two predicates, within a limit of four levels. -/
theorem render_ok_iff_printClause_of_negated_group :
    let t : Tree := .branch .negation [.branch (.connective .and)
      [.branch (.binary .greater) [.column "a", .literal .number "1"],
        .branch (.binary .anyInList) [.column "my tags", .list [.literal .string "'x'"]]]]
    t.WellFormed ∧ (t.Spellable ∧ ∀ l ∈ some 4, t.levels ≤ l) ∧
      "NOT (a > 1 AND ANY \"my tags\" IN ('x'))" = t.printClause := by
  intro t
  have h : t.WellFormed := by
    simp [t, Tree.wellFormed_node, Tree.branch, Tree.column, Tree.literal, Tree.leaf, Tree.list,
      Tag.Admits, Tag.arity?, Arity.Allows]
  have hrun : (walk render (some 4) (some t)).runFrom "" =
      (.ok (), "NOT (a > 1 AND ANY \"my tags\" IN ('x'))") := rfl
  have hagree := render_ok_iff_printClause h (some 4) ""
  exact ⟨h, hagree.1.mp ⟨_, hrun⟩, hagree.2 _ hrun⟩

end WhereClause
