import WhereClause.Tag

/-!
# Clause trees

A clause tree is a rose tree. Each node carries a tag and a text: the spelling of a literal or a
name, and as a rule nothing at an operator. Child counts that the grammar forbids are expressible;
`Tree.WellFormed` excludes them where a statement needs it.

Recursion over a tree goes through its list of children, and `Tree.induct` is the matching
induction, with the hypothesis at every child.
-/

namespace WhereClause

/-- A node of a clause tree with all that is below it. -/
inductive Tree
  | node (tag : Tag) (text : String) (children : List Tree)
deriving Repr

namespace Tree

/-! ### Parts -/

/-- The tag of the root. -/
def tag : Tree → Tag
  | node tag _ _ => tag

/-- The text of the root. -/
def text : Tree → String
  | node _ text _ => text

/-- The trees directly below the root. -/
def children : Tree → List Tree
  | node _ _ children => children

@[simp] theorem tag_node (tag : Tag) (text : String) (cs : List Tree) :
    (node tag text cs).tag = tag := rfl

@[simp] theorem text_node (tag : Tag) (text : String) (cs : List Tree) :
    (node tag text cs).text = text := rfl

@[simp] theorem children_node (tag : Tag) (text : String) (cs : List Tree) :
    (node tag text cs).children = cs := rfl

/-! ### Shapes -/

/-- A node without children. -/
def leaf (tag : Tag) (text : String) : Tree :=
  node tag text []

/-- A node without text. -/
def branch (tag : Tag) (children : List Tree) : Tree :=
  node tag "" children

/-- A reference to the column of a name. -/
def column (name : String) : Tree :=
  leaf (.name .column) name

/-- A literal, given as it is spelled in the clause, quotes included. -/
def literal (kind : LiteralKind) (spelling : String) : Tree :=
  leaf (.literal kind) spelling

/-- A list of items. -/
def list (items : List Tree) : Tree :=
  branch .list items

/-! ### Induction -/

/-- What holds of a node whenever it holds of all its children holds of every tree. -/
@[elab_as_elim]
theorem induct {motive : Tree → Prop}
    (node : ∀ tag text children, (∀ c ∈ children, motive c) → motive (node tag text children))
    (t : Tree) : motive t :=
  Tree.rec (motive_1 := motive) (motive_2 := fun cs => ∀ c ∈ cs, motive c)
    (fun tag text children ih => node tag text children ih)
    (fun _ h => absurd h List.not_mem_nil)
    (fun _ _ head tail c h => by
      rcases List.mem_cons.mp h with rfl | h
      · exact head
      · exact tail c h)
    t

/-! ### Equality -/

mutual

/-- Decides whether two trees are the same. -/
def decEq : (s t : Tree) → Decidable (s = t)
  | node a x cs, node b y ds =>
    if h : a = b ∧ x = y then
      match decEqList cs ds with
      | isTrue e => isTrue (by rw [h.1, h.2, e])
      | isFalse e => isFalse (by simp [e])
    else
      isFalse (by grind)

/-- Decides whether two lists of trees are the same. -/
def decEqList : (ss ts : List Tree) → Decidable (ss = ts)
  | [], [] => isTrue rfl
  | [], _ :: _ => isFalse (by simp)
  | _ :: _, [] => isFalse (by simp)
  | s :: ss, t :: ts =>
    match decEq s t with
    | isFalse e => isFalse (by simp [e])
    | isTrue e =>
      match decEqList ss ts with
      | isFalse e' => isFalse (by simp [e'])
      | isTrue e' => isTrue (by rw [e, e'])

end

instance : DecidableEq Tree :=
  decEq

/-! ### Depth -/

mutual

/-- The number of levels of the tree: one for a node without children. -/
def depth : Tree → Nat
  | node _ _ children => 1 + depthList children

/-- The number of levels of the deepest tree in the list, and zero if there is none. -/
def depthList : List Tree → Nat
  | [] => 0
  | t :: ts => max (depth t) (depthList ts)

end

/-- Every tree has a level. -/
theorem depth_pos (t : Tree) : 0 < t.depth := by
  cases t
  rw [depth]
  omega

/-- No tree of a list is deeper than the list. -/
theorem depth_le_depthList {t : Tree} {ts : List Tree} (h : t ∈ ts) : t.depth ≤ depthList ts := by
  induction ts with
  | nil => exact absurd h List.not_mem_nil
  | cons s ts ih =>
    rw [depthList]
    rcases List.mem_cons.mp h with rfl | h
    · omega
    · have := ih h
      omega

/-- A child has fewer levels than its parent. -/
theorem depth_lt_depth_node {c : Tree} {tag : Tag} {text : String} {cs : List Tree} (h : c ∈ cs) :
    c.depth < (node tag text cs).depth := by
  have := depth_le_depthList h
  rw [depth]
  omega

/-! ### Child counts -/

/-- Every node of the tree has a number of children that the grammar allows for its tag. -/
inductive WellFormed : Tree → Prop
  | node {tag : Tag} {text : String} {children : List Tree} :
      tag.Admits children.length → (∀ c ∈ children, WellFormed c) →
      WellFormed (Tree.node tag text children)

/-- A node is well formed when its child count is allowed and all its children are. -/
theorem wellFormed_node {tag : Tag} {text : String} {cs : List Tree} :
    (node tag text cs).WellFormed ↔ tag.Admits cs.length ∧ ∀ c ∈ cs, c.WellFormed :=
  ⟨fun | .node h hs => ⟨h, hs⟩, fun ⟨h, hs⟩ => .node h hs⟩

end Tree

end WhereClause
