import WhereClause.Json
import WhereClause.Tree

/-!
# Tree documents

A tree is exchanged as a JSON object with a member `tag`, and members `text` and `children` where
the text or the children are not empty. Reading checks the child count of every node, so a tree that
was read is well formed; of several faults the first is reported, in the order of `TreeError` at a
node, and with the children before the child count of their parent.
-/

namespace WhereClause

/-! ### Faults -/

/-- A member of the object for a node. -/
inductive TreeField
  | tag
  | text
  | children
deriving DecidableEq, Repr

namespace TreeField

/-- The name of the member. -/
def name : TreeField → String
  | tag => "tag"
  | text => "text"
  | children => "children"

/-- What the value of the member has to be, in words. -/
def demand : TreeField → String
  | tag | text => "a string"
  | children => "an array"

end TreeField

/-- Why a JSON value is no tree. -/
inductive TreeError
  | notAnObject (found : Json.Form)
  | missingTag
  | unknownTag (name : String)
  | wrongForm (field : TreeField)
  | childCount (tag : Tag) (demand : Arity) (found : Nat)
deriving DecidableEq, Repr

/-- The fault in words. -/
def TreeError.message : TreeError → String
  | notAnObject found => "expected a JSON object for a tree node, found " ++ found.name
  | missingTag => "tree node is missing the \"tag\" field"
  | unknownTag name => "unknown tag: " ++ name
  | wrongForm field => "field \"" ++ field.name ++ "\" must be " ++ field.demand
  | childCount tag demand found =>
    tag.grammarName ++ " expects " ++ demand.description ++ ", found " ++ toString found

namespace Tree

/-! ### Writing -/

/-- The members `tag` and `text` of the object for a node; an empty text is left out. -/
def headMembers (tag : Tag) (text : String) : List (String × Json) :=
  ("tag", .string tag.grammarName) :: (if text = "" then [] else [("text", .string text)])

mutual

/-- The document of a tree. The members come in the order of their names. -/
def toJson : Tree → Json
  | node tag text [] => .object (headMembers tag text)
  | node tag text (c :: cs) =>
    .object (("children", .array (toJson c :: toJsonList cs)) :: headMembers tag text)

/-- The documents of the trees of a list. -/
def toJsonList : List Tree → List Json
  | [] => []
  | t :: ts => toJson t :: toJsonList ts

end

/-- The documents of a list are those of its trees. -/
theorem toJsonList_eq_map (ts : List Tree) : toJsonList ts = ts.map toJson := by
  induction ts with
  | nil => rfl
  | cons t ts ih => rw [toJsonList, ih, List.map_cons]

/-! ### Reading -/

/-- The tag of a node, given the value of that member. -/
def tagOf : Option Json → Except TreeError Tag
  | none => .error .missingTag
  | some (.string name) =>
    match Tag.ofName? name with
    | some tag => .ok tag
    | none => .error (.unknownTag name)
  | some _ => .error (.wrongForm .tag)

/-- The text of a node, given the value of that member; it is empty without one. -/
def textOf : Option Json → Except TreeError String
  | none | some .null => .ok ""
  | some (.string text) => .ok text
  | some _ => .error (.wrongForm .text)

/-- The node, if its tag allows the number of its children. -/
def checked (tag : Tag) (text : String) (children : List Tree) : Except TreeError Tree :=
  match tag.arity? with
  | none => .ok (node tag text children)
  | some demand =>
    if demand.Allows children.length then .ok (node tag text children)
    else .error (.childCount tag demand children.length)

mutual

/-- The tree of a document. -/
def ofJson : Json → Except TreeError Tree
  | .object members => do
    let tag ← tagOf (Json.lookup? "tag" members)
    let text ← textOf (Json.lookup? "text" members)
    let children ← childrenOf members
    checked tag text children
  | v => .error (.notAnObject v.form)

/-- The children of a node, given its members, of which the last one named so counts. -/
def childrenOf : List (String × Json) → Except TreeError (List Tree)
  | [] => .ok []
  | (k, v) :: ms =>
    if k = "children" ∧ (Json.lookup? "children" ms).isNone then ofItems v else childrenOf ms

/-- The children of a node, given the value of that member. -/
def ofItems : Json → Except TreeError (List Tree)
  | .null => .ok []
  | .array items => ofJsonList items
  | _ => .error (.wrongForm .children)

/-- The trees of the documents of a list. -/
def ofJsonList : List Json → Except TreeError (List Tree)
  | [] => .ok []
  | v :: vs => do
    let t ← ofJson v
    let ts ← ofJsonList vs
    return t :: ts

end

/-- The children of a node depend only on the member that looking up their name finds. -/
theorem childrenOf_eq (members : List (String × Json)) :
    childrenOf members = (Json.lookup? "children" members).elim (.ok []) ofItems := by
  induction members with
  | nil => rfl
  | cons m ms ih =>
    obtain ⟨k, v⟩ := m
    rw [childrenOf, ih, Json.lookup?_cons]
    rcases h : Json.lookup? "children" ms with _ | w
    · by_cases hk : k = "children" <;> simp [hk]
    · simp

end Tree

end WhereClause
