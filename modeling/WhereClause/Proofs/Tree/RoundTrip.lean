import WhereClause.Proofs.Tree.Document

/-!
# Trees that are written and read back

Writing a tree loses nothing, so what reading the document again does is to check the child counts,
and it checks them in `Tree.postorder`: the children of a node before the node, and from left to
right (`Tree.ofJson_toJson_eq_checkAll`).  A well-formed tree is read back as it is, and of several
wrong child counts the first one in this order is reported (`Tree.ofJson_toJson`).
-/

namespace WhereClause

namespace Tree

/-! ## Nodes in post-order -/

mutual

/-- The nodes of the tree, each with all that is below it: from left to right, and a node after its
children. -/
def postorder : Tree → List Tree
  | node tag text children => postorderList children ++ [node tag text children]

/-- The nodes of the trees of a list, tree by tree. -/
def postorderList : List Tree → List Tree
  | [] => []
  | t :: ts => postorder t ++ postorderList ts

end

/-- The node has a number of children that the grammar does not allow for its tag. -/
def Miscounted (t : Tree) : Prop :=
  ¬t.tag.Admits t.children.length

instance (t : Tree) : Decidable t.Miscounted :=
  inferInstanceAs (Decidable (¬_))

/-- A list of trees has the nodes that its trees have. -/
lemma mem_postorderList {u : Tree} {ts : List Tree} :
    u ∈ postorderList ts ↔ ∃ t ∈ ts, u ∈ t.postorder := by
  induction ts with
  | nil => simp [postorderList]
  | cons t ts ih => simp [postorderList, ih]

/-- A tree is well formed if none of its nodes has a wrong child count. -/
lemma wellFormed_iff_postorder {t : Tree} : t.WellFormed ↔ ∀ u ∈ t.postorder, ¬u.Miscounted := by
  induction t using Tree.induct with
  | node tag text children ih =>
    have hchildren : (∀ c ∈ children, c.WellFormed) ↔
        ∀ u ∈ postorderList children, ¬u.Miscounted := by
      constructor
      · intro h u hu
        obtain ⟨c, hc, hu⟩ := mem_postorderList.mp hu
        exact (ih c hc).mp (h c hc) u hu
      · intro h c hc
        exact (ih c hc).mpr fun u hu => h u (mem_postorderList.mpr ⟨c, hc, hu⟩)
    have hroot : ¬(node tag text children).Miscounted ↔ tag.Admits children.length :=
      Decidable.not_not
    rw [wellFormed_node, hchildren, ← hroot, postorder, List.forall_mem_append,
      List.forall_mem_singleton, and_comm]

/-! ## Checking child counts -/

/-- Checks the child counts of some nodes one after the other. -/
def checkAll : List Tree → Except TreeError Unit
  | [] => .ok ()
  | t :: ts => do
    let _ ← checked t.tag t.text t.children
    checkAll ts

/-- Checking nodes and then others is checking all of them. -/
lemma checkAll_append (ss ts : List Tree) :
    checkAll (ss ++ ts) = (do checkAll ss; checkAll ts) := by
  induction ss with
  | nil => rfl
  | cons s ss ih => rw [List.cons_append, checkAll, checkAll, ih, bind_assoc]

/-- A node whose child count is allowed passes the check. -/
lemma checked_of_not_miscounted {t : Tree} (h : ¬t.Miscounted) :
    checked t.tag t.text t.children = .ok t := by
  obtain ⟨tag, text, children⟩ := t
  have hadmits : tag.Admits children.length := Decidable.not_not.mp h
  change checked tag text children = _
  rw [checked]
  split
  · rfl
  · rename_i demand harity
    rw [if_pos (hadmits demand harity)]

/-- A node whose child count is not allowed fails the check. -/
lemma checked_of_miscounted {t : Tree} (h : t.Miscounted) :
    ∃ demand, t.tag.arity? = some demand ∧
      checked t.tag t.text t.children = .error (.childCount t.tag demand t.children.length) := by
  obtain ⟨demand, hdemand⟩ := Classical.not_forall.mp h
  obtain ⟨harity, hallows⟩ := Classical.not_imp.mp hdemand
  refine ⟨demand, harity, ?_⟩
  rw [checked, harity]
  exact if_neg hallows

/-- Nodes without a wrong child count pass the check. -/
lemma checkAll_of_forall {ts : List Tree} (h : ∀ t ∈ ts, ¬t.Miscounted) : checkAll ts = .ok () := by
  induction ts with
  | nil => rfl
  | cons t ts ih =>
    obtain ⟨hhead, htail⟩ := List.forall_mem_cons.mp h
    rw [checkAll, checked_of_not_miscounted hhead]
    exact ih htail

/-- The check fails at the first node that has a wrong child count. -/
lemma checkAll_of_find? {ts : List Tree} {u : Tree}
    (h : ts.find? (fun t => t.Miscounted) = some u) :
    ∃ demand, u.tag.arity? = some demand ∧
      checkAll ts = .error (.childCount u.tag demand u.children.length) := by
  induction ts with
  | nil => exact nomatch h
  | cons t ts ih =>
    by_cases ht : t.Miscounted
    · rw [List.find?_cons_of_pos (by simpa using ht)] at h
      obtain rfl := Option.some.inj h
      obtain ⟨demand, harity, hchecked⟩ := checked_of_miscounted ht
      exact ⟨demand, harity, by rw [checkAll, hchecked]; rfl⟩
    · rw [List.find?_cons_of_neg (by simpa using ht)] at h
      obtain ⟨demand, harity, hrest⟩ := ih h
      exact ⟨demand, harity, by rw [checkAll, checked_of_not_miscounted ht]; exact hrest⟩

/-! ## Reading back -/

/-- The written tag is read back. -/
lemma tagOf_headMembers (tag : Tag) (text : String) :
    tagOf (Json.lookup? "tag" (headMembers tag text)) = .ok tag := by
  by_cases htext : text = "" <;> simp [headMembers, htext, Json.lookup?_cons, tagOf]

/-- The written text is read back, and an empty text by its absence. -/
lemma textOf_headMembers (tag : Tag) (text : String) :
    textOf (Json.lookup? "text" (headMembers tag text)) = .ok text := by
  by_cases htext : text = "" <;> simp [headMembers, htext, Json.lookup?_cons, textOf]

/-- The members for tag and text have no children among them. -/
lemma lookup?_children_headMembers (tag : Tag) (text : String) :
    Json.lookup? "children" (headMembers tag text) = none := by
  by_cases htext : text = "" <;> simp [headMembers, htext, Json.lookup?_cons]

/-- The document of a node is read by reading the documents of its children and checking their
count. -/
lemma ofJson_toJson_node (tag : Tag) (text : String) (children : List Tree) :
    ofJson (node tag text children).toJson =
      (do let ts ← ofJsonList (toJsonList children); checked tag text ts) := by
  cases children with
  | nil =>
    rw [toJson, ofJson, tagOf_headMembers, textOf_headMembers, childrenOf_eq,
      lookup?_children_headMembers]
    rfl
  | cons c cs =>
    rw [toJson, ofJson, childrenOf_eq, Json.lookup?_cons, Json.lookup?_cons, Json.lookup?_cons,
      if_neg (by decide), if_neg (by decide), if_pos rfl, Option.or_none, Option.or_none,
      tagOf_headMembers, textOf_headMembers, lookup?_children_headMembers]
    rfl

/-- Checking the child count of a node is checking the list of this node. -/
lemma checked_eq_checkAll (tag : Tag) (text : String) (children : List Tree) :
    checked tag text children =
      (do checkAll [node tag text children]; return node tag text children) := by
  rw [checkAll]
  by_cases hcount : (node tag text children).Miscounted
  · obtain ⟨demand, -, hchecked⟩ := checked_of_miscounted hcount
    rw [hchecked]
    exact hchecked
  · have hchecked := checked_of_not_miscounted hcount
    rw [hchecked]
    exact hchecked

mutual

/-- Reading the document of a tree is checking its nodes in post-order. -/
theorem ofJson_toJson_eq_checkAll (t : Tree) :
    ofJson t.toJson = (do checkAll t.postorder; return t) := by
  obtain ⟨tag, text, children⟩ := t
  rw [ofJson_toJson_node, ofJsonList_toJsonList_eq_checkAll children, postorder, checkAll_append]
  simp only [bind_assoc, pure_bind, checked_eq_checkAll tag text children]

/-- Reading the documents of a list of trees is checking their nodes tree by tree. -/
theorem ofJsonList_toJsonList_eq_checkAll (ts : List Tree) :
    ofJsonList (toJsonList ts) = (do checkAll (postorderList ts); return ts) := by
  match ts with
  | [] => rfl
  | t :: ts =>
    rw [toJsonList, ofJsonList, ofJson_toJson_eq_checkAll t, ofJsonList_toJsonList_eq_checkAll ts,
      postorderList, checkAll_append]
    simp only [bind_assoc, pure_bind]

end

/-- A well-formed tree is read back as it is. -/
lemma ofJson_toJson_of_wellFormed {t : Tree} (h : t.WellFormed) : ofJson t.toJson = .ok t := by
  rw [ofJson_toJson_eq_checkAll, checkAll_of_forall (wellFormed_iff_postorder.mp h)]
  rfl

/-- A tree that is written as a document and read back is the same tree exactly if it is well
formed.  If it is not, its first node in post-order that has a wrong child count is reported, with
the tag of this node, the demand of the tag and the number of children that the node has. -/
theorem ofJson_toJson (t : Tree) :
    (t.WellFormed ↔ ofJson t.toJson = .ok t) ∧
      (¬t.WellFormed ↔ ∃ u demand, t.postorder.find? (fun u => u.Miscounted) = some u ∧
        u.tag.arity? = some demand ∧
        ofJson t.toJson = .error (.childCount u.tag demand u.children.length)) := by
  rw [ofJson_toJson_eq_checkAll, wellFormed_iff_postorder]
  rcases hfind : t.postorder.find? (fun u => u.Miscounted) with _ | u
  · have hcounts : ∀ u ∈ t.postorder, ¬u.Miscounted := by simpa using hfind
    have hread : (do checkAll t.postorder; return t) = .ok t := by
      rw [checkAll_of_forall hcounts]
      rfl
    refine ⟨⟨fun _ => hread, fun _ => hcounts⟩, ⟨fun h => absurd hcounts h, ?_⟩⟩
    rintro ⟨u, _, hu, -⟩
    exact nomatch hfind.symm.trans hu
  · obtain ⟨demand, harity, herror⟩ := checkAll_of_find? hfind
    have hcounts : ¬∀ u ∈ t.postorder, ¬u.Miscounted := by
      intro h
      have hu : u.Miscounted := by simpa using List.find?_some hfind
      exact h u (List.mem_of_find?_eq_some hfind) hu
    rw [herror]
    refine ⟨⟨fun h => absurd h hcounts, fun h => nomatch h⟩, ⟨fun _ => ?_, fun _ => hcounts⟩⟩
    exact ⟨u, demand, hfind, harity, rfl⟩

/-- The negation in the second operand is reported before the conjunction around it. -/
example :
    ofJson (toJson (branch (.connective .and) [column "a", branch .negation [], column "b"])) =
      .error (.childCount .negation ⟨1, 1⟩ 0) := by
  rfl

end Tree

end WhereClause
