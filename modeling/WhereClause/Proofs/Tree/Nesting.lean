import WhereClause.Proofs.Json.Reading
import WhereClause.Proofs.Tree.Canonical

/-!
# The depth of a tree and the nesting of its documents

Each level of a tree takes an object in its documents, and each level but the last takes the array
of its children as well.  So a document of a tree of depth `d` nests at least `2 * d - 1` arrays and
objects (`Tree.two_mul_depth_le_of_ofJson`), and more only where it has members that are no part of
the tree: the document that is written for the tree nests exactly so many (`Tree.nesting_toJson`).
-/

namespace WhereClause

namespace Tree

/-- Trees that are not deeper than a bound are together not deeper. -/
lemma depthList_le {ts : List Tree} {n : Nat} (h : ∀ t ∈ ts, t.depth ≤ n) : depthList ts ≤ n := by
  induction ts with
  | nil => exact Nat.zero_le n
  | cons t ts ih =>
    obtain ⟨ht, hts⟩ := List.forall_mem_cons.mp h
    exact Nat.max_le.mpr ⟨ht, ih hts⟩

/-- A tree that is read from items is read from one of them. -/
lemma exists_item_of_ofJsonList_eq_ok {vs : List Json} {ts : List Tree}
    (h : ofJsonList vs = .ok ts) {t : Tree} (ht : t ∈ ts) : ∃ v ∈ vs, ofJson v = .ok t := by
  have hread := ofJsonList_eq_ok_iff.mp h
  clear h
  induction hread with
  | nil => exact absurd ht List.not_mem_nil
  | @cons v u vs ts hv _ ih =>
    rcases List.mem_cons.mp ht with rfl | ht
    · exact ⟨v, List.mem_cons_self, hv⟩
    · obtain ⟨w, hw, hread⟩ := ih ht
      exact ⟨w, List.mem_cons_of_mem v hw, hread⟩

/-- A document nests at least one object for each level of its tree, and an array between them. -/
theorem two_mul_depth_le_of_ofJson {v : Json} {t : Tree} (h : ofJson v = .ok t) :
    2 * t.depth ≤ v.nesting + 1 := by
  have hdenotes := denotesTree_of_ofJson h
  induction hdenotes generalizing t with
  | @object members name tag items _ _ _ hitems _ _ ih =>
    obtain ⟨tag', text, children, -, -, hchildren, -, rfl⟩ := ofJson_object_eq_ok_iff.mp h
    obtain ⟨items', hitems', hread⟩ := childrenOf_eq_ok_iff.mp hchildren
    obtain rfl := Option.some.inj (hitems.symm.trans hitems')
    have hchild : ∀ c ∈ children, c.depth ≤ ((Json.object members).nesting - 1) / 2 := by
      intro c hc
      obtain ⟨item, hitem, hc⟩ := exists_item_of_ofJsonList_eq_ok hread hc
      have hdepth := ih item hitem hc
      have hnesting := Json.nesting_add_two_le_of_items? hitems hitem
      omega
    have hlist := depthList_le hchild
    have hpos : 1 ≤ (Json.object members).nesting := by
      rw [Json.nesting]
      omega
    rw [depth]
    omega

/-- The members for the tag and the text do not nest. -/
lemma nestingMembers_headMembers (tag : Tag) (text : String) :
    Json.nestingMembers (headMembers tag text) = 0 := by
  by_cases htext : text = "" <;> simp [headMembers, htext, Json.nestingMembers, Json.nesting]

/-- The documents of some trees nest together as deep as the deepest tree asks for. -/
lemma nestingItems_map_toJson {ts : List Tree}
    (h : ∀ t ∈ ts, t.toJson.nesting + 1 = 2 * t.depth) :
    Json.nestingItems (ts.map toJson) = 2 * depthList ts - 1 := by
  induction ts with
  | nil => rfl
  | cons t ts ih =>
    obtain ⟨ht, hts⟩ := List.forall_mem_cons.mp h
    rw [List.map_cons, Json.nestingItems, ih hts, depthList]
    omega

/-- Writing a tree nests exactly one object for each of its levels, and an array between them. -/
theorem nesting_toJson (t : Tree) : t.toJson.nesting + 1 = 2 * t.depth := by
  induction t using Tree.induct with
  | node tag text children ih =>
    have hitems := nestingItems_map_toJson ih
    rw [toJson_node, Json.nesting, Json.nestingMembers_append, nestingMembers_headMembers, depth]
    cases children with
    | nil => rfl
    | cons c cs =>
      have hpos : 0 < depthList (c :: cs) := by
        rw [depthList]
        have := c.depth_pos
        omega
      rw [List.map_cons] at hitems ⊢
      simp only [Json.childrenMember, Json.nestingMembers, Json.nesting, hitems]
      omega

/-- There is no number in the document of a tree. -/
theorem numberFree_toJson (t : Tree) : t.toJson.NumberFree := by
  induction t using Tree.induct with
  | node tag text children ih =>
    have hitems : ∀ v ∈ children.map toJson, v.NumberFree := by simpa using ih
    rw [toJson_node]
    refine .object fun m hm => ?_
    rcases List.mem_append.mp hm with hm | hm
    · cases children with
      | nil => exact absurd hm List.not_mem_nil
      | cons c cs =>
        obtain rfl := List.mem_singleton.mp hm
        exact .array hitems
    · by_cases htext : text = ""
      · rw [headMembers, if_pos htext] at hm
        obtain rfl := List.mem_singleton.mp hm
        exact .string _
      · rw [headMembers, if_neg htext] at hm
        rcases List.mem_pair.mp hm with rfl | rfl
        · exact .string _
        · exact .string _

end Tree

end WhereClause
