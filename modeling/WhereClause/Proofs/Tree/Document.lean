import WhereClause.Tree.Document
import WhereClause.Proofs.Sequence

/-!
# Trees from documents

Reading a document checks the child count of every node, so a tree that is read is well formed
(`Tree.wellFormed_of_ofJson`).
-/

namespace WhereClause

namespace Tree

/-- A node that passes the check of its child count has a child count that its tag allows, and is
what was checked. -/
lemma checked_eq_ok {tag : Tag} {text : String} {children : List Tree} {t : Tree}
    (h : checked tag text children = .ok t) :
    tag.Admits children.length ∧ t = node tag text children := by
  unfold checked at h
  split at h
  · rename_i harity
    refine ⟨?_, (Except.ok.inj h).symm⟩
    intro a ha
    rw [harity] at ha
    exact nomatch ha
  · rename_i demand harity
    split at h
    · rename_i hallows
      refine ⟨?_, (Except.ok.inj h).symm⟩
      intro a ha
      obtain rfl : demand = a := Option.some.inj (harity.symm.trans ha)
      exact hallows
    · exact nomatch h

mutual

/-- A tree that is read from a document is well formed. -/
theorem wellFormed_of_ofJson {v : Json} {t : Tree} (h : ofJson v = .ok t) : t.WellFormed := by
  cases v with
  | object members =>
    rw [ofJson] at h
    obtain ⟨tag, -, h⟩ := exists_of_bind_eq_ok h
    obtain ⟨text, -, h⟩ := exists_of_bind_eq_ok h
    obtain ⟨children, hchildren, h⟩ := exists_of_bind_eq_ok h
    obtain ⟨hadmits, rfl⟩ := checked_eq_ok h
    exact .node hadmits (wellFormed_of_childrenOf hchildren)
  | _ => exact nomatch h

/-- The children among the members of a document are well formed. -/
theorem wellFormed_of_childrenOf {members : List (String × Json)} {ts : List Tree}
    (h : childrenOf members = .ok ts) : ∀ t ∈ ts, t.WellFormed := by
  match members with
  | [] =>
    obtain rfl := Except.ok.inj h
    exact fun t ht => nomatch ht
  | (k, v) :: members =>
    rw [childrenOf] at h
    split at h
    · exact wellFormed_of_ofItems h
    · exact wellFormed_of_childrenOf h

/-- The children that a member lists are well formed. -/
theorem wellFormed_of_ofItems {v : Json} {ts : List Tree} (h : ofItems v = .ok ts) :
    ∀ t ∈ ts, t.WellFormed := by
  cases v with
  | null =>
    obtain rfl := Except.ok.inj h
    exact fun t ht => nomatch ht
  | array items => exact wellFormed_of_ofJsonList h
  | _ => exact nomatch h

/-- The trees of a list of documents are well formed. -/
theorem wellFormed_of_ofJsonList {vs : List Json} {ts : List Tree} (h : ofJsonList vs = .ok ts) :
    ∀ t ∈ ts, t.WellFormed := by
  match vs with
  | [] =>
    obtain rfl := Except.ok.inj h
    exact fun t ht => nomatch ht
  | v :: vs =>
    rw [ofJsonList] at h
    obtain ⟨t, hhead, h⟩ := exists_of_bind_eq_ok h
    obtain ⟨rest, htail, h⟩ := exists_of_bind_eq_ok h
    obtain rfl := Except.ok.inj h
    intro u hu
    rcases List.mem_cons.mp hu with rfl | hu
    · exact wellFormed_of_ofJson hhead
    · exact wellFormed_of_ofJsonList htail u hu

end

end Tree

end WhereClause
