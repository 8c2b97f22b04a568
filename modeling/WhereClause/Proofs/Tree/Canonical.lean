import WhereClause.Proofs.Tree.RoundTrip

/-!
# Canonical tree documents

A tree can be written as a document in many ways: in any order of the members, with further members,
with the tag in any case of its letters, and with an empty text or empty children as they are, as
`null` or not at all.  `Json.canonical` chooses one document among these without reading it as a
tree, and `Json.DenotesTree` says which documents there are.

Reading a document and writing the tree again makes it canonical, and two documents denote the same
tree exactly if they have the same canonical form (`Tree.toJson_ofJson`).
-/

namespace WhereClause

/-! ## Letter case -/

/-- A letter that is made small is the same in capital letters. -/
lemma toUpper_toLower (c : Char) : c.toLower.toUpper = c.toUpper := by
  unfold Char.toLower
  split
  · rename_i hcapital
    have hsmall : 'a'.val ≤ c.val + ('a'.val - 'A'.val) ∧
        c.val + ('a'.val - 'A'.val) ≤ 'z'.val := by grind
    have hback : c.val + ('a'.val - 'A'.val) + ('A'.val - 'a'.val) = c.val := by grind
    have hkept : c.toUpper = c := dif_neg (by grind)
    rw [hkept]
    exact (dif_pos hsmall).trans (Char.ext hback)
  · rfl

/-- Two words that differ at most in the case of their letters are the same in capital letters. -/
lemma toUpper_eq_of_foldCase_eq {v w : String} (h : foldCase v = foldCase w) :
    v.toUpper = w.toUpper := by
  have hupper (word : String) : word.toUpper.toList = (foldCase word).map Char.toUpper := by
    rw [String.toUpper, String.toList_map, foldCase, List.map_map]
    exact List.map_congr_left fun c _ => (toUpper_toLower c).symm
  exact String.toList_injective (by rw [hupper, hupper, h])

/-- The names of tags are written in capital letters. -/
lemma Tag.toUpper_grammarName (t : Tag) : t.grammarName.toUpper = t.grammarName := by
  have key : ∀ t ∈ all, t.grammarName.toUpper = t.grammarName := by decide +kernel
  exact key t (mem_all t)

/-! ## Canonical documents -/

namespace Json

/-- The member for the tag in capital letters. -/
def canonicalTag : Option Json → List (String × Json)
  | none => []
  | some (.string name) => [("tag", .string name.toUpper)]
  | some v => [("tag", v)]

/-- The member for a text, if there is one and it is not empty. -/
def canonicalText : Option Json → List (String × Json)
  | some (.string text) => if text = "" then [] else [("text", .string text)]
  | _ => []

/-- The member for the documents of some children, if there are any. -/
def childrenMember : List Json → List (String × Json)
  | [] => []
  | v :: vs => [("children", .array (v :: vs))]

mutual

/-- The canonical form of a document: of the members of an object only those for the children, the
tag and the text remain, in this order, and the children have their canonical form. -/
def canonical : Json → Json
  | .object members =>
    .object (canonicalChildren members ++
      (canonicalTag (lookup? "tag" members) ++ canonicalText (lookup? "text" members)))
  | v => v

/-- The member for the children, given the members of the object, of which the last one named so
counts. -/
def canonicalChildren : List (String × Json) → List (String × Json)
  | [] => []
  | (k, v) :: ms =>
    if k = "children" ∧ (lookup? "children" ms).isNone then canonicalItems v
    else canonicalChildren ms

/-- The member for the items of an array, if the value is an array and is not empty. -/
def canonicalItems : Json → List (String × Json)
  | .array (v :: vs) => [("children", .array (canonical v :: canonicalList vs))]
  | _ => []

/-- The canonical forms of the documents of a list. -/
def canonicalList : List Json → List Json
  | [] => []
  | v :: vs => canonical v :: canonicalList vs

end

/-- The canonical forms of the documents of a list are those of its documents. -/
lemma canonicalList_eq_map (vs : List Json) : canonicalList vs = vs.map canonical := by
  induction vs with
  | nil => rfl
  | cons v vs ih => rw [canonicalList, ih, List.map_cons]

/-- The member for the children depends only on the member that looking up their name finds. -/
lemma canonicalChildren_eq (members : List (String × Json)) :
    canonicalChildren members = (lookup? "children" members).elim [] canonicalItems := by
  induction members with
  | nil => rfl
  | cons m ms ih =>
    obtain ⟨k, v⟩ := m
    rw [canonicalChildren, ih, lookup?_cons]
    rcases lookup? "children" ms with _ | w
    · by_cases hk : k = "children" <;> simp [hk]
    · simp

/-! ## Documents of trees -/

/-- The items of an array that may be missing or `null`. -/
def items? : Option Json → Option (List Json)
  | none | some .null => some []
  | some (.array items) => some items
  | some _ => none

/-- No item of an array nests deeper than the items together. -/
lemma nesting_le_nestingItems {item : Json} {items : List Json} (h : item ∈ items) :
    item.nesting ≤ nestingItems items := by
  induction items with
  | nil => exact absurd h List.not_mem_nil
  | cons v vs ih =>
    rw [nestingItems]
    rcases List.mem_cons.mp h with rfl | h
    · omega
    · have := ih h
      omega

/-- The value of a member does not nest deeper than the members together. -/
lemma nesting_le_nestingMembers {name : String} {v : Json} {members : List (String × Json)}
    (h : lookup? name members = some v) : v.nesting ≤ nestingMembers members := by
  induction members with
  | nil => cases h
  | cons m ms ih =>
    obtain ⟨k, w⟩ := m
    rw [lookup?_cons, Option.or_eq_some_iff] at h
    rw [nestingMembers]
    rcases h with h | ⟨-, h⟩
    · have := ih h
      omega
    · split at h
      · obtain rfl := Option.some.inj h
        omega
      · cases h

/-- The items of a member lie two levels deeper than the object around it. -/
lemma nesting_add_two_le_of_items? {name : String} {members : List (String × Json)}
    {items : List Json} {item : Json} (hitems : items? (lookup? name members) = some items)
    (hitem : item ∈ items) : item.nesting + 2 ≤ (object members).nesting := by
  rcases hvalue : lookup? name members with _ | value
  · rw [hvalue] at hitems
    obtain rfl := Option.some.inj hitems
    exact absurd hitem List.not_mem_nil
  · rw [hvalue] at hitems
    have hmember := nesting_le_nestingMembers hvalue
    cases value with
    | null =>
      obtain rfl := Option.some.inj hitems
      exact absurd hitem List.not_mem_nil
    | array values =>
      obtain rfl := Option.some.inj hitems
      have := nesting_le_nestingItems hitem
      simp only [nesting] at hmember ⊢
      omega
    | _ => cases hitems

/-- The member for the children is canonical when its items are. -/
lemma canonicalChildren_of_items? {members : List (String × Json)} {items : List Json}
    (h : items? (lookup? "children" members) = some items) :
    canonicalChildren members = childrenMember (items.map canonical) := by
  rw [canonicalChildren_eq]
  generalize lookup? "children" members = found at h ⊢
  rcases found with _ | value
  · obtain rfl := Option.some.inj h
    rfl
  · cases value with
    | null =>
      obtain rfl := Option.some.inj h
      rfl
    | array values =>
      obtain rfl := Option.some.inj h
      cases values with
      | nil => rfl
      | cons v vs => simp [canonicalItems, childrenMember, canonicalList_eq_map]
    | _ => cases h

/-- The value is a text, or missing, or `null`. -/
def IsOptionalText : Option Json → Prop
  | none | some .null | some (.string _) => True
  | some _ => False

/-- The document denotes a tree: it is an object whose tag is the name of a tag in any case of its
letters, whose text is a string, missing or `null`, whose children are an array of documents that
denote trees, missing or `null`, and as many as the tag allows. -/
inductive DenotesTree : Json → Prop
  | object {members : List (String × Json)} {name : String} {tag : Tag} {items : List Json} :
      lookup? "tag" members = some (.string name) → foldCase name = foldCase tag.grammarName →
      IsOptionalText (lookup? "text" members) →
      items? (lookup? "children" members) = some items → (∀ item ∈ items, DenotesTree item) →
      tag.Admits items.length → DenotesTree (.object members)

end Json

namespace Tree

/-! ## Reading the members -/

/-- A tag is read from its name in any case of the letters, and from nothing else. -/
lemma tagOf_eq_ok_iff {value : Option Json} {tag : Tag} :
    tagOf value = .ok tag ↔
      ∃ name, value = some (.string name) ∧ foldCase name = foldCase tag.grammarName := by
  rcases value with _ | value
  · simp [tagOf]
  · cases value with
    | string name =>
      have hname : (∃ n, some (Json.string name) = some (.string n) ∧
          foldCase n = foldCase tag.grammarName) ↔ Tag.ofName? name = some tag := by
        rw [Tag.ofName?_eq_some_iff]
        simp
      rw [hname, tagOf]
      rcases Tag.ofName? name with _ | tag' <;> simp
    | _ => simp [tagOf]

/-- A text is read from a text, and an empty text from a missing one and from `null`. -/
lemma exists_textOf_eq_ok_iff {value : Option Json} :
    (∃ text, textOf value = .ok text) ↔ Json.IsOptionalText value := by
  rcases value with _ | value
  · simp [textOf, Json.IsOptionalText]
  · cases value <;> simp [textOf, Json.IsOptionalText]

/-- Reading the children is reading the items of the array that is there. -/
lemma childrenOf_eq_ok_iff {members : List (String × Json)} {ts : List Tree} :
    childrenOf members = .ok ts ↔
      ∃ items, Json.items? (Json.lookup? "children" members) = some items ∧
        ofJsonList items = .ok ts := by
  rw [childrenOf_eq]
  rcases Json.lookup? "children" members with _ | value
  · simp [Json.items?, ofJsonList]
  · cases value <;> simp [Json.items?, ofItems, ofJsonList]

/-- Documents are read as a list by reading one after the other. -/
lemma ofJsonList_eq_mapM (vs : List Json) : ofJsonList vs = vs.mapM ofJson := by
  induction vs with
  | nil => rfl
  | cons v vs ih => rw [ofJsonList, List.mapM_cons, ih]

/-- The trees of the documents of a list are those of its documents. -/
lemma ofJsonList_eq_ok_iff {vs : List Json} {ts : List Tree} :
    ofJsonList vs = .ok ts ↔ List.Forall₂ (fun v t => ofJson v = .ok t) vs ts := by
  rw [ofJsonList_eq_mapM]
  exact mapM_eq_ok_iff

/-- A node whose tag allows the number of its children passes the check. -/
lemma checked_of_admits {tag : Tag} {children : List Tree} (h : tag.Admits children.length)
    (text : String) : checked tag text children = .ok (node tag text children) :=
  checked_of_not_miscounted (t := node tag text children) (Decidable.not_not.mpr h)

/-- An object is read if its tag, its text and its children are and the tag allows the number of the
children. -/
lemma ofJson_object_eq_ok_iff {members : List (String × Json)} {t : Tree} :
    ofJson (.object members) = .ok t ↔
      ∃ tag text children, tagOf (Json.lookup? "tag" members) = .ok tag ∧
        textOf (Json.lookup? "text" members) = .ok text ∧ childrenOf members = .ok children ∧
        tag.Admits children.length ∧ t = node tag text children := by
  rw [ofJson]
  constructor
  · intro h
    obtain ⟨tag, htag, h⟩ := exists_of_bind_eq_ok h
    obtain ⟨text, htext, h⟩ := exists_of_bind_eq_ok h
    obtain ⟨children, hchildren, h⟩ := exists_of_bind_eq_ok h
    obtain ⟨hadmits, rfl⟩ := checked_eq_ok h
    exact ⟨tag, text, children, htag, htext, hchildren, hadmits, rfl⟩
  · rintro ⟨tag, text, children, htag, htext, hchildren, hadmits, rfl⟩
    rw [htag, htext, hchildren]
    exact checked_of_admits hadmits text

/-! ## Which documents are read -/

/-- A document that is read denotes a tree. -/
theorem denotesTree_of_ofJson {v : Json} {t : Tree} (h : ofJson v = .ok t) : v.DenotesTree := by
  match v, h with
  | .object members, h =>
    obtain ⟨tag, text, children, htag, htext, hchildren, hadmits, rfl⟩ :=
      ofJson_object_eq_ok_iff.mp h
    obtain ⟨name, hname, hcase⟩ := tagOf_eq_ok_iff.mp htag
    obtain ⟨items, hitems, hread⟩ := childrenOf_eq_ok_iff.mp hchildren
    rw [ofJsonList_eq_mapM] at hread
    rw [← (mapM_eq_ok_iff.mp hread).length_eq] at hadmits
    refine .object hname hcase (exists_textOf_eq_ok_iff.mp ⟨text, htext⟩) hitems ?_ hadmits
    intro item hitem
    obtain ⟨c, hc⟩ := exists_of_mapM_eq_ok hread item hitem
    have hnesting := Json.nesting_add_two_le_of_items? hitems hitem
    exact denotesTree_of_ofJson hc
termination_by v.nesting
decreasing_by omega

/-- A document that denotes a tree is read. -/
theorem exists_ofJson_of_denotesTree {v : Json} (h : v.DenotesTree) : ∃ t, ofJson v = .ok t := by
  induction h with
  | @object members name tag items hname hcase htext hitems _ hadmits ih =>
    obtain ⟨text, htext⟩ := exists_textOf_eq_ok_iff.mpr htext
    have : Nonempty Tree := ⟨branch .clause []⟩
    choose! read hread using ih
    have hchildren : ofJsonList items = .ok (items.map read) := by
      refine ofJsonList_eq_ok_iff.mpr (List.forall₂_map_right_iff.mpr ?_)
      exact List.forall₂_same.mpr hread
    rw [← List.length_map read] at hadmits
    exact ⟨_, ofJson_object_eq_ok_iff.mpr ⟨tag, text, _, tagOf_eq_ok_iff.mpr ⟨name, hname, hcase⟩,
      htext, childrenOf_eq_ok_iff.mpr ⟨items, hitems, hchildren⟩, hadmits, rfl⟩⟩

/-! ## Writing what was read -/

/-- The members for the tag and the text of a tree that is read are canonical. -/
lemma headMembers_eq_canonical {name : String} {tag : Tag}
    (hcase : foldCase name = foldCase tag.grammarName) {value : Option Json} {text : String}
    (htext : textOf value = .ok text) :
    headMembers tag text =
      Json.canonicalTag (some (.string name)) ++ Json.canonicalText value := by
  rw [headMembers, Json.canonicalTag, toUpper_eq_of_foldCase_eq hcase, Tag.toUpper_grammarName,
    List.singleton_append]
  congr 1
  rcases value with _ | value
  · obtain rfl := Except.ok.inj htext
    rfl
  · cases value with
    | null =>
      obtain rfl := Except.ok.inj htext
      rfl
    | string s =>
      obtain rfl := Except.ok.inj htext
      rfl
    | _ => cases htext

/-- The document of a node has a member for the children, if there are any, and then those for the
tag and the text. -/
lemma toJson_node (tag : Tag) (text : String) (children : List Tree) :
    (node tag text children).toJson =
      .object (Json.childrenMember (children.map toJson) ++ headMembers tag text) := by
  cases children with
  | nil => rfl
  | cons c cs => rw [toJson, toJsonList_eq_map]; rfl

/-- Writing a tree that was read gives the canonical form of its document. -/
theorem toJson_eq_canonical {v : Json} (h : v.DenotesTree) {t : Tree} (ht : ofJson v = .ok t) :
    t.toJson = v.canonical := by
  induction h generalizing t with
  | @object members name tag items hname hcase _ hitems _ _ ih =>
    obtain ⟨tag', text, children, htag, htext, hchildren, -, rfl⟩ := ofJson_object_eq_ok_iff.mp ht
    obtain ⟨name', hname', hcase'⟩ := tagOf_eq_ok_iff.mp htag
    obtain ⟨items', hitems', hread⟩ := childrenOf_eq_ok_iff.mp hchildren
    obtain rfl := Option.some.inj (hitems.symm.trans hitems')
    have hmembers : items.map Json.canonical = children.map toJson := by
      have hread' := (List.forall₂_and_left _ _).mpr ⟨ih, ofJsonList_eq_ok_iff.mp hread⟩
      rw [← List.forall₂_eq_eq_eq, List.forall₂_map_left_iff, List.forall₂_map_right_iff]
      exact hread'.imp fun item c hc => (hc.1 hc.2).symm
    rw [toJson_node, ← hmembers, Json.canonical, Json.canonicalChildren_of_items? hitems, hname',
      headMembers_eq_canonical hcase' htext]

/-- Reading documents and writing the trees again makes the documents canonical and nothing else.
The canonical form of a document that is read is the document of its tree and is read as the same
tree, so two documents that are read give the same tree exactly if they have the same canonical
form; and the documents that are read are those that denote a tree. -/
theorem toJson_ofJson :
    (∀ v t, ofJson v = .ok t → t.toJson = v.canonical ∧ ofJson v.canonical = .ok t) ∧
      (∀ v w t u, ofJson v = .ok t → ofJson w = .ok u → (t = u ↔ v.canonical = w.canonical)) ∧
      ∀ v, (∃ t, ofJson v = .ok t) ↔ v.DenotesTree := by
  have hwrite {v : Json} {t : Tree} (h : ofJson v = .ok t) : t.toJson = v.canonical :=
    toJson_eq_canonical (denotesTree_of_ofJson h) h
  have hread {v : Json} {t : Tree} (h : ofJson v = .ok t) : ofJson v.canonical = .ok t := by
    rw [← hwrite h]
    exact ofJson_toJson_of_wellFormed (wellFormed_of_ofJson h)
  refine ⟨fun v t h => ⟨hwrite h, hread h⟩, fun v w t u ht hu => ⟨?_, ?_⟩, fun v => ⟨?_, ?_⟩⟩
  · rintro rfl
    exact (hwrite ht).symm.trans (hwrite hu)
  · intro h
    have hboth := hread ht
    rw [h, hread hu] at hboth
    exact (Except.ok.inj hboth).symm
  · rintro ⟨t, h⟩
    exact denotesTree_of_ofJson h
  · exact exists_ofJson_of_denotesTree

/-- A further member, a `null` text, small letters and another order of the members make no
difference. -/
theorem toJson_ofJson_of_further_member :
    let v : Json := .object [("tag", .string "not"), ("note", .boolean true),
      ("children", .array [.object [("text", .null), ("tag", .string "Col")]])]
    let w : Json := .object [("children", .array [.object [("tag", .string "COL")]]),
      ("text", .string ""), ("tag", .string "NOT")]
    let t := branch .negation [column ""]
    ofJson v = .ok t ∧ ofJson w = .ok t ∧ v.canonical = w.canonical ∧ t.toJson = v.canonical ∧
      ofJson v.canonical = .ok t ∧ v.DenotesTree := by
  intro v w t
  have hv : ofJson v = .ok t := by rfl
  have hw : ofJson w = .ok t := by rfl
  obtain ⟨hwrite, hequal, hdenotes⟩ := toJson_ofJson
  obtain ⟨htext, hback⟩ := hwrite v t hv
  exact ⟨hv, hw, (hequal v w t t hv hw).mp rfl, htext, hback, (hdenotes v).mp ⟨t, hv⟩⟩

end Tree

end WhereClause
