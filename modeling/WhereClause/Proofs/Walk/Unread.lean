import WhereClause.Proofs.Walk.Related

/-!
# Children that are not read

A node may have more children than its operator has operands, and a name or a literal may have
children at all.  Nobody reads them: a walk does not go down to them, a recorder describes operands
by their text and tag, and the writer of clause text looks at the children of an operand only if it
is a list.

`Tree.ReadAlike` relates trees that differ in such children at most, at any number of nodes and at
any depth, and `walk_eq_of_readAlike` says that their walks are the same.
-/

namespace WhereClause

namespace Tree

/-! ## Trees that are read alike -/

/-- The children of a node that are read: those that a visit goes down to, and the items of a list,
if the handler looks at items. -/
def readChildren (items : Bool) (tag : Tag) (children : List Tree) : List Tree :=
  if tag = .list ∧ items = true then children else children.take tag.reach

/-- The trees have the same tags and texts wherever they are read, and may differ in all other
children: these may be missing in one of the trees, or be replaced by any others. -/
inductive ReadAlike (items : Bool) : Tree → Tree → Prop
  | node {tag : Tag} {text : String} {cs ds : List Tree} :
      List.Forall₂ (ReadAlike items) (readChildren items tag cs) (readChildren items tag ds) →
      ReadAlike items (node tag text cs) (node tag text ds)

namespace ReadAlike

variable {items : Bool} {s t : Tree}

/-- A tree is read like itself. -/
lemma refl (items : Bool) (t : Tree) : ReadAlike items t t := by
  induction t using Tree.induct with
  | node tag text children ih =>
    refine .node (List.forall₂_same.mpr fun c hc => ih c ?_)
    unfold readChildren at hc
    split at hc
    · exact hc
    · exact List.mem_of_mem_take hc

/-- Nodes that differ in children that are not read are read alike. -/
lemma of_readChildren_eq {tag : Tag} {text : String} {cs ds : List Tree}
    (h : readChildren items tag cs = readChildren items tag ds) :
    ReadAlike items (Tree.node tag text cs) (Tree.node tag text ds) := by
  refine .node ?_
  rw [h]
  exact List.forall₂_same.mpr fun d _ => .refl items d

/-- Trees that are read alike have the same tag. -/
lemma tag_eq (h : ReadAlike items s t) : s.tag = t.tag := by
  cases h
  rfl

/-- Trees that are read alike have the same text. -/
lemma text_eq (h : ReadAlike items s t) : s.text = t.text := by
  cases h
  rfl

/-- Trees that are read alike are described alike. -/
lemma description_eq (h : ReadAlike items s t) : s.description = t.description := by
  rw [description, description, h.tag_eq, h.text_eq]

/-- Trees that are read alike are visited alike. -/
lemma relatesVisits (items : Bool) : RelatesVisits (ReadAlike items) := by
  intro s t h
  refine ⟨h.tag_eq, ?_⟩
  cases h with
  | @node tag text cs ds h =>
    unfold readChildren at h
    split at h
    · rename_i hlist
      obtain rfl := hlist.1
      exact .nil
    · exact h

end ReadAlike

end Tree

namespace Rendering

/-- What is written for a literal depends on its tag and its text only. -/
lemma literalText_congr {s t : Tree} (htag : s.tag = t.tag) (htext : s.text = t.text) :
    literalText s = literalText t := by
  obtain ⟨tag, text, cs⟩ := s
  obtain ⟨tag', text', ds⟩ := t
  obtain rfl : tag = tag' := htag
  obtain rfl : text = text' := htext
  cases tag <;> rfl

/-- Lists of items that are read alike are written alike. -/
lemma listText_congr {items : Bool} {cs ds : List Tree}
    (h : List.Forall₂ (Tree.ReadAlike items) cs ds) : listText cs = listText ds := by
  have hitems : cs.mapM literalText = ds.mapM literalText := by
    induction h with
    | nil => rfl
    | cons h _ ih =>
      rw [List.mapM_cons, List.mapM_cons, literalText_congr h.tag_eq h.text_eq, ih]
  rw [listText, listText, hitems]

/-- Operands that are read alike, down to the items of lists, are written alike. -/
lemma operandText_of_readAlike {s t : Tree} (h : Tree.ReadAlike true s t) :
    operandText s = operandText t := by
  have htag := h.tag_eq
  have htext := h.text_eq
  cases h with
  | @node tag text cs ds h =>
    cases tag with
    | list => exact listText_congr h
    | literal kind => exact literalText_congr htag htext
    | _ => rfl

end Rendering

/-! ## Walks -/

/-- Children that are not read do not matter.  Let two trees be the same up to the third and later
children of operators between two operands and of functions, the second and later children of
negations and null tests, and all children of clause markers, scores, literals and names, with
whatever there is at these places in either tree, and up to the items of lists unless these are
read.  Then walks through the two trees, with the same limit and from the same state, end alike,
whether with a success, an error or a defect:

* recorders that refuse the same hook, if any, record the same events;
* the writer of clause text, which does read the items of lists, leaves the same text behind. -/
theorem walk_eq_of_readAlike {items : Bool} {s t : Tree} (h : Tree.ReadAlike items s t)
    (limit : Option Nat) :
    (∀ (refused : Option Hook) (earlier : Trace),
      (walk (Trace.record refused) limit (some s)).runFrom earlier =
        (walk (Trace.record refused) limit (some t)).runFrom earlier) ∧
    (items = true → ∀ written : String,
      (walk Rendering.render limit (some s)).runFrom written =
        (walk Rendering.render limit (some t)).runFrom written) := by
  have hvisits := Tree.ReadAlike.relatesVisits items
  constructor
  · intro refused earlier
    have hrecord : ∀ c d, Call.Related (Tree.ReadAlike items) c d →
        Trace.record refused c = Trace.record refused d :=
      fun c d hcd => Trace.record_congr (fun _ _ => Tree.ReadAlike.description_eq) hcd refused
    rw [Walk.walk_congr hvisits hrecord limit h]
  · rintro rfl written
    have hrender : ∀ c d, Call.Related (Tree.ReadAlike true) c d →
        Rendering.render c = Rendering.render d := by
      intro c d hcd
      refine Rendering.render_congr (fun _ _ => Rendering.operandText_of_readAlike) ?_ hcd
      intro s t hst
      rw [Rendering.IsGrouped, Rendering.IsGrouped, hst.tag_eq]
    rw [Walk.walk_congr hvisits hrender limit h]

/-- A clause with children that nobody reads, also below a name and below an item of a list, is
recorded and written as the clause without them.  With other items in its list it is still recorded
alike, here by a recorder that refuses the end of the walk. -/
theorem walk_eq_of_readAlike_of_clutter :
    let clause (items : List Tree) : Tree := .branch (.connective .and)
      [.branch (.binary .inList) [.column "a", .list items],
        .branch .negation [.branch (.nullTest .isNull) [.column "b"]]]
    let cluttered : Tree := .branch (.connective .and)
      [.branch (.binary .inList)
          [.node (.name .column) "a" [.branch .score []],
            .list [.node (.literal .number) "1" [.column "x"]], .literal .number "7x"],
        .branch .negation
          [.branch (.nullTest .isNull) [.column "b", .branch .negation []], .column "c"],
        .branch .negation []]
    let recorded (refused : Option Hook) (t : Tree) :=
      (walk (Trace.record refused) none (some t)).runFrom #[]
    let written (t : Tree) := (walk Rendering.render none (some t)).runFrom ""
    Tree.ReadAlike true cluttered (clause [.literal .number "1"]) ∧
      recorded none cluttered = recorded none (clause [.literal .number "1"]) ∧
      written cluttered = written (clause [.literal .number "1"]) ∧
      written cluttered = (.ok (), "(a IN (1) AND NOT (b IS NULL))") ∧
      Tree.ReadAlike false cluttered (clause []) ∧
      recorded (some .stop) cluttered = recorded (some .stop) (clause []) ∧
      (recorded (some .stop) cluttered).1 = .error (.error (.rejected (.hook .stop))) ∧
      written cluttered ≠ written (clause []) := by
  intro clause cluttered recorded written
  have hoperand (items : Bool) :
      Tree.ReadAlike items (.node (.name .column) "a" [.branch .score []]) (.column "a") :=
    .of_readChildren_eq rfl
  have hitem : Tree.ReadAlike true (.node (.literal .number) "1" [.column "x"])
      (.literal .number "1") :=
    .of_readChildren_eq rfl
  have htest (items : Bool) : Tree.ReadAlike items
      (.branch (.nullTest .isNull) [.column "b", .branch .negation []])
      (.branch (.nullTest .isNull) [.column "b"]) :=
    .of_readChildren_eq rfl
  have hitems : Tree.ReadAlike true cluttered (clause [.literal .number "1"]) :=
    .node (.cons (.node (.cons (hoperand true) (.cons (.node (.cons hitem .nil)) .nil)))
      (.cons (.node (.cons (htest true) .nil)) .nil))
  have hnoItems : Tree.ReadAlike false cluttered (clause []) :=
    .node (.cons (.node (.cons (hoperand false) (.cons (.of_readChildren_eq rfl) .nil)))
      (.cons (.node (.cons (htest false) .nil)) .nil))
  obtain ⟨hrecorded, hwritten⟩ := walk_eq_of_readAlike hitems none
  exact ⟨hitems, hrecorded none #[], hwritten rfl "", by decide +kernel, hnoItems,
    (walk_eq_of_readAlike hnoItems none).1 (some .stop) #[], by decide +kernel, by decide +kernel⟩

end WhereClause
