import WhereClause.Proofs.Rendering.Operand
import WhereClause.Proofs.Tree.Shape

/-!
# Predicate trees

A predicate tree is a tree of the kind that a parser of clauses builds: connectives and negations of
predicates, and other operators on names, literals and lists of literals (`Tree.IsPredicate`).

Two predicate trees are the same clause (`Tree.SameClause`) if they have the same operators in the
same shape and the same operands.  What does not count is whether a name is that of a column, how a
literal is spelled as long as it is written alike, and texts and children that a walk does not look
at.  `Tree.normal` leaves just this out, so that trees with one normal form are the same clause
(`Tree.sameClause_of_normal_eq`).
-/

namespace WhereClause

/-- The words that clause text has a use for. -/
def Rendering.reservedWords : List String :=
  ["TRUE", "FALSE", "TIMESTAMP", "NOT", "AND", "OR", "IN", "LIKE", "IS", "NULL", "ANY", "CONTAINS",
    "IN_FOLDER", "IN_TREE", "SCORE"]

namespace Tree

/-! ## Predicate trees -/

/-- The tree is a literal with a value, and a string is spelled with quotes around it and every
quote in it doubled. -/
def IsProperLiteral (t : Tree) : Prop :=
  t.HasValue ∧ (t.tag = .literal .string →
    ∃ content, t.text = String.ofList (Quoted.encode Literal.quote content))

/-- The tree is an operand of a predicate: a name that is no reserved word, a proper literal, or a
list of proper literals. -/
def IsPredicateOperand (t : Tree) : Prop :=
  match t.tag with
  | .name _ => t.text ∉ Rendering.reservedWords
  | .literal _ => t.IsProperLiteral
  | .list => ∀ item ∈ t.children, item.IsProperLiteral
  | _ => False

/-- The tree is a predicate: connectives and negations have predicates as operands, and all other
operators have operands of predicates. -/
inductive IsPredicate : Tree → Prop
  | groups {tag : Tag} {text : String} {children : List Tree} : tag.Groups →
      (∀ c ∈ children, IsPredicate c) → IsPredicate (node tag text children)
  | values {tag : Tag} {text : String} {children : List Tree} : tag.IsOperator → ¬tag.Groups →
      (∀ c ∈ children, c.IsPredicateOperand) → IsPredicate (node tag text children)

/-- A connective or a negation is a predicate if its operands are. -/
lemma isPredicate_of_groups {tag : Tag} {text : String} {children : List Tree} (h : tag.Groups) :
    (node tag text children).IsPredicate ↔ ∀ c ∈ children, c.IsPredicate :=
  ⟨fun
    | .groups _ hs => hs
    | .values _ hnot _ => absurd h hnot, .groups h⟩

/-- Another operator is a predicate if its operands are operands of predicates. -/
lemma isPredicate_of_not_groups {tag : Tag} {text : String} {children : List Tree}
    (h : ¬tag.Groups) :
    (node tag text children).IsPredicate ↔
      tag.IsOperator ∧ ∀ c ∈ children, c.IsPredicateOperand :=
  ⟨fun
    | .groups hgroups _ => absurd hgroups h
    | .values htag _ hs => ⟨htag, hs⟩, fun ⟨htag, hs⟩ => .values htag h hs⟩

/-- The root of a predicate is an operator. -/
lemma IsPredicate.isOperator {t : Tree} (h : t.IsPredicate) : t.tag.IsOperator := by
  cases h with
  | groups htag _ => exact htag.isOperator
  | values htag _ _ => exact htag

/-! ## The same clause -/

/-- Both trees are literals of one kind, and are written alike. -/
def SameLiteral (s t : Tree) : Prop :=
  ∃ kind, s.tag = .literal kind ∧ t.tag = .literal kind ∧ s.printLiteral = t.printLiteral

/-- Both trees are names and the same one, or the same literal, or lists that are the same item by
item. -/
inductive SameOperand : Tree → Tree → Prop
  | name {k l : NameKind} {text : String} {cs ds : List Tree} :
      SameOperand (node (.name k) text cs) (node (.name l) text ds)
  | literal {s t : Tree} : SameLiteral s t → SameOperand s t
  | list {x y : String} {ss ts : List Tree} : List.Forall₂ SameLiteral ss ts →
      SameOperand (node .list x ss) (node .list y ts)

/-- Both trees have the same operators in the same shape, and the same operands. -/
inductive SameClause : Tree → Tree → Prop
  | groups {tag : Tag} {x y : String} {ss ts : List Tree} : tag.Groups →
      List.Forall₂ SameClause ss ts → SameClause (node tag x ss) (node tag y ts)
  | values {tag : Tag} {x y : String} {ss ts : List Tree} : tag.IsOperator → ¬tag.Groups →
      List.Forall₂ SameOperand ss ts → SameClause (node tag x ss) (node tag y ts)

/-! ## Normal forms -/

/-- A literal in the spelling in which it is written. -/
def normalLiteral (t : Tree) : Tree :=
  node t.tag t.printLiteral []

/-- An operand without what is not written: every name as that of a column. -/
def normalOperand (t : Tree) : Tree :=
  match t.tag with
  | .name _ => column t.text
  | .list => list (t.children.map normalLiteral)
  | _ => t.normalLiteral

mutual

/-- A predicate without what is not written. -/
def normal : Tree → Tree
  | node tag _ children =>
    if tag.Groups then branch tag (normalList children) else branch tag (children.map normalOperand)

/-- The predicates of a list without what is not written. -/
def normalList : List Tree → List Tree
  | [] => []
  | t :: ts => normal t :: normalList ts

end

/-- The normal forms of a list are those of its trees. -/
lemma normalList_eq_map (ts : List Tree) : normalList ts = ts.map normal := by
  induction ts with
  | nil => rfl
  | cons t ts ih => rw [normalList, ih, List.map_cons]

/-- The normal form of a connective or a negation. -/
lemma normal_of_groups {tag : Tag} (text : String) (children : List Tree) (h : tag.Groups) :
    (node tag text children).normal = branch tag (children.map normal) := by
  rw [normal, if_pos h, normalList_eq_map]

/-- The normal form of any other operator. -/
lemma normal_of_not_groups {tag : Tag} (text : String) (children : List Tree) (h : ¬tag.Groups) :
    (node tag text children).normal = branch tag (children.map normalOperand) := by
  rw [normal, if_neg h]

/-- Lists with the same images are related item by item if items with the same image are. -/
lemma forall₂_of_map_eq {f : Tree → Tree} {r : Tree → Tree → Prop} {ss ts : List Tree}
    (h : ∀ s ∈ ss, ∀ t ∈ ts, f s = f t → r s t) (hmap : ss.map f = ts.map f) :
    List.Forall₂ r ss ts := by
  induction ss generalizing ts with
  | nil =>
    obtain rfl := List.map_eq_nil_iff.mp hmap.symm
    exact .nil
  | cons s ss ih =>
    cases ts with
    | nil => exact nomatch hmap
    | cons t ts =>
      obtain ⟨hhead, htail⟩ := List.cons.inj hmap
      refine .cons (h s List.mem_cons_self t List.mem_cons_self hhead) (ih ?_ htail)
      intro s' hs' t' ht'
      exact h s' (List.mem_cons_of_mem _ hs') t' (List.mem_cons_of_mem _ ht')

/-- A proper literal is a literal. -/
lemma IsProperLiteral.exists_kind {t : Tree} (h : t.IsProperLiteral) :
    ∃ kind, t.tag = .literal kind := by
  obtain ⟨⟨value, hvalue⟩, -⟩ := h
  obtain ⟨kind, hkind, -⟩ := Literal.ofSpelling_of_ofTree hvalue
  exact ⟨kind, hkind⟩

/-- Proper literals with one normal form are the same. -/
lemma sameLiteral_of_normal_eq {s t : Tree} (hs : s.IsProperLiteral)
    (h : s.normalLiteral = t.normalLiteral) : SameLiteral s t := by
  obtain ⟨kind, hkind⟩ := hs.exists_kind
  obtain ⟨htag, htext, -⟩ := Tree.node.inj h
  exact ⟨kind, hkind, htag ▸ hkind, htext⟩

/-- Operands of predicates with one normal form are the same. -/
lemma sameOperand_of_normal_eq {s t : Tree} (hs : s.IsPredicateOperand)
    (ht : t.IsPredicateOperand) (h : s.normalOperand = t.normalOperand) : SameOperand s t := by
  obtain ⟨a, x, cs⟩ := s
  obtain ⟨b, y, ds⟩ := t
  cases a with
  | name k =>
    cases b with
    | name l =>
      obtain ⟨-, rfl, -⟩ := Tree.node.inj h
      exact .name
    | literal kind => exact nomatch (Tree.node.inj h).1
    | list => exact nomatch (Tree.node.inj h).1
    | _ => exact ht.elim
  | literal kind =>
    cases b with
    | name l => exact nomatch (Tree.node.inj h).1
    | literal kind' => exact .literal (sameLiteral_of_normal_eq hs h)
    | list => exact nomatch (Tree.node.inj h).1
    | _ => exact ht.elim
  | list =>
    cases b with
    | name l => exact nomatch (Tree.node.inj h).1
    | literal kind => exact nomatch (Tree.node.inj h).1
    | list =>
      obtain ⟨-, -, hitems⟩ := Tree.node.inj h
      exact .list (forall₂_of_map_eq
        (fun c hc d _ hcd => sameLiteral_of_normal_eq (hs c hc) hcd) hitems)
    | _ => exact ht.elim
  | _ => exact hs.elim

/-- Predicate trees with one normal form are the same clause. -/
theorem sameClause_of_normal_eq {s t : Tree} (hs : s.IsPredicate) (ht : t.IsPredicate)
    (h : s.normal = t.normal) : SameClause s t := by
  induction hs generalizing t with
  | @groups tag text children htag _ ih =>
    obtain ⟨b, y, ds⟩ := t
    have hb : tag = b := by
      rw [normal, normal] at h
      split at h <;> split at h <;> exact (Tree.node.inj h).1
    subst hb
    rw [normal_of_groups _ _ htag, normal_of_groups _ _ htag] at h
    have hds := (isPredicate_of_groups htag).mp ht
    exact .groups htag (forall₂_of_map_eq (fun c hc d hd hcd => ih c hc (hds d hd) hcd)
      (Tree.node.inj h).2.2)
  | @values tag text children htag hgroups hcs =>
    obtain ⟨b, y, ds⟩ := t
    have hb : tag = b := by
      rw [normal, normal] at h
      split at h <;> split at h <;> exact (Tree.node.inj h).1
    subst hb
    rw [normal_of_not_groups _ _ hgroups, normal_of_not_groups _ _ hgroups] at h
    have hds := ((isPredicate_of_not_groups hgroups).mp ht).2
    exact .values htag hgroups (forall₂_of_map_eq
      (fun c hc d hd hcd => sameOperand_of_normal_eq (hcs c hc) (hds d hd) hcd)
      (Tree.node.inj h).2.2)

end Tree

end WhereClause
