import WhereClause.Proofs.Rendering.Printer
import WhereClause.Proofs.Rendering.Reading

/-!
# Reading clauses back

The reader makes the normal form of a predicate tree of its printed clause (`read?_printClause`).
So the clause determines the normal form, and with it the operators, the shape and the operands of
the tree: `sameClause_of_walk_eq` says that no two predicate trees that differ in one of these are
written alike.

Parentheses stand around groups as well as around lists.  The reader looks for a list first, and the
heart of the matter is that it cannot take the beginning of a predicate for the items of one
(`refusesItems_of_isPredicate`): where a predicate begins with a literal, a word follows and neither
a comma nor a parenthesis.
-/

namespace WhereClause

namespace Rendering

open ReadStep

-- What holds of all characters of a text is decided by going through the text, whatever else is in
-- scope.
attribute [local instance (high)] List.decidableBAll

/-! ### Words -/

/-- The word is reserved, and not for literals. -/
def IsKeyword (w : String) : Prop :=
  w ∈ reservedWords ∧ w ∉ literalWords

instance (w : String) : Decidable (IsKeyword w) :=
  inferInstanceAs (Decidable (_ ∧ _))

namespace IsKeyword

variable {w : String}

/-- A keyword is not taken for a literal. -/
lemma literal_eq_none (h : IsKeyword w) (ts : List Token) : literal (.word w :: ts) = none := by
  have hnumber : ∀ v ∈ reservedWords, ¬StartsNumber v.toList := by decide
  exact literal_word_eq_none h.2 (hnumber w h.1) ts

/-- A keyword is not taken for an operand. -/
lemma operand_eq_none (h : IsKeyword w) (n : Nat) (ts : List Token) :
    operand n (.word w :: ts) = none := by
  have hlist : list n (.word w :: ts) = none := rfl
  rw [operand, orElse_of_none (name_word_eq_none (fun _ => h.1) ts),
    orElse_of_none (h.literal_eq_none ts), hlist]

end IsKeyword

/-- The words that stand before the right operand of a binary operator delimit the left one. -/
lemma delimits_infixText (op : BinaryOp) (text : String) :
    Delimits (" " ++ infixText op ++ " " ++ text) :=
  delimits_of_head (.inl rfl) (by simp only [String.toList_append, List.append_assoc]; rfl)

/-- The words of a binary operator begin with a word. -/
lemma begins_infixText (op : BinaryOp) (text : String) :
    ∃ w, Begins (" " ++ infixText op ++ " " ++ text) (.word w) := by
  cases op <;> exact ⟨_, Begins.append (fun _ => ⟨_, rfl⟩) _⟩

/-! ### Binary operators -/

/-- The words behind the left operand are taken for the operator, if no word stands in front of that
operand.  The word of the equality is also the first one of another operator. -/
lemma takes_binaryOp {op : BinaryOp} (hlead : leadText op = "") (hop : op ≠ .equal) :
    Takes binaryOp (" " ++ infixText op ++ " ") op := by
  cases op with
  | equal => exact absurd rfl hop
  | anyInList => exact absurd hlead (by decide)
  | anyNotInList => exact absurd hlead (by decide)
  | _ => exact fun _ => rfl

/-- The word of the equality is taken for it if the word of any value does not follow. -/
lemma binaryOp_equal {ts : List Token} (h : ∀ us, ts ≠ .word "ANY" :: us) :
    binaryOp (.word "=" :: ts) = some (.equal, ts) := by
  unfold binaryOp
  split <;> simp_all

/-- What follows the left operand of a binary operator is read. -/
lemma reads_binaryTail {op : BinaryOp} (hlead : leadText op = "") {n : Nat} {text : String}
    {left right : Tree} (hright : Reads (operand n) text right) :
    Reads (do let op ← binaryOp; return Tree.branch (.binary op) [left, ← operand n])
      (" " ++ infixText op ++ " " ++ text) (Tree.branch (.binary op) [left, right]) := by
  have hend := hright.map fun right => Tree.branch (.binary op) [left, right]
  by_cases hop : op = .equal
  · -- The word alone does not tell the equality from the one with any value: the operand does.
    subst hop
    intro r hr
    have hword : scan ((" " ++ infixText .equal ++ " ").toList ++ (text.toList ++ r)) =
        .word "=" :: scan (text.toList ++ r) := rfl
    have hany : ∀ us, scan (text.toList ++ r) ≠ .word "ANY" :: us := by
      intro us hus
      have hread := hright r hr
      rw [hus, IsKeyword.operand_eq_none (by decide)] at hread
      exact nomatch hread
    rw [String.toList_append, List.append_assoc, hword, bind_of_some (binaryOp_equal hany)]
    exact hend r hr
  · exact (takes_binaryOp hlead hop).bind hend

/-- A binary operator that begins with its left operand is read. -/
lemma reads_test_binary {op : BinaryOp} (hlead : leadText op = "") {n : Nat} {x y : String}
    {left right : Tree} (hleft : Reads (operand n) x left) (hright : Reads (operand n) y right) :
    Reads (test n) (binaryForm op x y) (.branch (.binary op) [left, right]) := by
  rw [binaryForm_eq, hlead, String.empty_append]
  exact hleft.bind (delimits_infixText op y) (reads_binaryTail hlead hright).orElse_left

/-- A membership test of any value is read. -/
lemma reads_anyTest {op : BinaryOp} (hop : op = .anyInList ∨ op = .anyNotInList) {n : Nat}
    {x y : String} {left right : Tree} (hleft : Reads (operand n) x left)
    (hright : Reads (operand n) y right) :
    Reads (anyTest n) (binaryForm op x y) (.branch (.binary op) [left, right]) := by
  have hany : Takes (take (.word "ANY")) "ANY " () := fun _ => rfl
  have hwords : Takes anyOp (" " ++ infixText op ++ " ") op := by
    rcases hop with rfl | rfl <;> exact fun _ => rfl
  have hlead : leadText op = "ANY " := by
    rcases hop with rfl | rfl <;> rfl
  rw [binaryForm_eq, hlead]
  exact hany.bind (hleft.bind (delimits_infixText op y)
    (hwords.bind (hright.map fun right => Tree.branch (.binary op) [left, right])))

/-! ### Null tests and functions -/

/-- The words of a null test begin with a word. -/
lemma begins_nullTestText (op : NullTest) : Begins (" " ++ nullTestText op) (.word "IS") := by
  cases op <;> exact fun _ => ⟨_, rfl⟩

/-- The words of a null test delimit the operand. -/
lemma delimits_nullTestText (op : NullTest) : Delimits (" " ++ nullTestText op) :=
  delimits_of_head (.inl rfl) (by rw [String.toList_append]; rfl)

/-- A null test is read. -/
lemma reads_test_nullTest (op : NullTest) {n : Nat} {x : String} {t : Tree}
    (ht : Reads (operand n) x t) :
    Reads (test n) (nullTestForm op x) (.branch (.nullTest op) [t]) := by
  have hnull : IsToken "NULL" (.word "NULL") :=
    isToken_word (by decide) (by decide)
  have hwords : Reads nullTest (" " ++ nullTestText op) op := by
    intro r hr
    cases op with
    | isNull =>
      have hscan : scan ((" " ++ nullTestText .isNull).toList ++ r) =
          .word "IS" :: scan ("NULL".toList ++ r) := rfl
      rw [hscan, hnull r hr]
      rfl
    | isNotNull =>
      have hscan : scan ((" " ++ nullTestText .isNotNull).toList ++ r) =
          .word "IS" :: .word "NOT" :: scan ("NULL".toList ++ r) := rfl
      rw [hscan, hnull r hr]
      rfl
  have hbinary : Refuses binaryOp (" " ++ nullTestText op) :=
    (begins_nullTestText op).refuses fun _ => rfl
  rw [nullTestForm_eq]
  exact ht.bind (delimits_nullTestText op)
    (Reads.orElse_right (hbinary.bind _) (hwords.map fun op => Tree.branch (.nullTest op) [t]))

/-- The name of a function and the parenthesis behind it are taken. -/
lemma takes_functionOp (op : FunctionOp) : Takes functionOp (functionText op ++ "(") op := by
  cases op <;> exact fun _ => rfl

/-- The name of a function is a keyword. -/
lemma isKeyword_functionText (op : FunctionOp) : IsKeyword (functionText op) := by
  cases op <;> decide

/-- A function begins with its name. -/
lemma begins_functionForm (op : FunctionOp) (text : String) :
    Begins (functionForm op text) (.word (functionText op)) := by
  have hname : Begins (functionText op ++ "(") (.word (functionText op)) := by
    cases op <;> exact fun _ => ⟨_, rfl⟩
  rw [functionForm_eq, String.append_assoc]
  exact hname.append _

/-- A function of one operand is read. -/
lemma reads_call_of_argument (op : FunctionOp) {n : Nat} {x : String} {t : Tree}
    (ht : Reads (operand n) x t) :
    Reads (call n) (functionForm op x) (.branch (.function op) [t]) := by
  rw [functionForm_eq, String.append_assoc]
  exact (takes_functionOp op).bind (ht.bind (delimits_of_head (.inr (.inl rfl)) rfl)
    (takes_closing.reads.map fun _ => Tree.branch (.function op) [t]).orElse_left)

/-- A function of two operands is read. -/
lemma reads_call_of_column (op : FunctionOp) {n : Nat} {x y : String} {t u : Tree}
    (ht : Reads (operand n) x t) (hu : Reads (operand n) y u) :
    Reads (call n) (functionForm op (x ++ ", " ++ y)) (.branch (.function op) [t, u]) := by
  have hclosing : Refuses (take .closing) (", " ++ (y ++ ")")) :=
    (begins_comma _).refuses fun _ => rfl
  have hend := takes_closing.reads.map fun _ => Tree.branch (.function op) [t, u]
  have hform : functionForm op (x ++ ", " ++ y) =
      functionText op ++ "(" ++ (x ++ (", " ++ (y ++ ")"))) := by
    simp only [functionForm_eq, String.append_assoc]
  rw [hform]
  refine (takes_functionOp op).bind (ht.bind ?_ (Reads.orElse_right (hclosing.bind _) ?_))
  · exact delimits_of_head (.inr (.inr rfl)) (by rw [String.toList_append]; rfl)
  · exact takes_comma.bind (hu.bind (delimits_of_head (.inr (.inl rfl)) rfl) hend)

/-! ### Predicates and lists -/

/-- The text cannot be taken for what follows the first parenthesis of a list. -/
def RefusesItems (n : Nat) (text : String) : Prop :=
  Refuses (take .closing) text ∧ Refuses (items n) text

/-- What begins with a keyword is not taken for items. -/
lemma refusesItems_of_begins {text w : String} (h : Begins text (.word w)) (hw : IsKeyword w)
    (n : Nat) : RefusesItems n text := by
  refine ⟨h.refuses fun _ => rfl, ?_⟩
  cases n with
  | zero => exact fun _ _ => rfl
  | succ m => exact (h.refuses hw.literal_eq_none).bind _

/-- An operand with a word behind it is not taken for items. -/
lemma refusesItems_operand {t : Tree} (ht : t.IsPredicateOperand) {rest w : String}
    (hrest : Delimits rest) (hword : Begins rest (.word w)) (n : Nat) :
    RefusesItems n (t.printOperand ++ rest) := by
  refine ⟨((reads_operand ht le_rfl).refuses_closing fun _ => rfl).append hrest, ?_⟩
  cases n with
  | zero => exact fun _ _ => rfl
  | succ m =>
    obtain ⟨tag, text, children⟩ := t
    cases tag with
    | name kind => exact ((reads_name ht).2.append hrest).bind _
    | literal kind =>
      have hclosing : Refuses (take .closing) rest := hword.refuses fun _ => rfl
      have hcomma : Refuses (take .comma) rest := hword.refuses fun _ => rfl
      exact (readsLiteral_printLiteral ht).1.bind_refuses hrest
        ((hclosing.bind _).orElse (hcomma.bind _))
    | list =>
      have hbegins : Begins (Tree.node .list text children).printOperand .opening :=
        (begins_opening _).append _
      exact ((hbegins.append rest).refuses fun _ => rfl).bind _
    | _ => exact ht.elim

/-- A negation begins with its word. -/
lemma begins_negation (text : String) (operand : Tree) :
    Begins (Tree.node .negation text [operand]).printClause (.word "NOT") := by
  rw [Tree.printClause]
  split
  · exact Begins.append (fun _ => ⟨_, rfl⟩) _
  · exact (Begins.append (fun _ => ⟨_, rfl⟩) _).append _

/-- A predicate is not taken for items. -/
theorem refusesItems_of_isPredicate {t : Tree} (h : t.WellFormed) (hp : t.IsPredicate) (n : Nat) :
    RefusesItems n t.printClause := by
  induction h using Tree.WellFormed.induct with
  | binary op text left right =>
    obtain ⟨-, hoperands⟩ := (Tree.isPredicate_of_not_groups id).mp hp
    obtain ⟨w, hword⟩ := begins_infixText op right.printOperand
    rw [Tree.printClause, binaryForm_eq]
    by_cases hlead : leadText op = ""
    · rw [hlead, String.empty_append]
      exact refusesItems_operand (hoperands left (by simp)) (delimits_infixText op _) hword n
    · have hany : leadText op = "ANY " := by
        cases op <;> first | rfl | exact absurd rfl hlead
      rw [hany]
      have hbegins : Begins "ANY " (.word "ANY") := fun _ => ⟨_, rfl⟩
      exact refusesItems_of_begins (hbegins.append _) (by decide) n
  | connective op text left right =>
    have hbegins : Begins (Tree.node (.connective op) text [left, right]).printClause .opening := by
      cases op <;>
        exact (((begins_opening _).append _).append _).append _
    refine ⟨hbegins.refuses fun _ => rfl, ?_⟩
    cases n with
    | zero => exact fun _ _ => rfl
    | succ m => exact (hbegins.refuses fun _ => rfl).bind _
  | negation text operand =>
    exact refusesItems_of_begins (begins_negation text operand) (by decide) n
  | nullTest test text operand =>
    obtain ⟨-, hoperands⟩ := (Tree.isPredicate_of_not_groups id).mp hp
    rw [Tree.printClause, nullTestForm_eq]
    exact refusesItems_operand (hoperands operand (by simp)) (delimits_nullTestText test)
      (begins_nullTestText test) n
  | functionOfArgument op text argument =>
    exact refusesItems_of_begins (begins_functionForm op _) (isKeyword_functionText op) n
  | functionOfColumn op text column argument =>
    exact refusesItems_of_begins (begins_functionForm op _) (isKeyword_functionText op) n
  | score text =>
    have hbegins : Begins "SCORE()" (.word "SCORE") := fun _ => ⟨_, rfl⟩
    exact refusesItems_of_begins hbegins (by decide) n
  | operand tag text children _ htag => exact absurd hp.isOperator htag

/-! ### Groups -/

/-- The word of a negation is taken with the blank behind it. -/
lemma takes_not : Takes (take (.word "NOT")) "NOT " () :=
  fun _ => rfl

/-- The text is that of a group: a predicate that is read behind the first parenthesis and not taken
for the items of a list, and what follows it. -/
inductive ReadsGroup (n : Nat) : String → Tree → Prop
  | intro {first rest : String} {left t : Tree} : RefusesItems n first → Delimits rest →
      Refuses (take .closing) rest → Reads (predicate n) first left →
      Reads (groupTail (predicate n) left) rest t → ReadsGroup n ("(" ++ (first ++ rest)) t

/-- Two predicates with a connective between them are the text of a group. -/
lemma readsGroup_connectiveForm (op : Connective) {n : Nat} {x y : String} {left right : Tree}
    (hitems : RefusesItems n x) (hleft : Reads (predicate n) x left)
    (hright : Reads (predicate n) y right) :
    ReadsGroup n (connectiveForm op x y) (.branch (.connective op) [left, right]) := by
  have hconnective : Takes connective (" " ++ connectiveText op ++ " ") op := by
    cases op <;> exact fun _ => rfl
  have hbegins : ∃ w, Begins (" " ++ connectiveText op ++ " " ++ (y ++ ")")) (.word w) := by
    cases op <;> exact ⟨_, Begins.append (fun _ => ⟨_, rfl⟩) _⟩
  have hdelimits : Delimits (" " ++ connectiveText op ++ " " ++ (y ++ ")")) :=
    delimits_of_head (.inl rfl) (by simp only [String.toList_append, List.append_assoc]; rfl)
  have hend := takes_closing.reads.map fun _ => Tree.branch (.connective op) [left, right]
  obtain ⟨w, hw⟩ := hbegins
  rw [connectiveForm_eq]
  refine .intro hitems hdelimits (hw.refuses fun _ => rfl) hleft ?_
  exact hconnective.bind (hright.bind (delimits_of_head (.inr (.inl rfl)) rfl) hend)

namespace ReadsGroup

variable {n : Nat} {text : String} {t : Tree}

/-- A group is read as a predicate, since it is not taken for a list. -/
lemma reads_predicate (h : ReadsGroup n text t) : Reads (predicate (n + 1)) text t := by
  obtain ⟨⟨hclosing, hitems⟩, hdelimits, -, hfirst, hrest⟩ := h
  have hbegins := begins_opening
  have hlist : Refuses (list n) _ := takes_opening.bind_refuses
    (((hclosing.append hdelimits).bind _).orElse ((hitems.append hdelimits).bind _))
  have hoperand : Refuses (operand n) _ :=
    ((hbegins _).refuses fun _ => rfl).orElse (((hbegins _).refuses fun _ => rfl).orElse hlist)
  refine Reads.orElse_right (hoperand.bind _) ?_
  refine Reads.orElse_right ((hbegins _).refuses fun _ => rfl) ?_
  refine Reads.orElse_right ((hbegins _).refuses fun _ => rfl) ?_
  refine Reads.orElse_right ((hbegins _).refuses fun _ => rfl) ?_
  exact (takes_opening.bind (hfirst.bind hdelimits hrest)).orElse_left

/-- A negated group is read. -/
lemma reads_negation (h : ReadsGroup n text t) :
    Reads (negation (predicate n)) ("NOT " ++ text) (.branch .negation [t]) := by
  obtain ⟨-, hdelimits, hclosing, hfirst, hrest⟩ := h
  refine takes_not.bind (takes_opening.bind (hfirst.bind hdelimits ?_))
  exact Reads.orElse_right (hclosing.bind _) (hrest.map fun t => Tree.branch .negation [t])

end ReadsGroup

/-- A negated predicate in parentheses is read. -/
lemma reads_negation {n : Nat} {text : String} {t : Tree} (h : Reads (predicate n) text t) :
    Reads (negation (predicate n)) ("NOT (" ++ text ++ ")") (.branch .negation [t]) := by
  have hform : "NOT (" ++ text ++ ")" = "NOT " ++ ("(" ++ (text ++ ")")) := by
    simp only [← String.append_assoc]
    rfl
  have hend := takes_closing.reads.map fun _ => Tree.branch .negation [t]
  rw [hform]
  refine takes_not.bind (takes_opening.bind ?_)
  exact h.bind (delimits_of_head (.inr (.inl rfl)) rfl) hend.orElse_left

/-! ### Clauses -/

/-- What begins with a keyword does not begin with an operand. -/
lemma test_refuses {text w : String} (h : Begins text (.word w)) (hw : IsKeyword w) (n : Nat) :
    Refuses (test n) text :=
  (h.refuses (hw.operand_eq_none n)).bind _

/-- A binary operator is read as a predicate. -/
lemma reads_binaryForm (op : BinaryOp) {n : Nat} {x y : String} {left right : Tree}
    (hleft : Reads (operand n) x left) (hright : Reads (operand n) y right) :
    Reads (predicate (n + 1)) (binaryForm op x y) (.branch (.binary op) [left, right]) := by
  by_cases hop : op = .anyInList ∨ op = .anyNotInList
  · have hbegins : Begins (binaryForm op x y) (.word "ANY") := by
      rw [binaryForm_eq]
      rcases hop with rfl | rfl <;> exact Begins.append (fun _ => ⟨_, rfl⟩) _
    exact Reads.orElse_right (test_refuses hbegins (by decide) n)
      (reads_anyTest hop hleft hright).orElse_left
  · have hlead : leadText op = "" := by
      cases op <;> simp_all [leadText]
    exact (reads_test_binary hlead hleft hright).orElse_left

/-- A function is read as a predicate. -/
lemma reads_functionForm (op : FunctionOp) {n : Nat} {text : String} {t : Tree}
    (h : Reads (call n) (functionForm op text) t) :
    Reads (predicate (n + 1)) (functionForm op text) t := by
  have hbegins := begins_functionForm op text
  have hany : Refuses (take (.word "ANY")) (functionForm op text) := by
    cases op <;> exact hbegins.refuses fun _ => rfl
  refine Reads.orElse_right (test_refuses hbegins (isKeyword_functionText op) n) ?_
  refine Reads.orElse_right (hany.bind _) ?_
  exact h.orElse_left

/-- The relevance is read as a predicate. -/
lemma reads_score (n : Nat) : Reads (predicate (n + 1)) "SCORE()" (.branch .score []) := by
  have hbegins : Begins "SCORE()" (.word "SCORE") := fun _ => ⟨_, rfl⟩
  have hscore : Takes score "SCORE()" (.branch .score []) := fun _ => rfl
  refine Reads.orElse_right (test_refuses hbegins (by decide) n) ?_
  refine Reads.orElse_right (hbegins.refuses fun _ => rfl) ?_
  refine Reads.orElse_right (hbegins.refuses fun _ => rfl) ?_
  exact hscore.reads.orElse_left

/-- A negation is read as a predicate. -/
lemma reads_predicate_of_negation {n : Nat} {text : String} {t : Tree}
    (hbegins : Begins text (.word "NOT")) (h : Reads (negation (predicate n)) text t) :
    Reads (predicate (n + 1)) text t := by
  refine Reads.orElse_right (test_refuses hbegins (by decide) n) ?_
  refine Reads.orElse_right (hbegins.refuses fun _ => rfl) ?_
  refine Reads.orElse_right (hbegins.refuses fun _ => rfl) ?_
  refine Reads.orElse_right (hbegins.refuses fun _ => rfl) ?_
  exact Reads.orElse_right (hbegins.refuses fun _ => rfl) h

/-- Every predicate is read back.  The second part is what the negation of a group needs: its
parentheses are those of the group. -/
theorem reads_predicate {t : Tree} (h : t.WellFormed) (hp : t.IsPredicate) :
    (∀ n, t.printClause.length ≤ n → Reads (predicate (n + 1)) t.printClause t.normal) ∧
      (IsGrouped t → ∀ n, t.printClause.length ≤ n →
        ReadsGroup n t.printClause t.normal) := by
  induction h using Tree.WellFormed.induct with
  | binary op text left right =>
    obtain ⟨-, hoperands⟩ := (Tree.isPredicate_of_not_groups id).mp hp
    refine ⟨fun n hn => ?_, by simp [IsGrouped]⟩
    simp only [Tree.printClause, binaryForm_eq, String.length_append] at hn
    rw [Tree.normal_of_not_groups _ _ id]
    exact reads_binaryForm op (reads_operand (hoperands left (by simp)) (by omega))
      (reads_operand (hoperands right (by simp)) (by omega))
  | connective op text left right hl hr _ ihleft ihright =>
    have hgroups : Tag.Groups (.connective op) := trivial
    have hpredicates := (Tree.isPredicate_of_groups hgroups).mp hp
    have hleft := (ihleft (hpredicates left (by simp))).1
    have hright := (ihright (hpredicates right (by simp))).1
    have hgroup : ∀ n, (Tree.node (.connective op) text [left, right]).printClause.length ≤ n →
        ReadsGroup n (Tree.node (.connective op) text [left, right]).printClause
          (Tree.node (.connective op) text [left, right]).normal := by
      intro n hn
      simp only [Tree.printClause, connectiveForm_eq, String.length_append,
        show "(".length = 1 from rfl] at hn
      obtain ⟨m, rfl⟩ := Nat.exists_eq_succ_of_ne_zero (show n ≠ 0 by omega)
      rw [Tree.normal_of_groups _ _ hgroups]
      exact readsGroup_connectiveForm op
        (refusesItems_of_isPredicate hl (hpredicates left (by simp)) _)
        (hleft m (by omega)) (hright m (by omega))
    exact ⟨fun n hn => (hgroup n hn).reads_predicate, fun _ => hgroup⟩
  | negation text operand _ _ ih =>
    have hgroups : Tag.Groups .negation := trivial
    have hpredicates := (Tree.isPredicate_of_groups hgroups).mp hp
    obtain ⟨hread, hgroup⟩ := ih (hpredicates operand (by simp))
    refine ⟨fun n hn => ?_, by simp [IsGrouped]⟩
    refine reads_predicate_of_negation (begins_negation text operand) ?_
    rw [Tree.normal_of_groups _ _ hgroups]
    rw [Tree.printClause] at hn ⊢
    split at hn
    · rename_i hgrouped
      rw [String.length_append] at hn
      rw [if_pos hgrouped]
      exact (hgroup hgrouped n (by omega)).reads_negation
    · rename_i hgrouped
      simp only [String.length_append, show "NOT (".length = 5 from rfl] at hn
      obtain ⟨m, rfl⟩ := Nat.exists_eq_succ_of_ne_zero (show n ≠ 0 by omega)
      rw [if_neg hgrouped]
      exact reads_negation (hread m (by omega))
  | nullTest test text operand =>
    obtain ⟨-, hoperands⟩ := (Tree.isPredicate_of_not_groups id).mp hp
    refine ⟨fun n hn => ?_, by simp [IsGrouped]⟩
    simp only [Tree.printClause, nullTestForm_eq, String.length_append] at hn
    rw [Tree.normal_of_not_groups _ _ id]
    exact (reads_test_nullTest test
      (reads_operand (hoperands operand (by simp)) (by omega))).orElse_left
  | functionOfArgument op text argument =>
    obtain ⟨-, hoperands⟩ := (Tree.isPredicate_of_not_groups id).mp hp
    refine ⟨fun n hn => ?_, by simp [IsGrouped]⟩
    simp only [Tree.printClause, functionForm_eq, String.length_append] at hn
    rw [Tree.normal_of_not_groups _ _ id]
    exact reads_functionForm op (reads_call_of_argument op
      (reads_operand (hoperands argument (by simp)) (by omega)))
  | functionOfColumn op text column argument =>
    obtain ⟨-, hoperands⟩ := (Tree.isPredicate_of_not_groups id).mp hp
    refine ⟨fun n hn => ?_, by simp [IsGrouped]⟩
    simp only [Tree.printClause, functionForm_eq, String.length_append] at hn
    rw [Tree.normal_of_not_groups _ _ id]
    exact reads_functionForm op (reads_call_of_column op
      (reads_operand (hoperands column (by simp)) (by omega))
      (reads_operand (hoperands argument (by simp)) (by omega)))
  | score text =>
    refine ⟨fun n _ => ?_, by simp [IsGrouped]⟩
    rw [Tree.normal_of_not_groups _ _ id]
    exact reads_score n
  | operand tag text children _ htag => exact absurd hp.isOperator htag

/-- The clause of a predicate tree is read back as the normal form of the tree. -/
theorem read?_printClause {t : Tree} (h : t.WellFormed) (hp : t.IsPredicate) :
    read? t.printClause = some t.normal := by
  have hread := (reads_predicate h hp).1 _ le_rfl [] delimited_nil
  rw [List.append_nil, scan_nil] at hread
  rw [read?, hread]

end Rendering

open Rendering

/-- Clause text is unambiguous.  If walks through two well-formed predicate trees end well and leave
the same text behind, then the trees have the same operators in the same shape and the same
operands. -/
theorem sameClause_of_walk_eq {s t : Tree} (hs : s.WellFormed) (ht : t.WellFormed)
    (hps : s.IsPredicate) (hpt : t.IsPredicate) {x y text : String}
    (hwalks : (walk render none (some s)).runFrom x = (.ok (), text))
    (hwalkt : (walk render none (some t)).runFrom y = (.ok (), text)) : s.SameClause t := by
  have htexts : text = s.printClause := ((runFrom_walk_eq_ok_iff hs none x text).mp hwalks).2
  have htextt : text = t.printClause := ((runFrom_walk_eq_ok_iff ht none y text).mp hwalkt).2
  have hreads : read? text = some s.normal := by
    rw [htexts]
    exact read?_printClause hs hps
  have hreadt : read? text = some t.normal := by
    rw [htextt]
    exact read?_printClause ht hpt
  exact Tree.sameClause_of_normal_eq hps hpt (Option.some.inj (hreads.symm.trans hreadt))

/-- Two trees that differ in the spelling of a number and in the kind of a name. -/
theorem sameClause_of_walk_eq_of_spellings :
    let s : Tree := .branch .negation
      [.branch (.binary .equal) [.column "a", .literal .number "07"]]
    let t : Tree := .branch .negation
      [.branch (.binary .equal) [.leaf (.name .identifier) "a", .literal .number "+7"]]
    (s.WellFormed ∧ s.IsPredicate ∧
        (walk render none (some s)).runFrom "" = (.ok (), "NOT (a = 7)")) ∧
      (t.WellFormed ∧ t.IsPredicate ∧
        (walk render none (some t)).runFrom "" = (.ok (), "NOT (a = 7)")) ∧
      s.SameClause t := by
  intro s t
  have hpredicate (name number : Tree) (hname : name.IsPredicateOperand)
      (hnumber : number.IsPredicateOperand) :
      (Tree.branch .negation [.branch (.binary .equal) [name, number]]).IsPredicate := by
    have hequal : (Tree.branch (.binary .equal) [name, number]).IsPredicate :=
      .values trivial id (by simp [hname, hnumber])
    exact .groups trivial (by simpa using hequal)
  have hname : "a" ∉ reservedWords := by decide
  have hnumber (spelling : String) (h : Literal.ofSpelling .number spelling = .ok (.integer 7)) :
      (Tree.literal .number spelling).IsPredicateOperand := ⟨⟨_, h⟩, fun htag => nomatch htag⟩
  have hs : s.WellFormed ∧ s.IsPredicate ∧
      (walk render none (some s)).runFrom "" = (.ok (), "NOT (a = 7)") :=
    ⟨by simp [s, Tree.wellFormed_node, Tree.branch, Tree.column, Tree.literal, Tree.leaf,
      Tag.Admits, Tag.arity?, Arity.Allows], hpredicate _ _ hname (hnumber _ rfl), rfl⟩
  have ht : t.WellFormed ∧ t.IsPredicate ∧
      (walk render none (some t)).runFrom "" = (.ok (), "NOT (a = 7)") :=
    ⟨by simp [t, Tree.wellFormed_node, Tree.branch, Tree.literal, Tree.leaf, Tag.Admits, Tag.arity?,
      Arity.Allows], hpredicate _ _ hname (hnumber _ rfl), rfl⟩
  exact ⟨hs, ht, sameClause_of_walk_eq hs.1 ht.1 hs.2.1 ht.2.1 hs.2.2 ht.2.2⟩

end WhereClause
