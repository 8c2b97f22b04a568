import WhereClause.Proofs.Command.Agreement
import WhereClause.Proofs.Tree.Nesting

/-!
# The depth of clauses that commands are given

An input may nest 127 arrays and objects, which is enough for a clause of 64 levels and for no
deeper one (`Command.depth_le_of_load`, `Command.load_of_read?`).  So the limit of levels of a walk
never matters to a command if it is 64 or more (`commands_ne_tooComplex`).
-/

namespace WhereClause

/-! ## Errors of operands -/

namespace Literal

/-- No spelling is refused because of a limit of levels. -/
lemma ofSpelling_ne_tooComplex (kind : LiteralKind) (spelling : String) (limit : Nat) :
    ofSpelling kind spelling ≠ .error (.tooComplex limit) := by
  intro h
  cases kind with
  | boolean | string => cases h
  | number =>
    rw [ofSpelling, readNumber] at h
    split at h <;> cases h
  | timestamp =>
    rw [ofSpelling] at h
    split at h
    · rw [readTimestamp] at h
      split at h <;> cases h
    · cases h

/-- No literal is refused because of a limit of levels. -/
lemma ofTree_ne_tooComplex (t : Tree) (limit : Nat) : ofTree t ≠ .error (.tooComplex limit) := by
  obtain ⟨tag, text, children⟩ := t
  cases tag with
  | literal kind => exact ofSpelling_ne_tooComplex kind text limit
  | _ => exact fun h => nomatch h

end Literal

namespace Rendering

/-- Writing a literal is not refused because of a limit of levels. -/
lemma literalText_ne_tooComplex (t : Tree) (limit : Nat) :
    literalText t ≠ .error (.error (.tooComplex limit)) := by
  intro h
  obtain ⟨e, he, hvalue⟩ := literalText_eq_error_iff.mp h
  obtain rfl := Halt.error.inj he
  exact Literal.ofTree_ne_tooComplex t limit hvalue

/-- Writing an operand is not refused because of a limit of levels. -/
lemma operandText_ne_tooComplex (t : Tree) (limit : Nat) :
    operandText t ≠ .error (.error (.tooComplex limit)) := by
  obtain ⟨tag, text, children⟩ := t
  cases tag with
  | literal kind => exact literalText_ne_tooComplex _ limit
  | list =>
    intro h
    obtain ⟨e, he, hitems⟩ := listText_eq_error_iff.mp h
    obtain rfl := Halt.error.inj he
    obtain ⟨_, item, _, -, -, hitem⟩ := mapM_eq_error_iff.mp hitems
    exact Literal.ofTree_ne_tooComplex item limit hitem
  | _ => exact fun h => nomatch h

end Rendering

namespace Command

/-! ## Depth -/

/-- The tree that an input denotes is that of a document which nests no deeper than the limit. -/
lemma exists_document_of_load {input : Option String} {t : Tree} (h : load input = .ok (some t)) :
    ∃ document, document.nesting ≤ nestingLimit ∧ Tree.ofJson document = .ok t := by
  unfold load at h
  split at h
  · exact nomatch h
  · split at h
    · exact nomatch h
    · exact nomatch h
    · rename_i hread
      split at h
      · rename_i document u htree
        obtain rfl := Option.some.inj (Except.ok.inj h)
        exact ⟨_, Json.nesting_le_of_read? hread, htree⟩
      · exact nomatch h

/-- A document of at most 127 levels denotes a tree of at most 64. -/
theorem depth_le_of_nesting_le {document : Json} {t : Tree} (h : Tree.ofJson document = .ok t)
    (hnesting : document.nesting ≤ nestingLimit) : t.depth ≤ 64 := by
  have hdepth := Tree.two_mul_depth_le_of_ofJson h
  rw [nestingLimit] at hnesting
  omega

/-- The tree that an input denotes has at most 64 levels. -/
theorem depth_le_of_load {input : Option String} {t : Tree} (h : load input = .ok (some t)) :
    t.depth ≤ 64 := by
  obtain ⟨document, hnesting, htree⟩ := exists_document_of_load h
  exact depth_le_of_nesting_le htree hnesting

/-- A text that is read as the document of a well-formed tree, unless that nests too deep, denotes
this tree if it has at most 64 levels, and otherwise it is refused. -/
lemma load_of_read? {t : Tree} (h : t.WellFormed) {text : String}
    (hread : Json.read? nestingLimit text =
      if t.toJson.nesting ≤ nestingLimit then some t.toJson else none) :
    load (some text) = if t.depth ≤ 64 then .ok (some t) else .error .notJson := by
  have hnesting := t.nesting_toJson
  have hback := Tree.ofJson_toJson_of_wellFormed h
  by_cases hdepth : t.depth ≤ 64
  · obtain ⟨members, hmembers⟩ : ∃ members, t.toJson = .object members := by
      obtain ⟨tag, text, children⟩ := t
      exact ⟨_, Tree.toJson_node tag text children⟩
    rw [if_pos (by rw [nestingLimit]; omega)] at hread
    rw [hmembers] at hread hback
    simp only [load, hread, hback, if_pos hdepth]
  · rw [if_neg (by rw [nestingLimit]; omega)] at hread
    simp only [load, hread, if_neg hdepth]

/-- The text of a well-formed tree without blanks denotes this tree if it has at most 64 levels, and
otherwise it is refused. -/
theorem load_compact {t : Tree} (h : t.WellFormed) :
    load (some t.toJson.compact) = if t.depth ≤ 64 then .ok (some t) else .error .notJson :=
  load_of_read? h (Json.read?_compact nestingLimit t.numberFree_toJson)

/-- The text of a well-formed tree on indented lines denotes this tree if it has at most 64 levels,
and otherwise it is refused. -/
theorem load_indented {t : Tree} (h : t.WellFormed) :
    load (some t.toJson.indented) = if t.depth ≤ 64 then .ok (some t) else .error .notJson :=
  load_of_read? h (Json.read?_indented nestingLimit t.numberFree_toJson)

/-- A limit of at least 64 levels, or none, is no limit to a clause that an input denotes. -/
lemma levels_le_levelLimit {input : Option String} {root : Option Tree}
    (h : load input = .ok root) {maxDepth : Option Nat} (hmax : ∀ limit ∈ maxDepth, 64 ≤ limit) :
    ∀ t ∈ root, t.levels ≤ levelLimit maxDepth := by
  rintro t rfl
  have hlevels := t.levels_le_depth
  have hdepth := depth_le_of_load h
  have hlimit : 64 ≤ levelLimit maxDepth := by
    cases maxDepth with
    | none => decide
    | some limit => exact hmax limit rfl
  omega

/-- The trace of a clause is not refused by a limit of at least 64 levels. -/
lemma trace_ne_tooComplex (input : Option String) {maxDepth : Option Nat}
    (hmax : ∀ limit ∈ maxDepth, 64 ≤ limit) (limit : Nat) :
    trace input maxDepth ≠ .error (.halted (.error (.tooComplex limit))) := by
  intro htrace
  rcases hload : load input with e | root
  · rw [trace, walkInput_of_load_eq_error _ _ hload] at htrace
    obtain rfl := Except.error.inj htrace
    exact load_ne_halted input _ hload
  · obtain ⟨-, -, t, ht, hlt⟩ := tooComplex_of_trace_eq_error hload htrace
    exact absurd (levels_le_levelLimit hload hmax t ht) (Nat.not_le.mpr hlt)

/-- The text of a clause is not refused by a limit of at least 64 levels. -/
lemma clauseText_ne_tooComplex (input : Option String) {maxDepth : Option Nat}
    (hmax : ∀ limit ∈ maxDepth, 64 ≤ limit) (limit : Nat) :
    clauseText input maxDepth ≠ .error (.halted (.error (.tooComplex limit))) := by
  intro htext
  rcases hload : load input with e | root
  · rw [clauseText, walkInput_of_load_eq_error _ _ hload] at htext
    obtain rfl := Except.error.inj htext
    exact load_ne_halted input _ hload
  · obtain ⟨reason, hreason, hcause⟩ := exists_reason_of_clauseText_eq_error hload htext
    obtain rfl := Halt.error.inj (CommandError.halted.inj hreason)
    rcases hcause with ⟨-, t, ht, hlt⟩ | ⟨-, -, operand, -, hoperand⟩
    · exact absurd (levels_le_levelLimit hload hmax t ht) (Nat.not_le.mpr hlt)
    · exact Rendering.operandText_ne_tooComplex operand limit hoperand

end Command

/-! ## Clauses of every depth -/

namespace Tree

/-- A column under so many negations. -/
def negations : Nat → Tree
  | 0 => column "a"
  | n + 1 => branch .negation [negations n]

/-- Each negation adds a level to that of the column. -/
lemma depth_negations (n : Nat) : (negations n).depth = n + 1 := by
  induction n with
  | zero => rfl
  | succ n ih =>
    rw [negations, branch, depth, depthList, depthList, ih]
    omega

/-- Negations have one child each. -/
lemma wellFormed_negations (n : Nat) : (negations n).WellFormed := by
  induction n with
  | zero => exact wellFormed_node.mpr ⟨nofun, nofun⟩
  | succ n ih =>
    refine wellFormed_node.mpr ⟨Tag.admits_negation.mpr rfl, ?_⟩
    exact List.forall_mem_singleton.mpr ih

end Tree

/-- The limit of levels never matters to the commands if it is 64 or more.  A document that nests at
most 127 arrays and objects denotes a tree of at most 64 levels, and the texts that are read as a
document nest no more than that; so neither the trace nor the text of a clause is refused as too
complex if the limit is at least 64, or the default limit.  Each number of levels from 1 to 64 is
that of the tree of some text. -/
theorem commands_ne_tooComplex :
    (∀ document t, document.nesting ≤ 127 → Tree.ofJson document = .ok t → t.depth ≤ 64) ∧
    (∀ input t, Command.load input = .ok (some t) → t.depth ≤ 64) ∧
    (∀ (input : Option String) (maxDepth : Option Nat), (∀ limit ∈ maxDepth, 64 ≤ limit) →
      ∀ limit, Command.trace input maxDepth ≠ .error (.halted (.error (.tooComplex limit))) ∧
        Command.clauseText input maxDepth ≠ .error (.halted (.error (.tooComplex limit)))) ∧
    ∀ d, 1 ≤ d → d ≤ 64 → ∃ text t, Command.load (some text) = .ok (some t) ∧ t.depth = d := by
  refine ⟨fun document t hnesting hread => Command.depth_le_of_nesting_le hread hnesting,
    fun input t => Command.depth_le_of_load, fun input maxDepth hmax limit => ⟨?_, ?_⟩, ?_⟩
  · exact Command.trace_ne_tooComplex input hmax limit
  · exact Command.clauseText_ne_tooComplex input hmax limit
  · intro d hpos hmost
    let t := Tree.negations (d - 1)
    have hdepth : t.depth = d := by
      rw [Tree.depth_negations]
      omega
    have hload := Command.load_compact (Tree.wellFormed_negations (d - 1))
    exact ⟨t.toJson.compact, t, by rw [hload, if_pos (hdepth.le.trans hmost)], hdepth⟩

/-- A negated null test has three levels, and a null test has two.  With the default limit and with
a limit of 64 the negated test has a trace and a text or another error. -/
theorem commands_ne_tooComplex_of_negated_test :
    let test : Tree := .branch (.nullTest .isNull) [.column "a"]
    let t : Tree := .branch .negation [test]
    let input := t.toJson.compact
    t.toJson.nesting ≤ 127 ∧ Tree.ofJson t.toJson = .ok t ∧ t.depth ≤ 64 ∧
      Command.load (some test.toJson.compact) = .ok (some test) ∧ test.depth ≤ 64 ∧
      Command.trace (some input) none ≠ .error (.halted (.error (.tooComplex 256))) ∧
      Command.clauseText (some input) (some 64) ≠ .error (.halted (.error (.tooComplex 64))) ∧
      ∃ text u, Command.load (some text) = .ok (some u) ∧ u.depth = 64 := by
  intro test t input
  obtain ⟨hdocument, hload, hcommands, hevery⟩ := commands_ne_tooComplex
  have hnesting : t.toJson.nesting ≤ 127 := by decide
  have hread : Tree.ofJson t.toJson = .ok t := by rfl
  have hdepth : t.depth ≤ 64 := hdocument t.toJson t hnesting hread
  have htest : Command.load (some test.toJson.compact) = .ok (some test) := by decide +kernel
  have htrace := (hcommands (some input) none nofun 256).1
  have htext := (hcommands (some input) (some 64) (by decide) 64).2
  have hdeepest := hevery 64 (by decide) le_rfl
  exact ⟨hnesting, hread, hdepth, htest, hload _ test htest, htrace, htext, hdeepest⟩

end WhereClause
