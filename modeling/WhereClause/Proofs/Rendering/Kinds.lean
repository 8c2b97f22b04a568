import WhereClause.Proofs.Rendering.Reading
import WhereClause.Proofs.Rendering.Respelling
import WhereClause.Tree.Document

/-!
# The kinds of operands in clause text

What is written for an operand should show of what kind the operand is.  A name is written bare or
between double quotes, and what is written for numbers and timestamps has neither form.  The words
for truth values are bare names like others, and they are not kept for truth values: a column may be
called `TRUE`, and is written like the truth value then (`Rendering.exists_operands_of_other_kind`).

A string is written as it is spelled, whatever the spelling.  So it is one quoted text exactly if it
is spelled as one, and then the scanner does not leave the quotes before the end of the string, and
leaves them there unless another quote comes next (`Rendering.operandText_keeps_kinds`).
-/

namespace WhereClause

namespace Rendering

variable {name : List Char} {value : Literal} {text : String}

/-! ## Names and values -/

/-- What is written for a name is the name, which can be written bare, or begins with a quote. -/
lemma nameText_eq_or (name : List Char) :
    (IsBare name ∧ nameText name = name) ∨ (nameText name).head? = some '"' := by
  by_cases h : IsBare name
  · exact .inl ⟨h, if_pos h⟩
  · refine .inr ?_
    rw [nameText, if_neg h]
    rfl

/-- A name is not written like a number. -/
lemma nameText_ne_of_isNumberText (h : IsNumberText text.toList) : nameText name ≠ text.toList := by
  intro heq
  have hstarts := h.starts
  rw [← heq] at hstarts
  rcases nameText_eq_or name with ⟨hbare, hname⟩ | hquote
  · rw [hname] at hstarts
    exact not_startsNumber_of_isBare hbare hstarts
  · obtain ⟨cs, hcs⟩ := List.head?_eq_some_iff.mp hquote
    rw [hcs] at hstarts
    rcases hstarts with h | h <;> exact absurd h (by decide)

/-- A name is not written like a timestamp. -/
lemma nameText_ne_of_timestamp {t : Timestamp} (h : (Literal.timestamp t).text? = some text) :
    nameText name ≠ text.toList := by
  obtain ⟨content, -, rfl⟩ := Option.map_eq_some_iff.mp h
  rw [String.toList_append]
  intro heq
  rcases nameText_eq_or name with ⟨hbare, hname⟩ | hquote
  · have hblank : ' ' ∈ nameText name := by
      rw [heq]
      exact List.mem_append_left _ (by decide)
    rw [hname] at hblank
    exact absurd (isNameChar_of_isBare hbare ' ' hblank) (by decide)
  · have hhead : "TIMESTAMP ".toList.head? = some 'T' := by decide +kernel
    rw [heq, List.head?_append, hhead] at hquote
    exact absurd hquote (by simp)

/-- A name that is written like a truth value is the word for it. -/
lemma eq_of_nameText_eq_boolean {b : Bool} (h : (Literal.boolean b).text? = some text)
    (heq : nameText name = text.toList) : name = text.toList := by
  rcases nameText_eq_or name with ⟨-, hname⟩ | hquote
  · rw [← heq, hname]
  · rw [heq] at hquote
    cases b with
    | true | false =>
      obtain rfl := Option.some.inj h
      exact absurd hquote (by decide)

/-- A literal that is no string is written as the text of a value of its kind. -/
lemma exists_value_of_literalText {kind : LiteralKind} {spelling : String} {children : List Tree}
    (hkind : kind ≠ .string)
    (h : literalText (.node (.literal kind) spelling children) = .ok text) :
    ∃ value, Literal.ofSpelling kind spelling = .ok value ∧ value.text? = some text := by
  rcases hvalue : Literal.ofSpelling kind spelling with e | value
  · have hread : Literal.ofTree (.node (.literal kind) spelling children) = .error e := hvalue
    rw [literalText, hread] at h
    cases h
  · obtain ⟨found, hfound⟩ := (Literal.ofKind_of_ofSpelling hvalue).exists_text?
    rw [literalText_of_text? hvalue hkind hfound children] at h
    obtain rfl := Except.ok.inj h
    exact ⟨value, rfl, hfound⟩

/-! ## Operands -/

/-- What is written for a name is never written for a number or a timestamp.  It is written for a
truth value only if the name is the word for this value.  A string, as an operand and as the item of
a list, is written as it is spelled.  If it is spelled as a text between quotes with every quote in
it doubled, then it is one token of the clause text in front of any rest that does not begin with
another such quote, and the rest is scanned as if it stood alone. -/
theorem operandText_keeps_kinds :
    (∀ (nameKind : NameKind) (name : String) (children : List Tree) (t : Tree) (written : String),
      operandText (.node (.name nameKind) name children) = .ok written →
      operandText t = .ok written →
        t.tag ≠ .literal .number ∧ t.tag ≠ .literal .timestamp ∧
        (t.tag = .literal .boolean → ∃ b, Literal.ofTree t = .ok (.boolean b) ∧
          (Literal.boolean b).text? = some name)) ∧
    ∀ (spelling : String) (children : List Tree),
      let string : Tree := .node (.literal .string) spelling children
      operandText string = .ok spelling ∧ literalText string = .ok spelling ∧
        ∀ content, spelling.toList = Quoted.encode Literal.quote content →
          ∀ rest : List Char, rest.head? ≠ some Literal.quote →
            scan (spelling.toList ++ rest) =
              .quoted Literal.quote (String.ofList content) :: scan rest := by
  constructor
  · intro nameKind name children t written hname ht
    have hwritten : nameText name.toList = written.toList := by
      have hname : String.ofList (nameText name.toList) = written := Except.ok.inj hname
      rw [← hname, String.toList_ofList]
    obtain ⟨tag, spelling, items⟩ := t
    have hread : ∀ kind, tag = .literal kind → kind ≠ .string →
        ∃ value, Literal.ofSpelling kind spelling = .ok value ∧ value.text? = some written := by
      rintro kind rfl hkind
      exact exists_value_of_literalText hkind ht
    refine ⟨fun htag => ?_, fun htag => ?_, fun htag => ?_⟩
    · obtain ⟨value, hvalue, htext⟩ := hread .number htag (by decide)
      have hnumber := Literal.isNumberText_of_ofKind (Literal.ofKind_of_ofSpelling hvalue) htext
      exact nameText_ne_of_isNumberText hnumber hwritten
    · obtain ⟨value, hvalue, htext⟩ := hread .timestamp htag (by decide)
      cases Literal.ofKind_of_ofSpelling hvalue with
      | timestamp => exact nameText_ne_of_timestamp htext hwritten
    · obtain ⟨value, hvalue, htext⟩ := hread .boolean htag (by decide)
      cases Literal.ofKind_of_ofSpelling hvalue with
      | boolean b =>
        have hword := eq_of_nameText_eq_boolean htext hwritten
        rw [String.toList_inj] at hword
        obtain rfl : tag = .literal .boolean := htag
        exact ⟨b, hvalue, hword ▸ htext⟩
  · intro spelling children string
    refine ⟨rfl, rfl, fun content hcontent rest hrest => ?_⟩
    rw [hcontent]
    exact scan_encode (.inr rfl) content hrest

/-- A column with the digits of a number for its name is not written like the number, and a column
that is written like a truth value has the word for it as its name.  A string with a doubled quote
is one token in front of a parenthesis. -/
theorem operandText_keeps_kinds_of_lookalikes :
    operandText (.column "1") = .ok "\"1\"" ∧
      operandText (.literal .number "+1") ≠ operandText (.column "1") ∧
      operandText (.column "FALSE") = .ok "FALSE" ∧
      operandText (.literal .boolean "no") = .ok "FALSE" ∧
      (∃ b, Literal.ofTree (.literal .boolean "no") = .ok (.boolean b) ∧
        (Literal.boolean b).text? = some "FALSE") ∧
      operandText (.literal .string "'it''s'") = .ok "'it''s'" ∧
      scan "'it''s')".toList = [.quoted Literal.quote "it's", .closing] := by
  obtain ⟨hnames, hstrings⟩ := operandText_keeps_kinds
  have hdigit : operandText (.column "1") = .ok "\"1\"" := by decide +kernel
  have hword : operandText (.column "FALSE") = .ok "FALSE" := by decide +kernel
  have hfalse : operandText (.literal .boolean "no") = .ok "FALSE" := by decide +kernel
  obtain ⟨hstring, -, htoken⟩ := hstrings "'it''s'" []
  refine ⟨hdigit, fun heq => ?_, hword, hfalse, ?_, hstring, ?_⟩
  · exact (hnames .column "1" [] _ _ hdigit (heq.trans hdigit)).1 rfl
  · exact (hnames .column "FALSE" [] _ _ hword hfalse).2.2 rfl
  · exact htoken "it's".toList (by decide +kernel) [')'] (by decide)

/-- A column and a truth value are both written `TRUE`.  A tree that is read from a document has a
string that is no text between quotes with every quote in it doubled.  It is written as it is
spelled, and the scanner makes more than one token of it. -/
theorem exists_operands_of_other_kind :
    let spelling := "'x' OR b = 'y'"
    let comparison : Tree := .branch (.binary .equal) [.column "a", .literal .string spelling]
    operandText (.column "TRUE") = .ok "TRUE" ∧
      operandText (.literal .boolean "true") = .ok "TRUE" ∧
      Tree.ofJson comparison.toJson = .ok comparison ∧
      operandText (.literal .string spelling) = .ok spelling ∧
      (∀ content, spelling.toList ≠ Quoted.encode Literal.quote content) ∧
      scan spelling.toList = [.quoted Literal.quote "x", .word "OR", .word "b", .word "=",
        .quoted Literal.quote "y"] := by
  intro spelling comparison
  have htokens : scan spelling.toList = [.quoted Literal.quote "x", .word "OR", .word "b",
      .word "=", .quoted Literal.quote "y"] := by
    decide +kernel
  refine ⟨by decide +kernel, by decide +kernel, by decide +kernel, rfl, ?_, htokens⟩
  intro content hcontent
  have htoken := scan_encode (.inr rfl) content (r := []) (by simp)
  rw [List.append_nil, ← hcontent, htokens] at htoken
  exact absurd (List.cons.inj htoken).2 (by simp)

end Rendering

end WhereClause
