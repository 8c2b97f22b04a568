import WhereClause.Literal.Reading
import Mathlib.Data.List.TakeWhile

/-!
# The section between the quotes of a timestamp literal

A timestamp literal is read from between its first and its last quote, whatever else is in its text
(`Literal.quotedSection?_of_enclosed`).  `Literal.Quotes` tells the three cases apart: a text has no
quote, one quote, or a first and a last one.

The same section can be cut out of the bytes of the text, from behind the byte of the first quote to
the byte of the last one (`Literal.cutSection?`).  This never fails, because a quote is a single
byte, so that the cuts are between characters (`Literal.cutSection?_eq`).
-/

namespace WhereClause

/-! ## Bytes -/

/-- The byte at which the character begins where it occurs first. -/
def firstByte? (c : Char) : List Char → Option Nat
  | [] => none
  | d :: ds => if d = c then some 0 else (firstByte? c ds).map (d.utf8Size + ·)

/-- The byte at which the character begins where it occurs last. -/
def lastByte? (c : Char) : List Char → Option Nat
  | [] => none
  | d :: ds =>
    match lastByte? c ds with
    | some n => some (d.utf8Size + n)
    | none => if d = c then some 0 else none

/-- The part of a text from one byte up to another.  There is none unless both are between
characters and not beyond the end of the text, and the first is not behind the second. -/
def slice? (text : String) (start stop : Nat) : Option String :=
  if h : (⟨start⟩ : String.Pos.Raw).IsValid text ∧ (⟨stop⟩ : String.Pos.Raw).IsValid text then
    (text.slice? (text.pos ⟨start⟩ h.1) (text.pos ⟨stop⟩ h.2)).map String.Slice.copy
  else
    none

section Bytes

variable {c : Char} {before after : List Char}

/-- The bytes of a text are those of its first character and those of the rest. -/
lemma utf8ByteSize_cons (d : Char) (ds : List Char) :
    (String.ofList (d :: ds)).utf8ByteSize = d.utf8Size + (String.ofList ds).utf8ByteSize := by
  rw [← List.singleton_append, String.ofList_append, String.utf8ByteSize_append,
    ← String.singleton_eq_ofList, String.utf8ByteSize_singleton]

/-- A character that does not occur has no first occurrence. -/
lemma firstByte?_of_not_mem (h : c ∉ before) : firstByte? c before = none := by
  induction before with
  | nil => rfl
  | cons d ds ih =>
    rw [List.mem_cons, not_or] at h
    rw [firstByte?, if_neg (Ne.symm h.1), ih h.2]
    rfl

/-- The first occurrence begins behind the bytes in front of it. -/
lemma firstByte?_append (h : c ∉ before) (after : List Char) :
    firstByte? c (before ++ c :: after) = some (String.ofList before).utf8ByteSize := by
  induction before with
  | nil => exact if_pos rfl
  | cons d ds ih =>
    rw [List.mem_cons, not_or] at h
    rw [List.cons_append, firstByte?, if_neg (Ne.symm h.1), ih h.2, utf8ByteSize_cons]
    rfl

/-- A character that does not occur has no last occurrence. -/
lemma lastByte?_of_not_mem (h : c ∉ after) : lastByte? c after = none := by
  induction after with
  | nil => rfl
  | cons d ds ih =>
    rw [List.mem_cons, not_or] at h
    rw [lastByte?, ih h.2]
    exact if_neg (Ne.symm h.1)

/-- The last occurrence begins behind the bytes in front of it. -/
lemma lastByte?_append (before : List Char) (h : c ∉ after) :
    lastByte? c (before ++ c :: after) = some (String.ofList before).utf8ByteSize := by
  induction before with
  | nil =>
    rw [List.nil_append, lastByte?, lastByte?_of_not_mem h]
    exact if_pos rfl
  | cons d ds ih => rw [List.cons_append, lastByte?, ih, utf8ByteSize_cons]

/-- A part of a text is found between the bytes in front of it and those up to its end. -/
lemma slice?_append (before inner after : String) :
    slice? (before ++ inner ++ after) before.utf8ByteSize (before ++ inner).utf8ByteSize =
      some inner := by
  have hassoc : before ++ inner ++ after = before ++ (inner ++ after) := String.append_assoc
  have hstart : (⟨before.utf8ByteSize⟩ : String.Pos.Raw).IsValid (before ++ inner ++ after) :=
    String.Pos.Raw.isValid_iff_exists_append.mpr ⟨before, inner ++ after, hassoc, rfl⟩
  have hstop :
      (⟨(before ++ inner).utf8ByteSize⟩ : String.Pos.Raw).IsValid (before ++ inner ++ after) :=
    String.Pos.Raw.isValid_iff_exists_append.mpr ⟨before ++ inner, after, rfl, rfl⟩
  obtain ⟨hle, hcopy⟩ := String.copy_slice_eq_iff_splits.mpr
    ⟨before, after, ⟨hassoc, String.offset_pos (h := hstart)⟩,
      ⟨rfl, String.offset_pos (h := hstop)⟩⟩
  rw [slice?, dif_pos ⟨hstart, hstop⟩, String.slice?, dif_pos hle, Option.map_some, hcopy]

end Bytes

namespace Literal

/-! ## Quotes -/

/-- The quotes of a text: there is none, there is one, or a first and a last one enclose a part of
the text. -/
inductive Quotes : List Char → Prop
  | none {text : List Char} : quote ∉ text → Quotes text
  | one {before after : List Char} : quote ∉ before → quote ∉ after →
      Quotes (before ++ quote :: after)
  | enclosed {before after : List Char} (inner : List Char) : quote ∉ before → quote ∉ after →
      Quotes (before ++ quote :: (inner ++ quote :: after))

/-- Every text is of one of these forms. -/
lemma quotes (text : List Char) : Quotes text := by
  by_cases hfirst : quote ∈ text
  · obtain ⟨before, rest, rfl, hbefore⟩ := List.eq_append_cons_of_mem hfirst
    by_cases hlast : quote ∈ rest
    -- The last quote is the first one from the end.
    · obtain ⟨after, inner, hrest, hafter⟩ :=
        List.eq_append_cons_of_mem (List.mem_reverse.mpr hlast)
      have hrest : rest = inner.reverse ++ quote :: after.reverse := by
        rw [← List.reverse_reverse rest, hrest]
        simp
      rw [hrest]
      exact .enclosed _ hbefore (fun h => hafter (List.mem_reverse.mp h))
    · exact .one hbefore hlast
  · exact .none hfirst

variable {before after : List Char}

/-- No character is the quote in a text without quotes. -/
lemma ne_quote_of_not_mem (h : quote ∉ before) : ∀ c ∈ before, decide (c ≠ quote) = true := by
  intro c hc
  refine decide_eq_true ?_
  rintro rfl
  exact h hc

/-- Going forward to the first quote of a text leaves out what has no quote. -/
lemma dropWhile_append_of_quote_not_mem (h : quote ∉ before) (rest : List Char) :
    (before ++ rest).dropWhile (· ≠ quote) = rest.dropWhile (· ≠ quote) :=
  List.dropWhile_append_of_pos (ne_quote_of_not_mem h)

/-- Going forward in a text without quotes goes through all of it. -/
lemma dropWhile_of_quote_not_mem (h : quote ∉ before) : before.dropWhile (· ≠ quote) = [] :=
  List.dropWhile_eq_nil_iff.mpr (ne_quote_of_not_mem h)

/-- Going forward stops at a quote. -/
lemma dropWhile_quote_cons (rest : List Char) :
    (quote :: rest).dropWhile (· ≠ quote) = quote :: rest :=
  List.dropWhile_cons_of_neg (by simp)

/-- What the first and the last quote enclose is found. -/
lemma quotedSection?_of_enclosed (hbefore : quote ∉ before) (inner : List Char)
    (hafter : quote ∉ after) :
    quotedSection? (before ++ quote :: (inner ++ quote :: after)) = some inner := by
  have hreverse : (inner ++ quote :: after).reverse = after.reverse ++ quote :: inner.reverse := by
    simp
  rw [quotedSection?, dropWhile_append_of_quote_not_mem hbefore, dropWhile_quote_cons]
  dsimp only
  rw [hreverse, dropWhile_append_of_quote_not_mem (fun h => hafter (List.mem_reverse.mp h)),
    dropWhile_quote_cons]
  exact congrArg some (List.reverse_reverse inner)

/-- A text with at most one quote has no section. -/
lemma quotedSection?_of_count_lt {text : List Char} (h : text.count quote < 2) :
    quotedSection? text = none := by
  cases quotes text with
  | none hnone =>
    rw [quotedSection?, dropWhile_of_quote_not_mem hnone]
  | one hbefore hafter =>
    rw [quotedSection?, dropWhile_append_of_quote_not_mem hbefore, dropWhile_quote_cons]
    dsimp only
    rw [dropWhile_of_quote_not_mem (fun h => hafter (List.mem_reverse.mp h))]
  | enclosed inner =>
    simp only [List.count_append, List.count_cons_self] at h
    omega

/-! ## Cutting out the section -/

/-- What is between the first and the last quote of a text, cut out of its bytes.  A text without
two quotes has no such section, and it is `none` if a section cannot be cut out where it is. -/
def cutSection? (text : String) : Option (Option String) :=
  match firstByte? quote text.toList, lastByte? quote text.toList with
  | some first, some last =>
    if last ≤ first then some none else (slice? text (first + 1) last).map some
  | _, _ => some none

/-- What the first and the last quote enclose is cut out. -/
lemma cutSection?_of_enclosed (hbefore : quote ∉ before) (inner : List Char)
    (hafter : quote ∉ after) :
    cutSection? (String.ofList (before ++ quote :: (inner ++ quote :: after))) =
      some (some (String.ofList inner)) := by
  have hparts : before ++ quote :: (inner ++ quote :: after) =
      before ++ [quote] ++ inner ++ quote :: after := by
    simp
  have hlast : lastByte? quote (before ++ quote :: (inner ++ quote :: after)) =
      some (String.ofList (before ++ [quote]) ++ String.ofList inner).utf8ByteSize := by
    rw [hparts, lastByte?_append _ hafter, String.ofList_append]
  -- The quote is a single byte, so the cut behind it is between characters.
  have hfirst : (String.ofList (before ++ [quote])).utf8ByteSize =
      (String.ofList before).utf8ByteSize + 1 := by
    rw [String.ofList_append, String.utf8ByteSize_append]
    rfl
  have hlt : ¬(String.ofList (before ++ [quote]) ++ String.ofList inner).utf8ByteSize ≤
      (String.ofList before).utf8ByteSize := by
    rw [String.utf8ByteSize_append, hfirst]
    omega
  rw [cutSection?, String.toList_ofList, firstByte?_append hbefore, hlast]
  dsimp only
  rw [if_neg hlt, ← hfirst, hparts, String.ofList_append, String.ofList_append, slice?_append]
  rfl

/-- What is between the first and the last quote can always be cut out. -/
lemma cutSection?_eq (text : String) :
    cutSection? text = some ((quotedSection? text.toList).map String.ofList) := by
  obtain ⟨cs, rfl⟩ : ∃ cs, text = String.ofList cs := ⟨text.toList, String.ofList_toList.symm⟩
  rw [String.toList_ofList]
  cases quotes cs with
  | none hnone =>
    have hcount : cs.count quote < 2 := by
      rw [List.count_eq_zero.mpr hnone]
      decide
    rw [cutSection?, String.toList_ofList, firstByte?_of_not_mem hnone,
      quotedSection?_of_count_lt hcount]
    rfl
  | @one before after hbefore hafter =>
    have hcount : (before ++ quote :: after).count quote < 2 := by
      rw [List.count_append, List.count_cons_self, List.count_eq_zero.mpr hbefore,
        List.count_eq_zero.mpr hafter]
      decide
    rw [cutSection?, String.toList_ofList, firstByte?_append hbefore,
      lastByte?_append before hafter, quotedSection?_of_count_lt hcount]
    exact if_pos (Nat.le_refl _)
  | enclosed inner hbefore hafter =>
    rw [cutSection?_of_enclosed hbefore inner hafter,
      quotedSection?_of_enclosed hbefore inner hafter]
    rfl

/-! ## Timestamp literals -/

/-- A timestamp literal is read from between its first and its last quote and from nothing else.

* In front of the first quote and behind the last one there may be any text without quotes, and in
  between there may be any text at all.  The result is that of reading the text in between: either
  the same timestamp, or the error of a malformed timestamp, which carries the text in between.
* A literal with fewer than two quotes is malformed, and the error carries its whole text.
* The section between the first and the last quote can be cut out by bytes, whatever the text: the
  cuts are between characters and not beyond the end. -/
theorem ofTree_timestamp_eq :
    (∀ (before inner after : String) (children : List Tree),
      quote ∉ before.toList → quote ∉ after.toList →
        let literal : Tree :=
          .node (.literal .timestamp) (before ++ "'" ++ inner ++ "'" ++ after) children
        ofTree literal = (readTimestamp inner).map timestamp ∧
          ((∃ t, readTimestamp inner = .ok t) ∨
            readTimestamp inner = .error (.malformedTimestamp inner))) ∧
    (∀ (text : String) (children : List Tree), text.toList.count quote < 2 →
      ofTree (.node (.literal .timestamp) text children) = .error (.malformedTimestamp text)) ∧
    ∀ text, cutSection? text = some ((quotedSection? text.toList).map String.ofList) := by
  refine ⟨fun before inner after children hbefore hafter => ⟨?_, ?_⟩, fun text children h => ?_,
    cutSection?_eq⟩
  · have hsection : quotedSection? (before ++ "'" ++ inner ++ "'" ++ after).toList =
        some inner.toList := by
      have hquote : "'".toList = [quote] := by decide +kernel
      have hparts : (before ++ "'" ++ inner ++ "'" ++ after).toList =
          before.toList ++ quote :: (inner.toList ++ quote :: after.toList) := by
        simp only [String.toList_append, hquote, List.append_assoc, List.cons_append,
          List.nil_append]
      rw [hparts, quotedSection?_of_enclosed hbefore inner.toList hafter]
    rw [ofTree, ofSpelling, hsection]
    dsimp only
    rw [String.ofList_toList]
  · rw [readTimestamp]
    split
    · exact .inl ⟨_, rfl⟩
    · exact .inr rfl
  · rw [ofTree, ofSpelling, quotedSection?_of_count_lt h]

/-- The section may have a quote in it, here between date and time, and there may be characters of
more than one byte around the quotes.  The section may also be empty, or there may be only one
quote, and then there is no timestamp. -/
theorem ofTree_timestamp_eq_of_inner_quote :
    let leap : Timestamp := ⟨⟨2016, 12, 31⟩, 23, 59, 59, 999999999, 0⟩
    let literal (text : String) : Tree := .node (.literal .timestamp) text []
    quote ∉ "é".toList ∧ quote ∉ "→".toList ∧
      ofTree (literal "é'2016-12-31'23:59:60Z'→") = .ok (timestamp leap) ∧
      ofTree (literal "''") = .error (.malformedTimestamp "") ∧
      "2016'→".toList.count quote < 2 ∧
      ofTree (literal "2016'→") = .error (.malformedTimestamp "2016'→") ∧
      cutSection? "é'2016-12-31'23:59:60Z'→" = some (some "2016-12-31'23:59:60Z") := by
  intro leap literal
  obtain ⟨henclosed, hfew, hcut⟩ := ofTree_timestamp_eq
  have hbefore : quote ∉ "é".toList := by decide +kernel
  have hafter : quote ∉ "→".toList := by decide +kernel
  have hone : "2016'→".toList.count quote < 2 := by decide +kernel
  have hleap : readTimestamp "2016-12-31'23:59:60Z" = .ok leap := by decide +kernel
  have hempty : readTimestamp "" = .error (.malformedTimestamp "") := by decide +kernel
  refine ⟨hbefore, hafter, ?_, ?_, hone, hfew _ [] hone, ?_⟩
  · have hresult := (henclosed "é" "2016-12-31'23:59:60Z" "→" [] hbefore hafter).1
    rw [hleap] at hresult
    exact hresult
  · have hresult := (henclosed "" "" "" [] (by decide) (by decide)).1
    rw [hempty] at hresult
    exact hresult
  · rw [hcut]
    decide +kernel

end Literal

end WhereClause
