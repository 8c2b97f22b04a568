import WhereClause.Proofs.Json.Layout

/-!
# Reading JSON texts

A reader that allows `limit` arrays and objects around each other reads no value that nests deeper
(`Json.nesting_le_of_read?`), whatever the text: what it has read of the arrays and objects that are
open always fits below them (`State.Fits`).

Conversely it reads back the text of a value without numbers, if the value does not nest deeper, and
refuses it otherwise (`Json.read?_compact`, `Json.read?_indented`).
-/

namespace WhereClause

namespace Json

variable {limit : Nat}

/-! ## Nesting of what is read -/

/-- The greatest nesting among the items of two lists together. -/
lemma nestingItems_append (vs ws : List Json) :
    nestingItems (vs ++ ws) = max (nestingItems vs) (nestingItems ws) := by
  induction vs with
  | nil => simp [nestingItems]
  | cons v vs ih => rw [List.cons_append, nestingItems, nestingItems, ih, Nat.max_assoc]

/-- The order of items does not matter for their nesting. -/
lemma nestingItems_reverse (vs : List Json) : nestingItems vs.reverse = nestingItems vs := by
  induction vs with
  | nil => rfl
  | cons v vs ih =>
    rw [List.reverse_cons, nestingItems_append, ih, Nat.max_comm]
    simp [nestingItems]

/-- Items that do not nest deeper than a bound do not do so together. -/
lemma nestingItems_le {vs : List Json} {n : Nat} (h : ∀ v ∈ vs, v.nesting ≤ n) :
    nestingItems vs ≤ n := by
  induction vs with
  | nil => exact Nat.zero_le n
  | cons v vs ih =>
    obtain ⟨hv, hvs⟩ := List.forall_mem_cons.mp h
    exact Nat.max_le.mpr ⟨hv, ih hvs⟩

/-- Members nest like their values. -/
lemma nestingMembers_eq (ms : List (String × Json)) :
    nestingMembers ms = nestingItems (ms.map Prod.snd) := by
  induction ms with
  | nil => rfl
  | cons m ms ih => rw [nestingMembers, ih, List.map_cons, nestingItems]

/-- The greatest nesting among the members of two lists together. -/
lemma nestingMembers_append (ms ns : List (String × Json)) :
    nestingMembers (ms ++ ns) = max (nestingMembers ms) (nestingMembers ns) := by
  simp only [nestingMembers_eq, List.map_append, nestingItems_append]

/-- The order of members does not matter for their nesting. -/
lemma nestingMembers_reverse (ms : List (String × Json)) :
    nestingMembers ms.reverse = nestingMembers ms := by
  rw [nestingMembers_eq, nestingMembers_eq, List.map_reverse, nestingItems_reverse]

/-- The greatest nesting among what was read of an open array or object. -/
def Frame.nesting : Frame → Nat
  | array items => nestingItems items
  | object members _ => nestingMembers members

/-- What was read of the open arrays and objects nests so little that together with those around
it the limit is not exceeded. -/
def FitsStack (limit : Nat) : List Frame → Prop
  | [] => True
  | frame :: stack => frame.nesting + stack.length + 1 ≤ limit ∧ FitsStack limit stack

/-- So many arrays and objects may be open. -/
lemma length_le_of_fitsStack {stack : List Frame} (h : FitsStack limit stack) :
    stack.length ≤ limit := by
  cases stack with
  | nil => exact Nat.zero_le limit
  | cons frame stack =>
    have hframe := h.1
    rw [List.length_cons]
    omega

namespace State

/-- What was read so far does not exceed the limit. -/
def Fits (limit : Nat) : State → Prop
  | value stack => FitsStack limit stack
  | firstItem stack => FitsStack limit (.array [] :: stack)
  | afterItem items stack => FitsStack limit (.array items :: stack)
  | firstKey stack => FitsStack limit (.object [] "" :: stack)
  | key members stack | afterMember members stack => FitsStack limit (.object members "" :: stack)
  | colon members k stack => FitsStack limit (.object members k :: stack)
  | finished v => v.nesting ≤ limit

/-- A value that fits into the innermost open array or object may be completed there. -/
lemma fits_complete {v : Json} {stack : List Frame} (hv : v.nesting + stack.length ≤ limit)
    (h : FitsStack limit stack) : (complete v stack).Fits limit := by
  match stack with
  | [] => exact hv
  | .array items :: stack | .object members k :: stack =>
    obtain ⟨hframe, hstack⟩ := h
    refine ⟨?_, hstack⟩
    simp only [Frame.nesting, nestingItems, nestingMembers, List.length_cons] at hframe hv ⊢
    omega

/-- Closing an array makes it an item of what is open around it. -/
lemma fits_complete_array (items : List Json) {stack : List Frame}
    (h : FitsStack limit (.array items :: stack)) :
    (complete (.array items.reverse) stack).Fits limit := by
  obtain ⟨hframe, hstack⟩ := h
  refine fits_complete ?_ hstack
  rw [nesting, nestingItems_reverse]
  rw [Frame.nesting] at hframe
  omega

/-- Closing an object makes it an item of what is open around it. -/
lemma fits_complete_object (members : List (String × Json)) {k : String} {stack : List Frame}
    (h : FitsStack limit (.object members k :: stack)) :
    (complete (.object members.reverse) stack).Fits limit := by
  obtain ⟨hframe, hstack⟩ := h
  refine fits_complete ?_ hstack
  rw [nesting, nestingMembers_reverse]
  rw [Frame.nesting] at hframe
  omega

/-- The first token of a value opens an array or object only if it fits. -/
lemma fits_begin {stack : List Frame} (h : FitsStack limit stack) {t : Token} {s : State}
    (hs : begin limit stack t = some s) : s.Fits limit := by
  have hscalar {v : Json} (hv : v.nesting = 0) : (complete v stack).Fits limit :=
    fits_complete (by rw [hv, Nat.zero_add]; exact length_le_of_fitsStack h) h
  have hopen {frame : Frame} (hframe : frame.nesting = 0) (hlt : stack.length < limit) :
      FitsStack limit (frame :: stack) := ⟨by omega, h⟩
  cases t with
  | null | boolean _ | number _ | string _ =>
    obtain rfl := Option.some.inj hs
    exact hscalar rfl
  | openBracket | openBrace =>
    obtain ⟨hlt, hs⟩ := Option.ite_none_right_eq_some.mp hs
    obtain rfl := Option.some.inj hs
    exact hopen rfl hlt
  | closeBracket | closeBrace | colon | comma => exact nomatch hs

/-- One more token keeps within the limit. -/
lemma fits_step {s s' : State} (h : s.Fits limit) {t : Token} (hs : step limit s t = some s') :
    s'.Fits limit := by
  unfold step at hs
  -- A value begins in the first and the third case, and one ends where brackets are closed; in the
  -- other cases the same arrays and objects are open before and after the token.
  split at hs
  · exact fits_begin h hs
  · obtain rfl := Option.some.inj hs
    exact fits_complete_array [] h
  · exact fits_begin h hs
  · obtain rfl := Option.some.inj hs
    exact h
  · obtain rfl := Option.some.inj hs
    exact fits_complete_array _ h
  · obtain rfl := Option.some.inj hs
    exact fits_complete_object [] h
  · obtain rfl := Option.some.inj hs
    exact h
  · obtain rfl := Option.some.inj hs
    exact h
  · obtain rfl := Option.some.inj hs
    exact h
  · obtain rfl := Option.some.inj hs
    exact h
  · obtain rfl := Option.some.inj hs
    exact fits_complete_object _ h
  · exact nomatch hs

/-- Any number of further tokens keep within the limit. -/
lemma fits_foldlM {s s' : State} (h : s.Fits limit) {ts : List Token}
    (hs : ts.foldlM (step limit) s = some s') : s'.Fits limit := by
  induction ts generalizing s with
  | nil =>
    obtain rfl := Option.some.inj hs
    exact h
  | cons t ts ih =>
    rw [List.foldlM_cons] at hs
    obtain ⟨next, hnext, hs⟩ := Option.bind_eq_some_iff.mp hs
    exact ih (fits_step h hnext) hs

end State

/-- No value is read that nests deeper than the reader allows. -/
theorem nesting_le_of_read? {text : String} {v : Json} (h : read? limit text = some v) :
    v.nesting ≤ limit := by
  obtain ⟨ts, -, hread⟩ := Option.bind_eq_some_iff.mp h
  unfold ofTokens? at hread
  split at hread
  · rename_i w hrun
    obtain rfl := Option.some.inj hread
    exact State.fits_foldlM (s := .value []) trivial hrun
  · exact nomatch hread

/-! ## Reading what was written -/

/-- An array may be opened while fewer arrays and objects than the limit are open. -/
lemma foldlM_openBracket (stack : List Frame) (ts : List Token) :
    (.openBracket :: ts).foldlM (State.step limit) (.value stack) =
      if stack.length < limit then ts.foldlM (State.step limit) (.firstItem stack) else none := by
  have hstep : State.step limit (.value stack) .openBracket =
      if stack.length < limit then some (.firstItem stack) else none := rfl
  rw [List.foldlM_cons, hstep]
  split_ifs <;> rfl

/-- An object may be opened while fewer arrays and objects than the limit are open. -/
lemma foldlM_openBrace (stack : List Frame) (ts : List Token) :
    (.openBrace :: ts).foldlM (State.step limit) (.value stack) =
      if stack.length < limit then ts.foldlM (State.step limit) (.firstKey stack) else none := by
  have hstep : State.step limit (.value stack) .openBrace =
      if stack.length < limit then some (.firstKey stack) else none := rfl
  rw [List.foldlM_cons, hstep]
  split_ifs <;> rfl

/-- The tokens of an item are read directly after an opening bracket like anywhere else. -/
lemma foldlM_firstItem (v : Json) (stack : List Frame) (rest : List Token) :
    (tokensThen v rest).foldlM (State.step limit) (.firstItem stack) =
      (tokensThen v rest).foldlM (State.step limit) (.value (.array [] :: stack)) := by
  match v with
  | null | boolean _ | number _ | string _ => rfl
  | array [] | array (_ :: _) | object [] | object (_ :: _) => rfl

mutual

/-- The tokens of a value are read completely if the value fits into the arrays and objects around
it, and otherwise they are refused. -/
lemma foldlM_tokensThen (v : Json) (stack : List Frame) (hstack : stack.length ≤ limit)
    (rest : List Token) :
    (tokensThen v rest).foldlM (State.step limit) (.value stack) =
      if v.nesting + stack.length ≤ limit then
        rest.foldlM (State.step limit) (State.complete v stack)
      else none := by
  match v with
  | null | boolean _ | number _ | string _ =>
    have hfits : 0 + stack.length ≤ limit := by omega
    exact (if_pos hfits).symm
  | array [] =>
    rw [tokensThen, foldlM_openBracket]
    refine if_congr ?_ rfl rfl
    rw [nesting, nestingItems]
    omega
  | object [] =>
    rw [tokensThen, foldlM_openBrace]
    refine if_congr ?_ rfl rfl
    rw [nesting, nestingMembers]
    omega
  | array (v :: vs) =>
    rw [tokensThen, foldlM_openBracket, foldlM_firstItem]
    by_cases hlt : stack.length < limit
    · have hitems : (itemsThen vs (.closeBracket :: rest)).foldlM (State.step limit)
          (.afterItem [v] stack) =
          if nestingItems vs + stack.length + 1 ≤ limit then
            rest.foldlM (State.step limit) (State.complete (.array (v :: vs)) stack)
          else none := by
        rw [foldlM_itemsThen vs hlt, List.foldlM_cons]
        simp [State.step]
      rw [if_pos hlt, foldlM_tokensThen v (.array [] :: stack) hlt, State.complete, hitems,
        ← ite_and]
      refine if_congr ?_ rfl rfl
      rw [nesting, nestingItems, List.length_cons]
      omega
    · rw [if_neg hlt, if_neg (by rw [nesting]; omega)]
  | object ((k, v) :: ms) =>
    have hkey (ts : List Token) : (.string k :: .colon :: ts).foldlM (State.step limit)
        (.firstKey stack) = ts.foldlM (State.step limit) (.value (.object [] k :: stack)) := rfl
    rw [tokensThen, foldlM_openBrace, hkey]
    by_cases hlt : stack.length < limit
    · have hmembers : (membersThen ms (.closeBrace :: rest)).foldlM (State.step limit)
          (.afterMember [(k, v)] stack) =
          if nestingMembers ms + stack.length + 1 ≤ limit then
            rest.foldlM (State.step limit) (State.complete (.object ((k, v) :: ms)) stack)
          else none := by
        rw [foldlM_membersThen ms hlt, List.foldlM_cons]
        simp [State.step]
      rw [if_pos hlt, foldlM_tokensThen v (.object [] k :: stack) hlt, State.complete,
        hmembers, ← ite_and]
      refine if_congr ?_ rfl rfl
      rw [nesting, nestingMembers, List.length_cons]
      omega
    · rw [if_neg hlt, if_neg (by rw [nesting]; omega)]

/-- Further items are read completely if they fit into the array. -/
lemma foldlM_itemsThen (vs : List Json) {items : List Json} {stack : List Frame}
    (hstack : stack.length < limit) (rest : List Token) :
    (itemsThen vs rest).foldlM (State.step limit) (.afterItem items stack) =
      if nestingItems vs + stack.length + 1 ≤ limit then
        rest.foldlM (State.step limit) (.afterItem (vs.reverse ++ items) stack)
      else none := by
  match vs with
  | [] =>
    refine Eq.symm (if_pos ?_)
    rw [nestingItems]
    omega
  | v :: vs =>
    have hcomma : State.step limit (.afterItem items stack) .comma =
        some (.value (.array items :: stack)) := rfl
    rw [itemsThen, List.foldlM_cons, hcomma, Option.bind_eq_bind, Option.bind_some,
      foldlM_tokensThen v (.array items :: stack) hstack, State.complete,
      foldlM_itemsThen vs hstack, ← ite_and, List.reverse_cons, List.append_assoc,
      List.singleton_append]
    refine if_congr ?_ rfl rfl
    rw [nestingItems, List.length_cons]
    omega

/-- Further members are read completely if they fit into the object. -/
lemma foldlM_membersThen (ms : List (String × Json)) {members : List (String × Json)}
    {stack : List Frame} (hstack : stack.length < limit) (rest : List Token) :
    (membersThen ms rest).foldlM (State.step limit) (.afterMember members stack) =
      if nestingMembers ms + stack.length + 1 ≤ limit then
        rest.foldlM (State.step limit) (.afterMember (ms.reverse ++ members) stack)
      else none := by
  match ms with
  | [] =>
    refine Eq.symm (if_pos ?_)
    rw [nestingMembers]
    omega
  | (k, v) :: ms =>
    have hkey (ts : List Token) : (.comma :: .string k :: .colon :: ts).foldlM (State.step limit)
        (.afterMember members stack) =
        ts.foldlM (State.step limit) (.value (.object members k :: stack)) := rfl
    rw [membersThen, hkey, foldlM_tokensThen v (.object members k :: stack) hstack,
      State.complete, foldlM_membersThen ms hstack, ← ite_and, List.reverse_cons,
      List.append_assoc, List.singleton_append]
    refine if_congr ?_ rfl rfl
    rw [nestingMembers, List.length_cons]
    omega

end

/-- The tokens of a value are read as this value if it does not nest deeper than the reader allows,
and otherwise they are refused. -/
theorem ofTokens?_tokens (limit : Nat) (v : Json) :
    ofTokens? limit v.tokens = if v.nesting ≤ limit then some v else none := by
  rw [ofTokens?, tokens, foldlM_tokensThen v [] (Nat.zero_le limit), List.length_nil,
    Nat.add_zero]
  split_ifs <;> rfl

/-- The text of a value without numbers is read as this value if it does not nest deeper than the
reader allows, and otherwise it is refused. -/
theorem read?_compact (limit : Nat) {v : Json} (h : v.NumberFree) :
    read? limit v.compact = if v.nesting ≤ limit then some v else none := by
  rw [read?, scan?_compact h, Option.bind_eq_bind, Option.bind_some]
  exact ofTokens?_tokens limit v

/-- The text of a value without numbers on indented lines is read as this value as well, under the
same condition. -/
theorem read?_indented (limit : Nat) {v : Json} (h : v.NumberFree) :
    read? limit v.indented = if v.nesting ≤ limit then some v else none := by
  rw [read?, scan?_indented h, Option.bind_eq_bind, Option.bind_some]
  exact ofTokens?_tokens limit v

end Json

end WhereClause
