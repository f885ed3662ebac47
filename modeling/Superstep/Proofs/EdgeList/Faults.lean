import Mathlib.Order.Bounds.Defs
import Superstep.Proofs.EdgeList.Grammar
import Superstep.Proofs.Graph.Requests

/-!
# Faults of edge lists

A line may break a rule that concerns it alone (`Line.Breaks`). If no line does, the text says
something (`Reads`), but the graph may not take the relationship of a line (`Entry.Refused`): that
depends on the node count, which a later line may give, and on the first relationship.

Result: `parse_error_least`. The line that is reported is the first that breaks a rule, wherever the
other faults of the text stand; without such a line it is the first whose relationship is refused.
-/

namespace Superstep.EdgeList

open Decimal (Denotes)

variable {W : Type} [Weight W]

/-! ## Rules of a line -/

/-- Fields break a rule: there are not two or three, an id is no 64-bit number or the largest one,
    or a weight is no number. -/
inductive Entry.Breaks (W : Type) [Weight W] : List (List Char) → LineFault → Prop where
  | fieldCount {fields : List (List Char)} (h : fields.length ≠ 2) (h' : fields.length ≠ 3) :
      Breaks W fields (.fieldCount fields.length)
  | nodeId {s t field : List Char} {rest : List (List Char)} (hrest : rest.length ≤ 1)
      (hfield : field = s ∨ field = t) (hid : ∀ id : NodeId, ¬ Denotes field id.index)
      (why : Decimal.Fault) : Breaks W (s :: t :: rest) (.nodeId (String.ofList field) why)
  | weight {s t w : List Char} (hw : (Weight.read? w : Option W) = none) :
      Breaks W [s, t, w] (.weight (String.ofList w))
  | largest {s t field : List Char} {rest : List (List Char)} {id : NodeId}
      (hrest : rest.length ≤ 1) (hfield : field = s ∨ field = t) (hid : Denotes field id.index)
      (hlargest : id.index = wordLimit - 1) : Breaks W (s :: t :: rest) (.idOutOfRange id)

/-- A line breaks a rule that concerns it alone: it is a header whose count is no 64-bit number, or
    it is neither blank nor a comment and its fields break a rule. -/
inductive Line.Breaks (W : Type) [Weight W] (line : List Char) : LineFault → Prop where
  | header {comment count : List Char} (h : IsComment line comment)
      (hheader : Text.trim comment = header ++ count)
      (hcount : ∀ n : UInt64, ¬ Denotes (Text.trim count) n.toNat) (why : Decimal.Fault) :
      Breaks W line (.nodeCount (String.ofList (Text.trim count)) why)
  | entry {fault : LineFault} (h : ∀ comment, ¬ IsComment line comment)
      (hblank : ¬ ∀ c ∈ line, Text.isBlank c) (hfields : Entry.Breaks W (Text.fields line) fault) :
      Breaks W line fault

omit [Weight W] in
theorem readUInt64_error {cs : List Char} {why : Decimal.Fault}
    (h : Decimal.readUInt64 cs = .error why) (n : UInt64) : ¬ Denotes cs n.toNat := fun hn => by
  rw [Decimal.readUInt64_eq_ok_iff.2 hn] at h
  cases h

theorem readId_eq_error {field : List Char} {fault : LineFault} (h : readId field = .error fault) :
    ∃ why, fault = .nodeId (String.ofList field) why ∧ ∀ id : NodeId, ¬ Denotes field id.index := by
  unfold readId at h
  split at h
  · cases h
  · next why hread =>
    exact ⟨why, (Except.error.inj h).symm, fun id => readUInt64_error hread id.val⟩

theorem readWeight_eq_error {rest : Option (List Char)} {fault : LineFault}
    (h : (readWeight rest : Except LineFault (Option W)) = .error fault) :
    ∃ w, rest = some w ∧ (Weight.read? w : Option W) = none ∧
      fault = .weight (String.ofList w) := by
  cases rest with
  | none => cases h
  | some w =>
    unfold readWeight at h
    dsimp only at h
    cases hread : (Weight.read? w : Option W) with
    | some weight =>
      rw [hread] at h
      cases h
    | none =>
      rw [hread] at h
      exact ⟨w, rfl, hread, (Except.error.inj h).symm⟩

/-- What is not read of two or three fields breaks a rule. -/
theorem Entry.breaks_of_fields {s t : List Char} (rest : Option (List Char)) {fault : LineFault}
    (h : (readEntry (s :: t :: rest.toList) : Except LineFault (Entry W)) = .error fault) :
    Entry.Breaks W (s :: t :: rest.toList) fault := by
  have hrest : rest.toList.length ≤ 1 := Option.length_toList_le
  rw [readEntry_eq] at h
  rcases error_of_bind_eq_error h with hs | ⟨source, hs, h⟩
  · obtain ⟨why, rfl, hid⟩ := readId_eq_error hs
    exact .nodeId hrest (.inl rfl) hid why
  rcases error_of_bind_eq_error h with ht | ⟨target, ht, h⟩
  · obtain ⟨why, rfl, hid⟩ := readId_eq_error ht
    exact .nodeId hrest (.inr rfl) hid why
  rcases error_of_bind_eq_error h with hw | ⟨weight, -, h⟩
  · obtain ⟨w, rfl, hread, rfl⟩ := readWeight_eq_error hw
    exact .weight hread
  by_cases hlargest : (if source ≤ target then target else source).index + 1 = wordLimit
  · rw [if_pos hlargest] at h
    obtain rfl := Except.error.inj h
    by_cases hle : source ≤ target
    · rw [if_pos hle] at hlargest ⊢
      exact .largest hrest (.inr rfl) (readId_eq_ok_iff.1 ht) (by omega)
    · rw [if_neg hle] at hlargest ⊢
      exact .largest hrest (.inl rfl) (readId_eq_ok_iff.1 hs) (by omega)
  · rw [if_neg hlargest] at h
    cases h

theorem Entry.breaks_of_readEntry {fields : List (List Char)} {fault : LineFault}
    (h : (readEntry fields : Except LineFault (Entry W)) = .error fault) :
    Entry.Breaks W fields fault := by
  match fields with
  | [s, t] => exact breaks_of_fields none h
  | [s, t, w] => exact breaks_of_fields (some w) h
  | [] | [_] | _ :: _ :: _ :: _ :: _ =>
    obtain rfl := Except.error.inj h
    exact .fieldCount (by simp) (by simp)

/-- A comment that is not read is a header whose count is no number. -/
theorem Line.breaks_of_readComment {line comment : List Char} {fault : LineFault}
    (h : IsComment line comment)
    (hread : (readComment comment : Except LineFault (Line W)) = .error fault) :
    Line.Breaks W line fault := by
  unfold readComment at hread
  cases hafter : Text.after? EdgeList.header (Text.trim comment) with
  | none =>
    rw [hafter] at hread
    cases hread
  | some rest =>
    rw [hafter] at hread
    dsimp only at hread
    cases hcount : Decimal.readUInt64 (Text.trim rest) with
    | ok n =>
      rw [hcount] at hread
      cases hread
    | error why =>
      rw [hcount] at hread
      obtain rfl := Except.error.inj hread
      exact .header h (Text.after?_eq_some_iff.1 hafter) (readUInt64_error hcount) why

/-- A line that is not read breaks a rule. -/
theorem Line.breaks_of_read {line : List Char} {fault : LineFault}
    (h : (Line.read line : Except LineFault (Line W)) = .error fault) :
    Line.Breaks W line fault := by
  unfold Line.read at h
  cases htrim : Text.trim line with
  | nil =>
    rw [htrim] at h
    cases h
  | cons c cs =>
    have hblank : ¬ ∀ c ∈ line, Text.isBlank c := by
      rw [← Text.trim_eq_nil_iff, htrim]
      exact List.cons_ne_nil _ _
    rw [htrim] at h
    dsimp only at h
    by_cases hc : isCommentMark c
    · rw [if_pos hc] at h
      exact breaks_of_readComment ⟨c, by simpa [isCommentMark] using hc, htrim⟩ h
    · rw [if_neg hc, ← htrim, Text.fields_trim] at h
      cases hentry : (readEntry (Text.fields line) : Except LineFault (Entry W)) with
      | ok e =>
        rw [hentry] at h
        cases h
      | error fault' =>
        rw [hentry] at h
        obtain rfl := Except.error.inj (h : Except.error fault' = .error fault)
        refine .entry ?_ hblank (Entry.breaks_of_readEntry hentry)
        rintro comment ⟨mark, hmark, hline⟩
        obtain rfl := (List.cons.inj (htrim.symm.trans hline)).1
        exact hc (by simpa [isCommentMark] using hmark)

/-! What breaks a rule says nothing. -/

theorem denotes_unique {field : List Char} {id id' : NodeId} (h : Denotes field id.index)
    (h' : Denotes field id'.index) : id = id' :=
  Except.ok.inj ((readId_eq_ok_iff.2 h).symm.trans (readId_eq_ok_iff.2 h'))

theorem Entry.Says.isId {e : Entry W} {s t : List Char} {rest : List (List Char)}
    (h : e.Says (s :: t :: rest)) : IsId s e.source ∧ IsId t e.target := by
  cases h with
  | unweighted hs ht => exact ⟨hs, ht⟩
  | weighted hs ht _ => exact ⟨hs, ht⟩

/-- Fields that break a rule give no relationship. -/
theorem Entry.Breaks.not_says {fields : List (List Char)} {fault : LineFault}
    (h : Entry.Breaks W fields fault) (e : Entry W) : ¬ e.Says fields := by
  intro hsays
  cases h with
  | fieldCount h h' =>
    cases hsays with
    | unweighted => exact h rfl
    | weighted => exact h' rfl
  | nodeId _ hfield hid =>
    rcases hfield with rfl | rfl
    · exact hid _ hsays.isId.1.1
    · exact hid _ hsays.isId.2.1
  | weight hw =>
    cases hsays with
    | weighted _ _ hw' => cases hw.symm.trans hw'
  | largest _ hfield hid hlargest =>
    rcases hfield with rfl | rfl
    · obtain ⟨hid', hlt⟩ := hsays.isId.1
      rw [denotes_unique hid' hid] at hlt
      omega
    · obtain ⟨hid', hlt⟩ := hsays.isId.2
      rw [denotes_unique hid' hid] at hlt
      omega

/-- A line that breaks a rule says nothing. -/
theorem Line.Breaks.not_says {line : List Char} {fault : LineFault}
    (h : Line.Breaks W line fault) (said : Line W) : ¬ said.Says line := by
  intro hsays
  cases h with
  | header h hheader hcount =>
    cases hsays with
    | blank hblank => exact h.not_blank hblank
    | remark h' hno =>
      obtain rfl := h.unique h'
      exact hno ⟨_, hheader.symm⟩
    | header h' hheader' hcount' =>
      obtain rfl := h.unique h'
      obtain rfl := List.append_cancel_left (hheader.symm.trans hheader')
      exact hcount _ hcount'
    | entry hno => exact hno _ h
  | entry hno hblank hfields =>
    cases hsays with
    | blank h => exact hblank h
    | remark h => exact hno _ h
    | header h => exact hno _ h
    | entry _ hsays => exact hfields.not_says _ hsays

/-! ## The first line that breaks a rule -/

/-- The line with a number, counted from one, breaks a rule. -/
def BrokenAt (W : Type) [Weight W] (text : List Char) (number : Nat) (fault : LineFault) : Prop :=
  ∃ i line, number = i + 1 ∧ (Text.lines text)[i]? = some line ∧ Line.Breaks W line fault

/-- Lines are read up to the first that breaks a rule. -/
theorem Contents.readLines_eq_error {c : Contents W} {number : Nat} {lines : List (List Char)}
    {error : GraphError} (h : c.readLines number (lines.map some) = .error error) :
    ∃ before line after fault, lines = before ++ line :: after ∧
      (∀ l ∈ before, ∃ said : Line W, said.Says l) ∧ Line.Breaks W line fault ∧
        error = .parse (number + before.length) fault := by
  induction lines generalizing c number with
  | nil => cases h
  | cons line lines ih =>
    rw [List.map_cons, readLines] at h
    cases hread : (Line.read line : Except LineFault (Line W)) with
    | error fault =>
      rw [hread] at h
      obtain rfl := Except.error.inj h
      exact ⟨[], line, lines, fault, rfl, by simp, Line.breaks_of_read hread, rfl⟩
    | ok said =>
      rw [hread] at h
      obtain ⟨before, line', after, fault, rfl, hbefore, hbreaks, rfl⟩ := ih h
      refine ⟨line :: before, line', after, fault, rfl, ?_, hbreaks, ?_⟩
      · exact List.forall_mem_cons.2 ⟨⟨said, Line.read_eq_ok_iff.1 hread⟩, hbefore⟩
      · rw [List.length_cons, Nat.add_right_comm, Nat.add_assoc]

/-- The lines of a text are read up to the first that breaks a rule. -/
theorem first_broken {text : List Char} {error : GraphError}
    (h : (Contents.empty : Contents W).readLines 1 ((Text.lines text).map some) = .error error) :
    ∃ line fault, error = .parse line fault ∧ BrokenAt W text line fault ∧
      IsLeast {k | ∃ fault, BrokenAt W text k fault} line := by
  obtain ⟨before, line, after, fault, hlines, hbefore, hbreaks, rfl⟩ :=
    Contents.readLines_eq_error h
  have hbroken : BrokenAt W text (1 + before.length) fault :=
    ⟨before.length, line, Nat.add_comm _ _, by simp [hlines], hbreaks⟩
  refine ⟨_, fault, rfl, hbroken, ⟨fault, hbroken⟩, ?_⟩
  rintro k ⟨fault', i, line', rfl, hline', hbreaks'⟩
  by_contra hlt
  rw [hlines, List.getElem?_append_left (by omega)] at hline'
  obtain ⟨said, hsaid⟩ := hbefore line' (List.mem_of_getElem? hline')
  exact hbreaks'.not_says said hsaid

/-- A text says something exactly if no line breaks a rule. -/
theorem exists_reads_iff {text : List Char} :
    (∃ said : List (Line W), Reads text said) ↔ ∀ k fault, ¬ BrokenAt W text k fault := by
  constructor
  · rintro ⟨said, hreads⟩ k fault ⟨i, line, rfl, hline, hbreaks⟩
    obtain ⟨hi, rfl⟩ := List.getElem?_eq_some_iff.1 hline
    exact hbreaks.not_says _ ((List.forall₂_iff_get.1 hreads).2 i hi (hreads.length_eq ▸ hi))
  · intro h
    cases hread : (Contents.empty : Contents W).readLines 1 ((Text.lines text).map some) with
    | ok c =>
      obtain ⟨said, hsaid, -⟩ := Contents.readLines_eq_ok_iff.1 hread
      exact ⟨said, hsaid⟩
    | error error =>
      obtain ⟨line, fault, -, hbroken, -⟩ := first_broken hread
      exact (h line fault hbroken).elim

/-! ## The first relationship that is refused -/

/-- Why the graph that a text describes does not take a relationship: an end point is not below the
    node count, the weight is not finite, or only one of it and the first relationship has a
    weight. -/
inductive Entry.Refused (said : List (Line W)) (e : Entry W) : AddError → Prop where
  | endPoint {id : NodeId} (hid : id = e.source ∨ id = e.target) (h : nodesOf said ≤ id.index) :
      Refused said e (.nodeNotFound id (nodesOf said).toUInt64)
  | notFinite {w : W} (hw : e.weight = some w) (h : ¬ Weight.isFinite w) :
      Refused said e
        (.invalid (.weightNotFinite e.source e.target (String.ofList (Weight.digits w))))
  | missing {first : Entry W} (hfirst : (entries said).head? = some first)
      (hweighted : first.weight.isSome) (h : e.weight = none) :
      Refused said e (.invalid (.weightMissing e.source e.target))
  | unexpected {first : Entry W} (hfirst : (entries said).head? = some first)
      (hunweighted : first.weight = none) (h : e.weight.isSome) :
      Refused said e (.invalid (.weightUnexpected e.source e.target))

/-- The line with a number, counted from one, gives a relationship that is refused. -/
def RefusedAt (said : List (Line W)) (number : Nat) (refusal : AddError) : Prop :=
  ∃ i e, number = i + 1 ∧ said[i]? = some (.entry e) ∧ e.Refused said refusal

/-- The relationships of lines with the numbers of the lines, the first of which is given. -/
def numbered (number : Nat) (said : List (Line W)) : List (Nat × Entry W) :=
  (said.zipIdx number).filterMap fun x => Option.map (x.2, ·) <| Line.entry? x.1

section Numbered

omit [Weight W]

variable {number : Nat} {said : List (Line W)}

theorem Contents.entries_takeAll_eq (c : Contents W) (number : Nat) (said : List (Line W)) :
    (c.takeAll number said).entries.toList = c.entries.toList ++ numbered number said := by
  induction said generalizing c number with
  | nil => simp [takeAll, numbered]
  | cons what said ih =>
    rw [takeAll, ih, numbered, numbered, List.zipIdx_cons, List.filterMap_cons]
    cases what <;> simp [take, Line.entry?]

theorem mem_numbered_iff {k : Nat} {e : Entry W} :
    (k, e) ∈ numbered number said ↔ ∃ i, k = number + i ∧ said[i]? = some (.entry e) := by
  simp only [numbered, List.mem_filterMap, Option.map_eq_some_iff, Prod.exists, Prod.mk.injEq,
    List.mk_mem_zipIdx_iff_le_and_getElem?_sub]
  constructor
  · rintro ⟨what, k', ⟨hle, hwhat⟩, e', he', rfl, rfl⟩
    cases what with
    | nothing => cases he'
    | nodeCount n => cases he'
    | entry e =>
      obtain rfl := Option.some.inj he'
      exact ⟨k' - number, by omega, hwhat⟩
  · rintro ⟨i, rfl, hi⟩
    exact ⟨.entry e, number + i, ⟨by omega, by simpa using hi⟩, e, rfl, rfl, rfl⟩

theorem pairwise_numbered (number : Nat) (said : List (Line W)) :
    (numbered number said).Pairwise fun x y => x.1 < y.1 := by
  have hzip : (said.zipIdx number).Pairwise fun x y => x.2 < y.2 := by
    rw [← List.pairwise_map (f := Prod.snd) (R := (· < ·)), List.zipIdx_map_snd]
    exact List.pairwise_lt_range' ..
  refine hzip.filterMap _ fun x y hlt b hb b' hb' => ?_
  obtain ⟨e, -, rfl⟩ := Option.map_eq_some_iff.1 hb
  obtain ⟨e', -, rfl⟩ := Option.map_eq_some_iff.1 hb'
  exact hlt

theorem map_numbered (number : Nat) (said : List (Line W)) :
    (numbered number said).map Prod.snd = entries said := by
  have hfst : entries said = ((said.zipIdx number).map Prod.fst).filterMap Line.entry? := by
    rw [List.zipIdx_map_fst, entries]
  rw [hfst, numbered, List.map_filterMap, List.filterMap_map]
  simp

theorem map_arc (es : List (Nat × Entry W)) :
    (es.map fun x => x.2.arc) = (es.map Prod.snd).map Entry.arc := by
  rw [List.map_map]
  rfl

end Numbered

section Adding

variable {said : List (Line W)} {b b' : Builder W} {error : GraphError}

/-- Relationships of lines are added up to the first that the builder refuses. -/
theorem Contents.addEntries_eq_error (h : b.Sound) {es : List (Nat × Entry W)}
    (hadd : Contents.addEntries b es = .error error) :
    ∃ before number e after refusal b', es = before ++ (number, e) :: after ∧
      b.addAll (before.map fun x => x.2.arc) = .ok b' ∧
      b'.Refuses e.source e.target e.weight refusal ∧ error = .parse number (.refused refusal) := by
  induction es generalizing b with
  | nil => cases hadd
  | cons x es ih =>
    obtain ⟨number, e⟩ := x
    rw [Contents.addEntries] at hadd
    cases htaken : b.addEither e.source e.target e.weight with
    | error refusal =>
      rw [htaken] at hadd
      obtain rfl := Except.error.inj hadd
      exact ⟨[], number, e, es, refusal, b, rfl, rfl, (Builder.addEither_eq_error_iff h).1 htaken,
        rfl⟩
    | ok b₁ =>
      rw [htaken] at hadd
      obtain ⟨haccepts, rfl⟩ := (Builder.addEither_eq_ok_iff h).1 htaken
      obtain ⟨before, number', e', after, refusal, b', rfl, hall, hr, rfl⟩ :=
        ih (haccepts.sound_push h) hadd
      refine ⟨(number, e) :: before, number', e', after, refusal, b', rfl, ?_, hr, rfl⟩
      exact (Builder.addAll_cons_eq_ok_iff h).2 ⟨haccepts, hall⟩

/-- A builder that has the nodes of a text and none of its relationships yet. -/
structure Prepared (said : List (Line W)) (b : Builder W) : Prop where
  sound : b.Sound
  empty : b.size = 0
  nodes : b.nodeCount.toNat = nodesOf said

/-- Relationships that the builder of a text takes are not refused. -/
theorem Prepared.not_refused (h : Prepared said b) {es : List (Entry W)}
    (htaken : es <+: entries said) (hall : b.addAll (es.map Entry.arc) = .ok b') {e : Entry W}
    (he : e ∈ es) (refusal : AddError) : ¬ e.Refused said refusal := by
  have hfirst : ∀ first, (entries said).head? = some first → first ∈ es := by
    obtain ⟨rest, hrest⟩ := htaken
    intro first hhead
    rw [← hrest, List.head?_append_of_ne_nil _ (List.ne_nil_of_mem he)] at hhead
    exact List.mem_of_head? hhead
  obtain ⟨hnodes, hfinite, huniform⟩ :=
    (Builder.addAll_isOk_iff_acceptable h.sound h.empty).1 ⟨b', hall⟩
  simp only [List.forall_mem_map, Entry.arc] at hnodes hfinite huniform
  intro hr
  cases hr with
  | endPoint hid hle =>
    have hlt := hnodes e he
    rw [UInt64.lt_iff_toNat_lt, UInt64.lt_iff_toNat_lt, h.nodes] at hlt
    rcases hid with rfl | rfl
    · exact absurd hlt.1 (Nat.not_lt.2 hle)
    · exact absurd hlt.2 (Nat.not_lt.2 hle)
  | notFinite hw hnot => exact hnot (hfinite e he _ hw)
  | missing hhead hweighted hnone =>
    rcases huniform with hsome | hunweighted
    · simpa [hnone] using hsome e he
    · simp [hunweighted _ (hfirst _ hhead)] at hweighted
  | unexpected hhead hunweighted hsome =>
    rcases huniform with hweighted | hnone
    · simpa [hunweighted] using hweighted _ (hfirst _ hhead)
    · simp [hnone e he] at hsome

section Refusal

variable {before after : List (Entry W)} {e : Entry W}

/-- What does not agree with the relationships that the builder of a text has taken, does not agree
    with the first relationship of the text. -/
theorem Prepared.exists_first (h : Prepared said b) (hentries : entries said = before ++ e :: after)
    (hall : b.addAll (before.map Entry.arc) = .ok b') {weight : Option W}
    (hagrees : ¬ b'.Agrees weight) :
    ∃ first, (entries said).head? = some first ∧ first.weight.isSome ≠ weight.isSome := by
  cases before with
  | nil =>
    obtain rfl := Except.ok.inj hall
    exact (hagrees (.inl h.empty)).elim
  | cons first rest =>
    refine ⟨first, by rw [hentries]; rfl, fun hsame => hagrees (.inr ?_)⟩
    have hweights := (Builder.added_of_addAll h.sound hall).weights
    rw [h.sound.weights_of_empty h.empty, Option.isSome_none, Bool.false_or] at hweights
    have huniform := ((Builder.addAll_isOk_iff_acceptable h.sound h.empty).1 ⟨b', hall⟩).uniform
    simp only [List.forall_mem_map, Entry.arc] at huniform
    rw [hweights, ← hsame, Bool.eq_iff_iff, List.any_eq_true]
    rcases huniform with hsome | hnone
    · have hhead := hsome first List.mem_cons_self
      exact iff_of_true ⟨first.arc, List.mem_map_of_mem List.mem_cons_self, hhead⟩ hhead
    · refine iff_of_false ?_ (by simp [hnone first List.mem_cons_self])
      rintro ⟨x, hx, hw⟩
      obtain ⟨e', he', rfl⟩ := List.mem_map.1 hx
      simp [Entry.arc, hnone e' he'] at hw

/-- What the builder of a text refuses after the relationships before it, is refused. -/
theorem Prepared.refused (h : Prepared said b) (hentries : entries said = before ++ e :: after)
    (hall : b.addAll (before.map Entry.arc) = .ok b') {refusal : AddError}
    (hr : b'.Refuses e.source e.target e.weight refusal) : e.Refused said refusal := by
  have hcount : b'.nodeCount = b.nodeCount := (Builder.added_of_addAll h.sound hall).nodeCount
  have hnodes : b'.nodeCount = (nodesOf said).toUInt64 := by
    rw [hcount, ← h.nodes]
    exact UInt64.ofNat_toNat.symm
  have hle : ∀ id : NodeId, ¬ id.val < b'.nodeCount → nodesOf said ≤ id.index := fun id hid => by
    rw [hcount, UInt64.lt_iff_toNat_lt, h.nodes] at hid
    exact Nat.not_lt.1 hid
  obtain ⟨source, target, weight⟩ := e
  cases hr with
  | source hid =>
    rw [hnodes]
    exact .endPoint (.inl rfl) (hle _ hid)
  | target _ hid =>
    rw [hnodes]
    exact .endPoint (.inr rfl) (hle _ hid)
  | notFinite _ _ hfinite => exact .notFinite rfl hfinite
  | missing _ _ hagrees =>
    obtain ⟨first, hhead, hkind⟩ := h.exists_first hentries hall hagrees
    exact .missing hhead (Option.isSome_iff_ne_none.2 (by simpa using hkind)) rfl
  | unexpected _ _ _ hagrees =>
    obtain ⟨first, hhead, hkind⟩ := h.exists_first hentries hall hagrees
    exact .unexpected hhead (by simpa using hkind) rfl

end Refusal

/-- The relationships of a text are added up to the first that is refused. -/
theorem Prepared.first_refused (h : Prepared said b)
    (hadd : Contents.addEntries b (numbered 1 said) = .error error) :
    ∃ line refusal, error = .parse line (.refused refusal) ∧ RefusedAt said line refusal ∧
      IsLeast {k | ∃ refusal, RefusedAt said k refusal} line := by
  obtain ⟨before, line, e, after, refusal, b', hsplit, hall, hr, rfl⟩ :=
    Contents.addEntries_eq_error h.sound hadd
  have hentries : entries said = before.map Prod.snd ++ e :: after.map Prod.snd := by
    rw [← map_numbered 1 said, hsplit, List.map_append, List.map_cons]
  rw [map_arc] at hall
  have hrefused : RefusedAt said line refusal := by
    obtain ⟨i, rfl, hi⟩ := mem_numbered_iff.1 (hsplit ▸ List.mem_append_cons_self)
    exact ⟨i, e, Nat.add_comm _ _, hi, h.refused hentries hall hr⟩
  refine ⟨line, refusal, rfl, hrefused, ⟨refusal, hrefused⟩, ?_⟩
  rintro k ⟨refusal', i, e', rfl, hi, hr'⟩
  have hmem : (i + 1, e') ∈ numbered 1 said := mem_numbered_iff.2 ⟨i, Nat.add_comm _ _, hi⟩
  have hsorted := pairwise_numbered 1 said
  rw [hsplit] at hmem hsorted
  -- Those before have been taken; those after have larger numbers.
  rcases List.mem_append.1 hmem with hbefore | hmem
  · exact absurd hr'
      (h.not_refused ⟨_, hentries.symm⟩ hall (List.mem_map_of_mem hbefore) refusal')
  · rcases List.mem_cons.1 hmem with heq | hafter
    · exact (congrArg Prod.fst heq).ge
    · exact (List.rel_of_pairwise_cons (List.pairwise_append.1 hsorted).2.1 hafter).le

theorem Prepared.not_refusedAt (h : Prepared said b)
    (hadd : Contents.addEntries b (numbered 1 said) = .ok b') (k : Nat) (refusal : AddError) :
    ¬ RefusedAt said k refusal := by
  rintro ⟨i, e, rfl, hi, hr⟩
  have hall := Contents.addEntries_eq_ok_iff.1 hadd
  rw [map_arc, map_numbered] at hall
  refine h.not_refused List.prefix_rfl hall ?_ refusal hr
  exact List.mem_filterMap.2 ⟨.entry e, List.mem_of_getElem? hi, rfl⟩

end Adding

/-! ## Parsing -/

/-- A text that says something is parsed by adding its relationships to the builder of the text. -/
theorem parse_of_reads [Memory.Allocator] {text : List Char} {said : List (Line W)}
    (h : Reads text said) (undirected : Bool) :
    ∃ b, Prepared said b ∧
      parse text undirected = Contents.addEntries b (numbered 1 said) >>= Builder.build := by
  have hread : (Contents.empty : Contents W).readLines 1 ((Text.lines text).map some) = .ok _ :=
    Contents.readLines_eq_ok_iff.2 ⟨said, h, rfl⟩
  have hentries := Contents.entries_takeAll_eq (Contents.empty : Contents W) 1 said
  have hnodes := (Contents.of_takeAll 1 (Reads.ids_lt h)).1
  set c := (Contents.empty : Contents W).takeAll 1 said
  have hparse : parse text undirected =
      Contents.addEntries (if undirected then (Builder.new c.nodeCount).asUndirected
        else Builder.new c.nodeCount) (numbered 1 said) >>= Builder.build := by
    rw [parse, parseLines, hread]
    change Contents.toOffsetTable c undirected = _
    rw [Contents.toOffsetTable, hentries]
    rfl
  refine ⟨_, ?_, hparse⟩
  cases undirected with
  | true => exact ⟨(Builder.Sound.new _).asUndirected, rfl, hnodes⟩
  | false => exact ⟨.new _, rfl, hnodes⟩

/-- A text either says something or has a line that breaks a rule. In the second case the first such
    line is reported, with a rule that it breaks, whatever else is wrong with the text. Else the
    first line is reported whose relationship the graph does not take, with the reason; the node
    count is that of the last header, also if the header follows the line. No other text is rejected
    with the number of a line. -/
theorem parse_error_least [Memory.Allocator] (text : List Char) (undirected : Bool) :
    let parsed : Except GraphError (OffsetTable W) := parseBytes (Text.utf8 text) undirected
    ((∃ said : List (Line W), Reads text said) ↔ ∀ k fault, ¬ BrokenAt W text k fault) ∧
      ((∃ k fault, BrokenAt W text k fault) →
        ∃ line fault, parsed = .error (.parse line fault) ∧ BrokenAt W text line fault ∧
          IsLeast {k | ∃ fault, BrokenAt W text k fault} line) ∧
      (∀ said : List (Line W), Reads text said → (∃ k refusal, RefusedAt said k refusal) →
        ∃ line refusal, parsed = .error (.parse line (.refused refusal)) ∧
          RefusedAt said line refusal ∧ IsLeast {k | ∃ refusal, RefusedAt said k refusal} line) ∧
      ((∃ line fault, parsed = .error (.parse line fault)) →
        (∃ k fault, BrokenAt W text k fault) ∨
          ∃ said : List (Line W), Reads text said ∧ ∃ k refusal, RefusedAt said k refusal) := by
  intro parsed
  have hparsed : parsed = parse text undirected := parseBytes_utf8 text undirected
  have hreadable : (∃ said : List (Line W), Reads text said) ↔
      ∀ k fault, ¬ BrokenAt W text k fault := exists_reads_iff
  refine ⟨hreadable, ?_⟩
  rw [hparsed]
  cases hread : (Contents.empty : Contents W).readLines 1 ((Text.lines text).map some) with
  | error error =>
    obtain ⟨line, fault, rfl, hbroken, hleast⟩ := first_broken hread
    have hline : (parse text undirected : Except GraphError (OffsetTable W)) =
        .error (.parse line fault) := by
      rw [parse, parseLines, hread]
      rfl
    refine ⟨fun _ => ⟨line, fault, hline, hbroken, hleast⟩, fun said hreads => ?_,
      fun _ => .inl ⟨line, fault, hbroken⟩⟩
    exact (hreadable.1 ⟨said, hreads⟩ line fault hbroken).elim
  | ok c =>
    obtain ⟨said, hreads, -⟩ := Contents.readLines_eq_ok_iff.1 hread
    obtain ⟨b, hb, hparse⟩ := parse_of_reads hreads undirected
    refine ⟨?_, ?_⟩
    · rintro ⟨k, fault, hbroken⟩
      exact (hreadable.1 ⟨said, hreads⟩ k fault hbroken).elim
    rw [hparse]
    cases hadd : Contents.addEntries b (numbered 1 said) with
    | error error =>
      obtain ⟨line, refusal, rfl, hrefused, hleast⟩ := hb.first_refused hadd
      refine ⟨fun said' hreads' _ => ?_, fun _ => .inr ⟨said, hreads, line, refusal, hrefused⟩⟩
      obtain rfl := Reads.unique hreads hreads'
      exact ⟨line, refusal, rfl, hrefused, hleast⟩
    | ok b' =>
      refine ⟨?_, ?_⟩
      · rintro said' hreads' ⟨k, refusal, hrefused⟩
        obtain rfl := Reads.unique hreads hreads'
        exact (hb.not_refusedAt hadd k refusal hrefused).elim
      · rintro ⟨line, fault, hline⟩
        obtain ⟨what, n, he⟩ := Builder.resourceExhausted_of_build hline
        cases he

/-- A text whose header takes a node away from an earlier line. -/
def lateLimit : List Char := "0 1\n4 0\n1 0 0.5\n# nodes: 3".toList

/-- What `lateLimit` says. -/
def lateLimitSaid : List (Line Float) :=
  [.entry ⟨⟨0⟩, ⟨1⟩, none⟩, .entry ⟨⟨4⟩, ⟨0⟩, none⟩, .entry ⟨⟨1⟩, ⟨0⟩, some 0.5⟩, .nodeCount 3]

theorem reads_lateLimit : Reads lateLimit lateLimitSaid := by
  have hlines : Text.lines lateLimit =
      ["0 1".toList, "4 0".toList, "1 0 0.5".toList, "# nodes: 3".toList] := by
    decide +kernel
  rw [Reads, hlines]
  exact .cons (Line.read_eq_ok_iff.1 rfl) (.cons (Line.read_eq_ok_iff.1 rfl)
    (.cons (Line.read_eq_ok_iff.1 rfl) (.cons (Line.read_eq_ok_iff.1 rfl) .nil)))

theorem not_refused_lateLimit (refusal : AddError) : ¬ RefusedAt lateLimitSaid 1 refusal := by
  rintro ⟨i, e, hi, he, hr⟩
  obtain rfl : i = 0 := by omega
  obtain rfl := Line.entry.inj (Option.some.inj he)
  cases hr with
  | endPoint hid h => rcases hid with rfl | rfl <;> exact absurd h (by decide)
  | notFinite hw => cases hw
  | missing hfirst hweighted => cases hfirst; cases hweighted
  | unexpected _ _ h => cases h

theorem parse_error_least_lateLimit :
    ∃ refusal, (parseBytes (Text.utf8 lateLimit) true : Except GraphError (OffsetTable Float)) =
        .error (.parse 2 (.refused refusal)) ∧ RefusedAt lateLimitSaid 2 refusal := by
  obtain ⟨-, -, hrefused, -⟩ := parse_error_least (W := Float) lateLimit true
  have hsecond : RefusedAt lateLimitSaid 2 (.nodeNotFound ⟨4⟩ 3) :=
    ⟨1, _, rfl, rfl, .endPoint (.inl rfl) (by decide)⟩
  obtain ⟨line, refusal, hparsed, hline, -, hleast⟩ :=
    hrefused lateLimitSaid reads_lateLimit ⟨2, _, hsecond⟩
  have hle : line ≤ 2 := hleast ⟨_, hsecond⟩
  have hpos : 0 < line := by
    obtain ⟨i, -, rfl, -⟩ := hline
    exact Nat.succ_pos i
  have hne : line ≠ 1 := by
    rintro rfl
    exact not_refused_lateLimit refusal hline
  obtain rfl : line = 2 := by omega
  exact ⟨refusal, hparsed, hline⟩

end Superstep.EdgeList
