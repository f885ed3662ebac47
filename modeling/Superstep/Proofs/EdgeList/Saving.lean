import Superstep.EdgeList.Writer

/-!
# What a saved graph leaves in its writer

`Writer.Limited` says that a writer takes characters up to a limit, if there is one, and refuses
every call after the first that it has refused. Such a writer may take only some of what it is
offered in one call, or refuse a call as a whole. `upTo` is one of them.

Text passes through a buffer to the writer. `Buffered.Took` is the state of both after a text has
been offered: either everything has been taken or is still in the buffer, or the writer has failed
and holds a beginning. One part is taken in this sense (`Writer.Limited.took_put`), and so are all
parts of a line, of a node and of a graph.

Results: `Writer.Limited.save_of_readable`, a graph that can be read is saved whole if its text is
within the limit, and otherwise a beginning of it is, and the result is an error;
`Writer.Limited.save_of_fault`, a graph that cannot be read is never saved with success.
-/

namespace Superstep.EdgeList

variable {W : Type}

/-! ## Limits -/

/-- A call has failed, or has taken nothing. -/
def Refused : Except String Nat → Prop
  | .ok n => n = 0
  | .error _ => True

namespace Writer

variable {σ : Type}

/-- A writer that takes characters up to a limit, if there is one, and then fails. `held` is what it
    has taken, and once it is `closed` it takes no more. -/
structure Limited (w : Writer σ) (limit : Option Nat) (held : σ → List Char) (closed : σ → Prop) :
    Prop where
  /-- An open writer takes some of what it is offered, within the limit, or closes because not all
      of it is within the limit. -/
  offered {s : σ} {chunk : List Char} (hopen : ¬ closed s) (hne : chunk ≠ []) :
    (∃ n, (w.write s chunk).2 = .ok n ∧ 0 < n ∧ n ≤ chunk.length ∧
        held (w.write s chunk).1 = held s ++ chunk.take n ∧
        (∀ l ∈ limit, (held (w.write s chunk).1).length ≤ l) ∧
        (closed (w.write s chunk).1 → limit = some (held (w.write s chunk).1).length)) ∨
      (Refused (w.write s chunk).2 ∧ held (w.write s chunk).1 = held s ∧
        closed (w.write s chunk).1 ∧ ∃ l ∈ limit, l < (held s ++ chunk).length)
  /-- A closed writer refuses every further call. -/
  further {s : σ} {chunk : List Char} (hclosed : closed s) (hne : chunk ≠ []) :
    Refused (w.write s chunk).2 ∧ held (w.write s chunk).1 = held s ∧ closed (w.write s chunk).1
  /-- A flush of the writer itself does not fail. -/
  flushed (s : σ) : (w.flush s).2 = .ok () ∧ held (w.flush s).1 = held s

/-! ## Offers -/

variable {w : Writer σ} {limit : Option Nat} {held : σ → List Char} {closed : σ → Prop} {s : σ}

theorem offer_of_refused (idle : String) {chunk : List Char} (hne : chunk ≠ [])
    (hrefused : Refused (w.write s chunk).2) :
    (w.offer idle s chunk).sink = (w.write s chunk).1 ∧
      ∃ reason, (w.offer idle s chunk).failure = some reason := by
  rw [offer, dif_neg hne]
  generalize w.write s chunk = r at hrefused
  obtain ⟨s', reason | n⟩ := r
  · exact ⟨rfl, reason, rfl⟩
  · obtain rfl : n = 0 := hrefused
    exact ⟨rfl, idle, rfl⟩

theorem offer_of_taken (idle : String) {chunk : List Char} (hne : chunk ≠ []) {n : Nat}
    (hpos : 0 < n) (htaken : (w.write s chunk).2 = .ok n) :
    w.offer idle s chunk = w.offer idle (w.write s chunk).1 (chunk.drop n) := by
  obtain ⟨n, rfl⟩ := Nat.exists_eq_succ_of_ne_zero (Nat.ne_of_gt hpos)
  rw [offer, dif_neg hne]
  generalize w.write s chunk = r at htaken
  obtain ⟨s', result⟩ := r
  obtain rfl : result = .ok (n + 1) := htaken
  rfl

theorem buffer_of_offer {idle : String} {chunk : List Char}
    (hnone : (w.offer idle s chunk).failure = none) : (w.offer idle s chunk).buffer = #[] := by
  fun_induction offer with
  | case1 => rfl
  | case2 => cases hnone
  | case3 => cases hnone
  | case4 _ _ _ _ _ _ ih => exact ih hnone

theorem close_of_failed {b : Buffered σ} {reason : String} (h : b.failure = some reason) :
    w.close b = ((w.forward b).sink, .error (.io reason)) := by
  simp [close, h]

end Writer

/-- The state of a writer behind a buffer that have been offered the text `written`. -/
inductive Buffered.Took {σ : Type} (limit : Option Nat) (held : σ → List Char) (closed : σ → Prop)
    (written : List Char) (b : Buffered σ) : Prop where
  /-- Everything has been taken or is in the buffer. -/
  | whole (hnone : b.failure = none) (hheld : held b.sink ++ b.buffer.toList = written)
      (hfits : ∀ l ∈ limit, (held b.sink).length ≤ l)
      (hfull : closed b.sink → limit = some (held b.sink).length)
  /-- The writer has failed and holds a beginning. -/
  | broken (reason : String) (hsome : b.failure = some reason) (hclosed : closed b.sink)
      (hlt : ∃ l ∈ limit, l < written.length) (hheld : held b.sink <+: written)

namespace Buffered.Took

variable {σ : Type} {limit : Option Nat} {held : σ → List Char} {closed : σ → Prop}
  {written : List Char} {b : Buffered σ}

theorem held_isPrefix (h : b.Took limit held closed written) : held b.sink <+: written := by
  cases h with
  | whole _ hheld => exact ⟨_, hheld⟩
  | broken _ _ _ _ hheld => exact hheld

theorem more (h : b.Took limit held closed written) (hsome : b.failure.isSome)
    (more : List Char) : b.Took limit held closed (written ++ more) := by
  cases h with
  | whole hnone => simp [hnone] at hsome
  | broken reason hsome hclosed hlt hheld =>
    obtain ⟨l, hl, hlt⟩ := hlt
    refine .broken reason hsome hclosed ⟨l, hl, ?_⟩ (hheld.trans (List.prefix_append _ _))
    rw [List.length_append]
    omega

theorem gather (h : b.Took limit held closed written) (hnone : b.failure = none)
    (part : List Char) :
    Took limit held closed (written ++ part) { b with buffer := b.buffer ++ part } := by
  cases h with
  | broken _ hsome => simp [hnone] at hsome
  | whole _ hheld hfits hfull => exact .whole hnone (by simp [← hheld]) hfits hfull

end Buffered.Took

open Buffered (Took)

namespace Writer.Limited

variable {σ : Type} {w : Writer σ} {limit : Option Nat} {held : σ → List Char} {closed : σ → Prop}
  {s : σ} {written : List Char} {b : Buffered σ} (hw : w.Limited limit held closed)
include hw

theorem offer_closed (idle : String) (hclosed : closed s) (chunk : List Char) :
    held (w.offer idle s chunk).sink = held s := by
  by_cases hne : chunk = []
  · rw [offer, dif_pos hne]
  · obtain ⟨hrefused, hheld, -⟩ := hw.further hclosed hne
    rw [(offer_of_refused idle hne hrefused).1, hheld]

/-- Characters are offered to a writer that is open, or that has reached its limit: it takes all of
    them if they are within the limit, and otherwise a beginning of them. -/
theorem offer_spec (idle : String) (hfits : ∀ l ∈ limit, (held s).length ≤ l)
    (hfull : closed s → limit = some (held s).length) (chunk : List Char) :
    let b := w.offer idle s chunk
    (b.failure = none ∧ held b.sink = held s ++ chunk ∧ (∀ l ∈ limit, (held b.sink).length ≤ l) ∧
        (closed b.sink → limit = some (held b.sink).length)) ∨
      ((∃ reason, b.failure = some reason) ∧ closed b.sink ∧
        (∃ l ∈ limit, l < (held s ++ chunk).length) ∧ held b.sink <+: held s ++ chunk) := by
  induction hlength : chunk.length using Nat.strongRecOn generalizing s chunk with
  | ind length ih =>
    by_cases hne : chunk = []
    · subst hne
      rw [offer, dif_pos rfl]
      exact .inl ⟨rfl, by simp, hfits, hfull⟩
    have hpos := List.length_pos_iff.mpr hne
    by_cases hclosed : closed s
    · obtain ⟨hrefused, hheld, hstill⟩ := hw.further hclosed hne
      obtain ⟨hsink, hfailure⟩ := offer_of_refused idle hne hrefused
      refine .inr ⟨hfailure, hsink ▸ hstill, ⟨_, hfull hclosed, ?_⟩, ?_⟩
      · rw [List.length_append]
        omega
      · rw [hsink, hheld]
        exact List.prefix_append _ _
    obtain ⟨n, htaken, hn, hle, hheld, hfits', hfull'⟩ | ⟨hrefused, hheld, hstill, hlt⟩ :=
      hw.offered hclosed hne
    · have hrest := ih (chunk.drop n).length (by rw [List.length_drop]; omega) hfits' hfull'
        (chunk.drop n) rfl
      rw [hheld, List.append_assoc, List.take_append_drop] at hrest
      rw [offer_of_taken idle hne hn htaken]
      exact hrest
    · obtain ⟨hsink, hfailure⟩ := offer_of_refused idle hne hrefused
      refine .inr ⟨hfailure, hsink ▸ hstill, hlt, ?_⟩
      rw [hsink, hheld]
      exact List.prefix_append _ _

/-- What a writer holds and a chunk make up all that has been written, and the chunk is offered.
    `rest` is in the buffer after that: nothing, unless the writer has failed. -/
theorem took_offer (idle : String) {chunk : List Char} {rest : Array Char}
    (hfits : ∀ l ∈ limit, (held s).length ≤ l) (hfull : closed s → limit = some (held s).length)
    (hheld : held s ++ chunk = written)
    (hrest : (w.offer idle s chunk).failure = none → rest = #[]) :
    Took limit held closed written
      ⟨(w.offer idle s chunk).sink, rest, (w.offer idle s chunk).failure⟩ := by
  obtain ⟨hnone, htaken, hfits', hfull'⟩ | ⟨⟨reason, hsome⟩, hclosed, hlt, hbegin⟩ :=
    hw.offer_spec idle hfits hfull chunk
  · exact .whole hnone (by simp [hrest hnone, htaken, hheld]) hfits' hfull'
  · exact .broken reason hsome hclosed (hheld ▸ hlt) (hheld ▸ hbegin)

/-! ## Buffered writing -/

theorem took_forward (h : b.Took limit held closed written) (hnone : b.failure = none) :
    (w.forward b).Took limit held closed written := by
  cases h with
  | broken _ hsome => simp [hnone] at hsome
  | whole _ hheld hfits hfull => exact hw.took_offer _ hfits hfull hheld buffer_of_offer

theorem held_forward_of_failed (h : b.Took limit held closed written) (hsome : b.failure.isSome) :
    held (w.forward b).sink = held b.sink := by
  cases h with
  | whole hnone => simp [hnone] at hsome
  | broken _ _ hclosed => exact hw.offer_closed _ hclosed _

/-- One part is written. -/
theorem took_put (h : b.Took limit held closed written) (hnone : b.failure = none)
    (part : List Char) : (w.put b part).Took limit held closed (written ++ part) := by
  unfold put
  by_cases hroom : b.buffer.size + part.length > capacity
  · have hforward := hw.took_forward h hnone
    simp only [hroom, ↓reduceIte]
    split
    · next hsome => exact hforward.more hsome part
    · next hnone' =>
      have hnone' := Option.not_isSome_iff_eq_none.mp hnone'
      split
      · exact hforward.gather hnone' part
      · cases hforward with
        | broken _ hsome => simp [hnone'] at hsome
        | whole _ hheld hfits hfull =>
          have hempty : (w.forward b).buffer = #[] := buffer_of_offer hnone'
          refine hw.took_offer _ hfits hfull ?_ fun _ => hempty
          rw [← hheld, hempty, List.append_nil]
  · simp only [hroom, ↓reduceIte]
    rw [if_neg (by simp [hnone])]
    split
    · exact h.gather hnone part
    · -- a part as long as the buffer has room only if the buffer is empty
      have hempty : b.buffer = #[] := Array.eq_empty_of_size_eq_zero (by omega)
      cases h with
      | broken _ hsome => simp [hnone] at hsome
      | whole _ hheld hfits hfull =>
        refine hw.took_offer _ hfits hfull ?_ fun _ => hempty
        rw [← hheld, hempty, List.append_nil]

theorem took_putAll (h : b.Took limit held closed written) (hnone : b.failure = none)
    (parts : List (List Char)) :
    (w.putAll b parts).Took limit held closed (written ++ parts.flatten) := by
  induction parts generalizing b written with
  | nil => simpa [putAll] using h
  | cons part parts ih =>
    have hput := hw.took_put h hnone part
    rw [putAll, List.flatten_cons, ← List.append_assoc]
    split
    · next hsome => exact hput.more hsome _
    · next hnone' => exact ih hput (Option.not_isSome_iff_eq_none.mp hnone')

/-! ## Lines, nodes and graphs -/

variable [Weight W] {g : Graph W}

/-- The lines of relationships of one node are written until the writer fails. -/
theorem took_visitAll (h : b.Took limit held closed written) (hnone : b.failure = none)
    (node : NodeId) (rs : List (NodeId × W)) :
    let r := Graph.visitAll (fun b target weight =>
      let b := w.putAll b (entryParts g.isWeighted node target weight)
      (b, b.failure.isNone)) b rs
    r.1.Took limit held closed
        (written ++ (rs.flatMap fun r => entryParts g.isWeighted node r.1 r.2).flatten) ∧
      r.2 = r.1.failure.isNone := by
  induction rs generalizing b written with
  | nil => simpa [Graph.visitAll, hnone] using h
  | cons r rs ih =>
    have hline := hw.took_putAll h hnone (entryParts g.isWeighted node r.1 r.2)
    rw [Graph.visitAll, List.flatMap_cons, List.flatten_append, ← List.append_assoc]
    cases hfailure : (w.putAll b (entryParts g.isWeighted node r.1 r.2)).failure with
    | some reason => simpa [hfailure] using hline.more (by simp [hfailure]) _
    | none => simpa [hfailure] using ih hline hfailure

/-- The lines of a node are written until the writer fails. Only if it does not is it noticed that
    the node cannot be read to its end. -/
theorem took_saveNode (h : b.Took limit held closed written) (hnone : b.failure = none)
    (node : NodeId) :
    let r := w.saveNode g b node
    r.1.Took limit held closed (written ++ (nodeParts g node).flatten) ∧
      (r.2 = none ↔ g.fault? node = none ∨ r.1.failure.isSome) := by
  obtain ⟨hlines, hend⟩ := hw.took_visitAll (g := g) h hnone node (g.relationships node)
  rw [saveNode, Graph.visit]
  generalize Graph.visitAll _ b (g.relationships node) = r at hlines hend
  obtain ⟨b', complete⟩ := r
  obtain rfl : complete = b'.failure.isNone := hend
  cases hfailure : b'.failure with
  | some reason => exact ⟨hlines, by simp [hfailure]⟩
  | none => exact ⟨hlines, by simp [hfailure]⟩

/-- The lines of nodes are written until the writer fails or one of them cannot be read to its end.
    They are all written if all nodes can be read. -/
theorem took_saveNodes (h : b.Took limit held closed written) (hnone : b.failure = none)
    (nodes : List NodeId) :
    let r := w.saveNodes g b nodes
    let all := written ++ (nodes.flatMap (nodeParts g)).flatten
    ((∀ node ∈ nodes, g.fault? node = none) → r.2 = none ∧ r.1.Took limit held closed all) ∧
      ((∃ node ∈ nodes, g.fault? node ≠ none) →
        (r.2 = none → r.1.failure.isSome) ∧
          ∃ seen, r.1.Took limit held closed seen ∧ seen <+: all) := by
  induction nodes generalizing b written with
  | nil => simpa [saveNodes] using h
  | cons node nodes ih =>
    obtain ⟨hnode, hend⟩ := hw.took_saveNode (g := g) h hnone node
    rw [saveNodes, List.flatMap_cons, List.flatten_append, ← List.append_assoc]
    simp only [List.mem_cons, forall_eq_or_imp, exists_eq_or_imp]
    generalize w.saveNode g b node = r at hnode hend
    obtain ⟨b', _ | fault⟩ := r
    · -- the node can be read, or nobody has noticed that it cannot
      dsimp only at hnode hend ⊢
      split
      · next hsome =>
        exact ⟨fun _ => ⟨rfl, hnode.more hsome _⟩,
          fun _ => ⟨fun _ => hsome, _, hnode, List.prefix_append _ _⟩⟩
      · next hnone' =>
        have hread : g.fault? node = none := (hend.mp rfl).resolve_right hnone'
        simpa [hread] using ih hnode (Option.not_isSome_iff_eq_none.mp hnone')
    · have hread : g.fault? node ≠ none := fun hread => by simpa using hend.mpr (.inl hread)
      exact ⟨fun hall => absurd hall.1 hread,
        fun _ => ⟨fun hnot => (Option.some_ne_none fault hnot).elim, _, hnode,
          List.prefix_append _ _⟩⟩

/-- The state before the buffer is forwarded for the last time. -/
theorem took_lines (g : Graph W) (hempty : held s = []) (hopen : closed s → limit = some 0) :
    let b := w.putAll ⟨s, #[], none⟩ (headerParts g.nodeCount)
    let r := if b.failure.isSome then (b, none) else w.saveNodes g b g.nodes
    ((∀ node ∈ g.nodes, g.fault? node = none) →
        r.2 = none ∧ r.1.Took limit held closed (text g)) ∧
      ((∃ node ∈ g.nodes, g.fault? node ≠ none) →
        (r.2 = none → r.1.failure.isSome) ∧
          ∃ seen, r.1.Took limit held closed seen ∧ seen <+: text g) := by
  have hnew : Took limit held closed [] ⟨s, #[], none⟩ :=
    .whole rfl (by simp [hempty]) (by simp [hempty]) fun hclosed => by simp [hempty, hopen hclosed]
  have hheader := hw.took_putAll hnew rfl (headerParts g.nodeCount)
  rw [List.nil_append] at hheader
  rw [text, List.flatten_append]
  generalize w.putAll ⟨s, #[], none⟩ (headerParts g.nodeCount) = b at hheader
  dsimp only
  split
  · next hsome =>
    exact ⟨fun _ => ⟨rfl, hheader.more hsome _⟩,
      fun _ => ⟨fun _ => hsome, _, hheader, List.prefix_append _ _⟩⟩
  · next hnone =>
    exact hw.took_saveNodes hheader (Option.not_isSome_iff_eq_none.mp hnone) g.nodes

/-- The buffer is forwarded for the last time, and the writer is flushed. -/
theorem close_spec (h : b.Took limit held closed written) :
    ((w.close b).2 = .ok () ∧ held (w.close b).1 = written ∧ ∀ l ∈ limit, written.length ≤ l) ∨
      (∃ reason, (w.close b).2 = .error (.io reason)) ∧ held (w.close b).1 <+: written ∧
        ∃ l ∈ limit, l < written.length := by
  have hlast : (if b.failure.isSome then b else w.forward b).Took limit held closed written ∧
      ((if b.failure.isSome then b else w.forward b).failure = none →
        (if b.failure.isSome then b else w.forward b).buffer = #[]) := by
    split
    · next hsome => exact ⟨h, fun hnone => by simp [hnone] at hsome⟩
    · next hnone =>
      exact ⟨hw.took_forward h (Option.not_isSome_iff_eq_none.mp hnone), buffer_of_offer⟩
  rw [close]
  generalize (if b.failure.isSome then b else w.forward b) = b' at hlast
  obtain ⟨⟨hnone, hheld, hfits, -⟩ | ⟨reason, hsome, hclosed, hlt, hheld⟩, hempty⟩ := hlast
  · rw [hempty hnone, List.append_nil] at hheld
    obtain ⟨hok, hkept⟩ := hw.flushed b'.sink
    simp only [hnone]
    generalize w.flush b'.sink = r at hok hkept
    obtain ⟨s', result⟩ := r
    obtain rfl : result = .ok () := hok
    exact .inl ⟨rfl, hkept.trans hheld, hheld ▸ hfits⟩
  · simp only [hsome]
    refine .inr ⟨⟨reason, rfl⟩, ?_, hlt⟩
    rw [forward, hw.offer_closed _ hclosed]
    exact hheld

/-- A graph that can be read is saved whole if its text is within the limit. Otherwise the writer
    holds a beginning of the text, and the result is an error of the writer. -/
theorem save_of_readable (hempty : held s = []) (hopen : closed s → limit = some 0)
    (hread : ∀ node ∈ g.nodes, g.fault? node = none) :
    ((w.save g s).2 = .ok () ∧ held (w.save g s).1 = text g ∧ ∀ l ∈ limit, (text g).length ≤ l) ∨
      (∃ reason, (w.save g s).2 = .error (.io reason)) ∧ held (w.save g s).1 <+: text g ∧
        ∃ l ∈ limit, l < (text g).length := by
  obtain ⟨hnone, htook⟩ := (hw.took_lines g hempty hopen).1 hread
  rw [save]
  generalize (if (w.putAll ⟨s, #[], none⟩ (headerParts g.nodeCount)).failure.isSome then
    (w.putAll ⟨s, #[], none⟩ (headerParts g.nodeCount), none) else _) = r at hnone htook
  obtain ⟨b, fault⟩ := r
  obtain rfl : fault = none := hnone
  exact hw.close_spec htook

/-- A graph that cannot be read is never saved with success, and leaves a beginning of its text. -/
theorem save_of_fault (hempty : held s = []) (hopen : closed s → limit = some 0)
    (hfault : ∃ node ∈ g.nodes, g.fault? node ≠ none) :
    (w.save g s).2 ≠ .ok () ∧ held (w.save g s).1 <+: text g := by
  obtain ⟨hbroken, seen, htook, hseen⟩ := (hw.took_lines g hempty hopen).2 hfault
  rw [save]
  generalize (if (w.putAll ⟨s, #[], none⟩ (headerParts g.nodeCount)).failure.isSome then
    (w.putAll ⟨s, #[], none⟩ (headerParts g.nodeCount), none) else _) = r at hbroken htook
  obtain ⟨b, fault⟩ := r
  cases fault with
  | some fault =>
    refine ⟨by simp, ?_⟩
    cases hfailure : b.failure with
    | some reason =>
      rw [hw.held_forward_of_failed htook (by simp [hfailure])]
      exact htook.held_isPrefix.trans hseen
    | none => exact (hw.took_forward htook hfailure).held_isPrefix.trans hseen
  | none =>
    have hsome : b.failure.isSome := hbroken rfl
    obtain ⟨reason, hreason⟩ := Option.isSome_iff_exists.mp hsome
    dsimp only at htook ⊢
    rw [close_of_failed hreason]
    refine ⟨by simp, ?_⟩
    rw [hw.held_forward_of_failed htook hsome]
    exact htook.held_isPrefix.trans hseen

end Writer.Limited

/-! ## The writer that keeps what it takes -/

/-- It is limited, and closed as soon as it holds all it can. -/
theorem limited_upTo (limit : Option Nat) :
    (upTo limit).Limited limit Array.toList fun held => ∃ l ∈ limit, l ≤ held.size where
  offered := by
    intro held chunk hopen hne
    have hpos := List.length_pos_iff.mpr hne
    cases limit with
    | none => exact .inl ⟨chunk.length, rfl, hpos, Nat.le_refl _, by simp [upTo], by simp, by simp⟩
    | some l =>
      have hroom : held.size < l := by simpa using hopen
      refine .inl ⟨min (l - held.size) chunk.length, ?_⟩
      simp only [upTo, hroom, ↓reduceIte, Array.toList_appendList, List.length_append,
        List.length_take, Array.length_toList]
      refine ⟨trivial, by omega, by omega, trivial, ?_, ?_⟩
      · rintro l' ⟨⟩
        omega
      · rintro ⟨l', ⟨⟩, hfull⟩
        rw [← Array.length_toList, Array.toList_appendList, List.length_append, List.length_take,
          Array.length_toList] at hfull
        exact congrArg some (by omega)
  further := by
    rintro held chunk ⟨l, hl, hclosed⟩ _
    obtain rfl : limit = some l := hl
    simp only [upTo, Nat.not_lt.mpr hclosed, ↓reduceIte]
    exact ⟨trivial, trivial, l, rfl, hclosed⟩
  flushed held := ⟨rfl, rfl⟩

theorem save_none [Weight W] {g : Graph W} (hread : ∀ node ∈ g.nodes, g.fault? node = none) :
    (save g none).1.toList = text g ∧ (save g none).2 = .ok () := by
  obtain ⟨hok, hheld, -⟩ | ⟨-, -, l, hl, -⟩ :=
    (limited_upTo none).save_of_readable (s := #[]) rfl (by simp) hread
  · exact ⟨hheld, hok⟩
  · cases hl

end Superstep.EdgeList
