import Mathlib.Data.UInt
import Superstep.EdgeList.Reader
import Superstep.Proofs.Decimal.Natural
import Superstep.Proofs.Graph.CountingSort
import Superstep.Proofs.Text.Utf8

/-!
# The grammar of edge lists

`Line.Says` is the grammar of one line, as a relation between a line and what it says: a blank line
and a comment say nothing, a comment with a header gives a node count, and any other line has two or
three fields and gives a relationship. `Reads` lifts it to the lines of a text.

What a text says describes a graph (`Valid`) if its ids are below the node count, its weights are
finite, and either all of its relationships or none have weights. The node count is that of the last
header, wherever it stands, or else the largest id plus one.

Results: `Line.read_eq_ok_iff`, one line is read exactly by its grammar; `readLines_eq_ok_iff`, and
so are all lines; `parse_eq_ok_iff`, a text is accepted exactly if it is read by the grammar and
describes a graph that can be allocated, and then the graph is the table of the rows that the text
gives; `parse_exact`, the same for the bytes of a text, with what can be read of the graph.
-/

namespace Superstep.EdgeList

open Decimal (Denotes)

variable {W : Type} [Weight W]

/-! ## The grammar of a line -/

/-- A field is the text of a node id. The largest 64-bit number is no id. -/
def IsId (field : List Char) (id : NodeId) : Prop :=
  Denotes field id.index ∧ id.index < wordLimit - 1

/-- Fields give a relationship: a source, a target and perhaps a weight. -/
inductive Entry.Says : Entry W → List (List Char) → Prop where
  | unweighted {s t : List Char} {source target : NodeId} (hs : IsId s source)
      (ht : IsId t target) : Says ⟨source, target, none⟩ [s, t]
  | weighted {s t w : List Char} {source target : NodeId} {weight : W} (hs : IsId s source)
      (ht : IsId t target) (hw : Weight.read? w = some weight) :
      Says ⟨source, target, some weight⟩ [s, t, w]

/-- A line is a comment whose mark `comment` follows. Blanks at the ends do not count. -/
def IsComment (line comment : List Char) : Prop :=
  ∃ mark, (mark = '#' ∨ mark = '%') ∧ Text.trim line = mark :: comment

/-- What a line says. -/
inductive Line.Says : Line W → List Char → Prop where
  | blank {line : List Char} (h : ∀ c ∈ line, Text.isBlank c) : Says .nothing line
  | remark {line comment : List Char} (h : IsComment line comment)
      (hheader : ¬ header <+: Text.trim comment) : Says .nothing line
  | header {line comment count : List Char} {n : UInt64} (h : IsComment line comment)
      (hheader : Text.trim comment = header ++ count) (hcount : Denotes (Text.trim count) n.toNat) :
      Says (.nodeCount n) line
  | entry {line : List Char} {e : Entry W} (h : ∀ comment, ¬ IsComment line comment)
      (hfields : e.Says (Text.fields line)) : Says (.entry e) line

/-! ## Reading a line -/

theorem readId_eq_ok_iff {field : List Char} {id : NodeId} :
    readId field = .ok id ↔ Denotes field id.index := by
  unfold readId
  rw [NodeId.index, ← Decimal.readUInt64_eq_ok_iff]
  cases Decimal.readUInt64 field with
  | ok n =>
    obtain ⟨val⟩ := id
    simp
  | error fault => simp

theorem largest_iff (source target : NodeId) :
    ¬ (if source ≤ target then target else source).index + 1 = wordLimit ↔
      source.index < wordLimit - 1 ∧ target.index < wordLimit - 1 := by
  have hs := source.index_lt
  have ht := target.index_lt
  have hle : source ≤ target ↔ source.index ≤ target.index := UInt64.le_iff_toNat_le
  split <;> rename_i h <;> rw [hle] at h <;> omega

theorem readEntry_eq (s t : List Char) (rest : Option (List Char)) :
    (readEntry (s :: t :: rest.toList) : Except LineFault (Entry W)) =
      (readId s >>= fun source => readId t >>= fun target => readWeight rest >>= fun weight =>
        if (if source ≤ target then target else source).index + 1 = wordLimit then
          .error (.idOutOfRange (if source ≤ target then target else source))
        else .ok ⟨source, target, weight⟩) := by
  cases rest <;> rfl

/-- With two or three fields a relationship is read exactly if they are read and the ids are small
    enough. -/
theorem readEntry_eq_ok_iff_of_fields (s t : List Char) (rest : Option (List Char)) (e : Entry W) :
    readEntry (s :: t :: rest.toList) = .ok e ↔
      IsId s e.source ∧ IsId t e.target ∧ readWeight rest = .ok e.weight := by
  rw [readEntry_eq]
  constructor
  · intro h
    obtain ⟨source, hs, h⟩ := exists_of_bind_eq_ok h
    obtain ⟨target, ht, h⟩ := exists_of_bind_eq_ok h
    obtain ⟨weight, hw, h⟩ := exists_of_bind_eq_ok h
    by_cases hlargest : (if source ≤ target then target else source).index + 1 = wordLimit
    · rw [if_pos hlargest] at h
      cases h
    · rw [if_neg hlargest] at h
      obtain rfl := Except.ok.inj h
      obtain ⟨hsource, htarget⟩ := (largest_iff source target).1 hlargest
      exact ⟨⟨readId_eq_ok_iff.1 hs, hsource⟩, ⟨readId_eq_ok_iff.1 ht, htarget⟩, hw⟩
  · rintro ⟨hs, ht, hw⟩
    rw [readId_eq_ok_iff.2 hs.1, readId_eq_ok_iff.2 ht.1, hw]
    exact if_neg ((largest_iff _ _).2 ⟨hs.2, ht.2⟩)

theorem readWeight_some_eq_ok_iff {field : List Char} {weight : Option W} :
    readWeight (some field) = .ok weight ↔ ∃ w, Weight.read? field = some w ∧ weight = some w := by
  unfold readWeight
  cases hread : Weight.read? (W := W) field <;> simp [hread, eq_comm]

/-- A relationship is read exactly by its grammar. -/
theorem readEntry_eq_ok_iff {fields : List (List Char)} {e : Entry W} :
    readEntry fields = .ok e ↔ e.Says fields := by
  obtain ⟨source, target, weight⟩ := e
  match fields with
  | [s, t] =>
    refine (readEntry_eq_ok_iff_of_fields s t none _).trans ⟨?_, ?_⟩
    · rintro ⟨hs, ht, hw⟩
      obtain rfl := Except.ok.inj hw
      exact .unweighted hs ht
    · rintro (⟨hs, ht⟩ | _)
      exact ⟨hs, ht, rfl⟩
  | [s, t, w] =>
    refine (readEntry_eq_ok_iff_of_fields s t (some w) _).trans ⟨?_, ?_⟩
    · rintro ⟨hs, ht, hw⟩
      obtain ⟨w', hread, rfl⟩ := readWeight_some_eq_ok_iff.1 hw
      exact .weighted hs ht hread
    · rintro (_ | ⟨hs, ht, hw⟩)
      exact ⟨hs, ht, readWeight_some_eq_ok_iff.2 ⟨_, hw, rfl⟩⟩
  | [] | [_] | _ :: _ :: _ :: _ :: _ =>
    constructor
    · intro h
      cases h
    · intro h
      cases h

omit [Weight W] in
theorem IsComment.unique {line comment comment' : List Char} (h : IsComment line comment)
    (h' : IsComment line comment') : comment' = comment := by
  obtain ⟨mark, -, hmark⟩ := h
  obtain ⟨mark', -, hmark'⟩ := h'
  exact (List.cons.inj (hmark'.symm.trans hmark)).2

omit [Weight W] in
theorem IsComment.not_blank {line comment : List Char} (h : IsComment line comment) :
    ¬ ∀ c ∈ line, Text.isBlank c := by
  obtain ⟨mark, -, hmark⟩ := h
  rw [← Text.trim_eq_nil_iff, hmark]
  exact List.cons_ne_nil _ _

/-- A comment is read as what it says. -/
theorem readComment_eq_ok_iff {line comment : List Char} (h : IsComment line comment)
    {said : Line W} : readComment comment = .ok said ↔ said.Says line := by
  constructor
  · intro hread
    unfold readComment at hread
    cases hafter : Text.after? header (Text.trim comment) with
    | none =>
      rw [hafter] at hread
      obtain rfl := Except.ok.inj hread
      exact .remark h (Text.after?_eq_none_iff.1 hafter)
    | some rest =>
      simp only [hafter] at hread
      cases hcount : Decimal.readUInt64 (Text.trim rest) with
      | error fault =>
        rw [hcount] at hread
        cases hread
      | ok n =>
        rw [hcount] at hread
        obtain rfl := Except.ok.inj hread
        exact .header h (Text.after?_eq_some_iff.1 hafter) (Decimal.readUInt64_eq_ok_iff.1 hcount)
  · rintro (hblank | ⟨h', hheader⟩ | ⟨h', hheader, hcount⟩ | ⟨hno, -⟩)
    · exact absurd hblank h.not_blank
    · obtain rfl := h.unique h'
      rw [readComment, Text.after?_eq_none_iff.2 hheader]
    · obtain rfl := h.unique h'
      rw [readComment, Text.after?_eq_some_iff.2 hheader]
      dsimp only
      rw [Decimal.readUInt64_eq_ok_iff.2 hcount]
    · exact absurd h (hno comment)

/-- A line is read exactly by its grammar. -/
theorem Line.read_eq_ok_iff {line : List Char} {said : Line W} :
    Line.read line = .ok said ↔ said.Says line := by
  unfold Line.read
  cases htrim : Text.trim line with
  | nil =>
    dsimp only
    constructor
    · intro h
      obtain rfl := Except.ok.inj h
      exact .blank (Text.trim_eq_nil_iff.1 htrim)
    · rintro (hblank | ⟨⟨_, _, h⟩, _⟩ | ⟨⟨_, _, h⟩, _⟩ | ⟨-, hfields⟩)
      · rfl
      · simp [htrim] at h
      · simp [htrim] at h
      · rw [← Text.fields_trim, htrim, Text.fields_nil] at hfields
        cases hfields
  | cons c cs =>
    dsimp only
    by_cases hc : isCommentMark c
    · rw [if_pos hc]
      exact readComment_eq_ok_iff ⟨c, by simpa [isCommentMark] using hc, htrim⟩
    · have hno : ∀ comment, ¬ IsComment line comment := by
        rintro comment ⟨mark, hmark, h⟩
        obtain rfl := (List.cons.inj (htrim.symm.trans h)).1
        exact hc (by simpa [isCommentMark] using hmark)
      rw [if_neg hc, ← htrim, Text.fields_trim]
      constructor
      · intro h
        cases hentry : readEntry (W := W) (Text.fields line) with
        | error fault => simp [hentry, Except.map] at h
        | ok e =>
          obtain rfl : Line.entry e = said := by simpa [hentry, Except.map] using h
          exact .entry hno (readEntry_eq_ok_iff.1 hentry)
      · rintro (hblank | ⟨h, -⟩ | ⟨h, -⟩ | ⟨-, hfields⟩)
        · simp [Text.trim_eq_nil_iff.2 hblank] at htrim
        · exact absurd h (hno _)
        · exact absurd h (hno _)
        · rw [readEntry_eq_ok_iff.2 hfields]
          rfl

/-! ## What a text says -/

/-- The lines of a text say `said`, line by line. -/
def Reads (text : List Char) (said : List (Line W)) : Prop :=
  List.Forall₂ (fun line what => what.Says line) (Text.lines text) said

namespace Line

/-- The node count that a header gives. -/
def header? : Line W → Option UInt64
  | .nodeCount n => some n
  | _ => none

/-- The relationship that a line gives. -/
def entry? : Line W → Option (Entry W)
  | .entry e => some e
  | _ => none

end Line

/-- The relationships of a text, in the order of their lines. -/
def entries (said : List (Line W)) : List (Entry W) := said.filterMap Line.entry?

/-- The ids that occur in relationships. -/
def ids (said : List (Line W)) : List Nat :=
  (entries said).flatMap fun e => [e.source.index, e.target.index]

/-- The largest of some ids plus one; zero if there are none. -/
def above (ids : List Nat) : Nat :=
  match ids.max? with
  | some largest => largest + 1
  | none => 0

/-- The node count of a text: what the last header says, else the largest id plus one. -/
def nodesOf (said : List (Line W)) : Nat :=
  match (said.filterMap Line.header?).getLast? with
  | some n => n.toNat
  | none => above (ids said)

/-- What a text says describes a graph. -/
structure Valid (said : List (Line W)) : Prop where
  nodes : ∀ id ∈ ids said, id < nodesOf said
  finite : ∀ e ∈ entries said, ∀ w, e.weight = some w → Weight.isFinite w
  uniform : (∀ e ∈ entries said, e.weight.isSome) ∨ ∀ e ∈ entries said, e.weight = none

/-- A relationship as a builder takes it. -/
def Entry.arc (e : Entry W) : NodeId × NodeId × Option W := (e.source, e.target, e.weight)

/-- The graph that a text describes. -/
def tableOf (said : List (Line W)) : OffsetTable W :=
  OffsetTable.ofRows ((entries said).any fun e => e.weight.isSome)
    (Builder.rowsOf (nodesOf said) ((entries said).map fun e => Builder.weighed e.arc))

/-! ## Reading all lines -/

namespace Contents

/-- Takes in what lines say, the first of which has the given number. -/
def takeAll (c : Contents W) (number : Nat) : List (Line W) → Contents W
  | [] => c
  | what :: said => (c.take number what).takeAll (number + 1) said

/-- All lines are read exactly if each is read by its grammar. -/
theorem readLines_eq_ok_iff {c c' : Contents W} {number : Nat} {lines : List (List Char)} :
    c.readLines number (lines.map some) = .ok c' ↔
      ∃ said, List.Forall₂ (fun line what => what.Says line) lines said ∧
        c' = c.takeAll number said := by
  induction lines generalizing c number with
  | nil =>
    simp only [List.map_nil, readLines, List.forall₂_nil_left_iff, exists_eq_left, takeAll,
      Except.ok.injEq, eq_comm]
  | cons line lines ih =>
    rw [List.map_cons, readLines]
    constructor
    · intro h
      cases hread : Line.read (W := W) line with
      | error fault => simp [hread] at h
      | ok what =>
        rw [hread] at h
        obtain ⟨said, hsaid, rfl⟩ := ih.1 h
        exact ⟨what :: said, .cons (Line.read_eq_ok_iff.1 hread) hsaid, rfl⟩
    · rintro ⟨_, _ | ⟨hwhat, hsaid⟩, rfl⟩
      rw [Line.read_eq_ok_iff.2 hwhat]
      exact ih.2 ⟨_, hsaid, rfl⟩

omit [Weight W]

theorem declared_takeAll (c : Contents W) (number : Nat) (said : List (Line W)) :
    (c.takeAll number said).declared =
      (said.filterMap Line.header?).getLast?.or c.declared := by
  induction said generalizing c number with
  | nil => simp [takeAll]
  | cons what said ih =>
    rw [takeAll, ih]
    cases what with
    | nothing => rfl
    | entry e => rfl
    | nodeCount n =>
      have hcons : (Line.nodeCount n :: said).filterMap Line.header? =
        n :: said.filterMap Line.header? := rfl
      rw [hcons, List.getLast?_cons]
      cases (said.filterMap Line.header?).getLast? <;> rfl

theorem entries_takeAll (c : Contents W) (number : Nat) (said : List (Line W)) :
    (c.takeAll number said).entries.toList.map Prod.snd =
      c.entries.toList.map Prod.snd ++ EdgeList.entries said := by
  induction said generalizing c number with
  | nil => simp [takeAll, EdgeList.entries]
  | cons what said ih =>
    rw [takeAll, ih]
    cases what with
    | nothing => rfl
    | nodeCount n => rfl
    | entry e => simp [take, EdgeList.entries, Line.entry?]

theorem above_cons (id : Nat) (ids : List Nat) : above (id :: ids) = max (id + 1) (above ids) := by
  unfold above
  rw [List.max?_cons]
  cases ids.max? with
  | none => simp
  | some largest => simp [Nat.add_max_add_right]

/-- The node count that ids need does not overflow as long as they are below the largest 64-bit
    number. -/
theorem toNat_foldl_needed (es : List (Nat × Entry W)) (n : UInt64)
    (hids : ∀ x ∈ es, x.2.source.index < wordLimit - 1 ∧ x.2.target.index < wordLimit - 1) :
    (es.foldl (fun n x => max n (max x.2.source.val x.2.target.val + 1)) n).toNat =
      max n.toNat (above (es.flatMap fun x => [x.2.source.index, x.2.target.index])) := by
  induction es generalizing n with
  | nil => simp [above]
  | cons x es ih =>
    rw [List.forall_mem_cons] at hids
    have hstep : (max x.2.source.val x.2.target.val + 1).toNat =
        max x.2.source.index x.2.target.index + 1 := by
      have := hids.1
      unfold wordLimit at this
      rw [UInt64.toNat_add, UInt64.toNat_max, UInt64.toNat_one]
      unfold NodeId.index at *
      omega
    rw [List.foldl_cons, ih _ hids.2, UInt64.toNat_max, hstep, List.flatMap_cons, List.cons_append,
      List.cons_append, List.nil_append, above_cons, above_cons]
    omega

/-- The contents of a text give its node count and its relationships. -/
theorem of_takeAll (number : Nat) {said : List (Line W)}
    (hids : ∀ id ∈ ids said, id < wordLimit - 1) :
    (empty.takeAll number said).nodeCount.toNat = nodesOf said ∧
      (empty.takeAll number said).entries.toList.map Prod.snd = EdgeList.entries said := by
  have hentries : (empty.takeAll number said).entries.toList.map Prod.snd =
      EdgeList.entries said := entries_takeAll empty number said
  refine ⟨?_, hentries⟩
  have hneeded : (empty.takeAll number said).needed.toNat = above (ids said) := by
    have hflat : ((empty.takeAll number said).entries.toList.flatMap fun x =>
        [x.2.source.index, x.2.target.index]) = ids said := by
      rw [ids, ← hentries, List.flatMap_map]
    rw [needed, ← Array.foldl_toList]
    refine (toNat_foldl_needed _ 0 fun x hx => ?_).trans ?_
    · exact ⟨hids _ (hflat ▸ List.mem_flatMap.2 ⟨x, hx, by simp⟩),
        hids _ (hflat ▸ List.mem_flatMap.2 ⟨x, hx, by simp⟩)⟩
    · rw [hflat]
      exact Nat.zero_max _
  rw [nodeCount, declared_takeAll, nodesOf]
  cases (said.filterMap Line.header?).getLast? with
  | some n => rfl
  | none => exact hneeded

end Contents

/-! ## Adding what has been read -/

theorem Contents.addEntries_eq_ok_iff {b b' : Builder W} {es : List (Nat × Entry W)} :
    Contents.addEntries b es = .ok b' ↔ b.addAll (es.map fun x => x.2.arc) = .ok b' := by
  induction es generalizing b with
  | nil => simp [Contents.addEntries, Builder.addAll]
  | cons x es ih =>
    rw [List.map_cons, Contents.addEntries, Builder.addAll]
    cases hadd : b.addEither x.2.source x.2.target x.2.weight with
    | error e => simp [Entry.arc, hadd, bind, Except.bind]
    | ok b₁ => simp only [Entry.arc, hadd, bind, Except.bind, ih]

theorem Contents.toOffsetTable_eq_ok_iff [Memory.Allocator] {c : Contents W} {undirected : Bool}
    {t : OffsetTable W} :
    c.toOffsetTable undirected = .ok t ↔
      ∃ b, (if undirected then (Builder.new c.nodeCount).asUndirected
          else Builder.new c.nodeCount).addAll (c.entries.toList.map fun x => x.2.arc) = .ok b ∧
        b.build = .ok t := by
  constructor
  · intro h
    obtain ⟨b, hadd, hbuild⟩ := exists_of_bind_eq_ok h
    exact ⟨b, Contents.addEntries_eq_ok_iff.1 hadd, hbuild⟩
  · rintro ⟨b, hadd, hbuild⟩
    have hentries := Contents.addEntries_eq_ok_iff.2 hadd
    simp only [Contents.toOffsetTable, hentries]
    exact hbuild

omit [Weight W] in
theorem mem_ids_iff {said : List (Line W)} {id : Nat} :
    id ∈ ids said ↔ ∃ e ∈ entries said, id = e.source.index ∨ id = e.target.index := by
  simp [ids]

theorem Entry.Says.ids_lt {e : Entry W} {fields : List (List Char)} (h : e.Says fields) :
    e.source.index < wordLimit - 1 ∧ e.target.index < wordLimit - 1 := by
  cases h with
  | unweighted hs ht => exact ⟨hs.2, ht.2⟩
  | weighted hs ht _ => exact ⟨hs.2, ht.2⟩

/-- The ids that a text gives are below the largest 64-bit number. -/
theorem Reads.ids_lt {text : List Char} {said : List (Line W)} (h : Reads text said) :
    ∀ id ∈ ids said, id < wordLimit - 1 := by
  have hentries : ∀ e ∈ entries said,
      e.source.index < wordLimit - 1 ∧ e.target.index < wordLimit - 1 := by
    unfold Reads at h
    generalize Text.lines text = lines at h
    induction h with
    | nil => simp [entries]
    | cons hwhat _ ih =>
      cases hwhat with
      | entry _ hfields => exact List.forall_mem_cons.2 ⟨hfields.ids_lt, ih⟩
      | _ => exact ih
  intro id hid
  obtain ⟨e, he, rfl | rfl⟩ := mem_ids_iff.1 hid
  exacts [(hentries e he).1, (hentries e he).2]

/-- A builder takes the relationships of a text if the text describes a graph. -/
theorem acceptable_iff {said : List (Line W)} {n : UInt64} (hn : n.toNat = nodesOf said) :
    Builder.Acceptable n ((entries said).map Entry.arc) ↔ Valid said := by
  have hlt : ∀ id : NodeId, id.val < n ↔ id.index < nodesOf said := fun id => by
    rw [← hn, UInt64.lt_iff_toNat_lt, NodeId.index]
  constructor
  · rintro ⟨hnodes, hfinite, huniform⟩
    simp only [List.forall_mem_map, Entry.arc, hlt] at hnodes hfinite huniform
    refine ⟨fun id hid => ?_, hfinite, huniform⟩
    obtain ⟨e, he, rfl | rfl⟩ := mem_ids_iff.1 hid
    exacts [(hnodes e he).1, (hnodes e he).2]
  · rintro ⟨hnodes, hfinite, huniform⟩
    refine ⟨?_, ?_, ?_⟩ <;> simp only [List.forall_mem_map, Entry.arc, hlt]
    · exact fun e he => ⟨hnodes _ (mem_ids_iff.2 ⟨e, he, .inl rfl⟩),
        hnodes _ (mem_ids_iff.2 ⟨e, he, .inr rfl⟩)⟩
    · exact hfinite
    · exact huniform

/-- What has been read of a text becomes the graph that the text describes. -/
theorem toOffsetTable_takeAll [Memory.Allocator] {said : List (Line W)}
    (hids : ∀ id ∈ ids said, id < wordLimit - 1) {t : OffsetTable W} :
    (Contents.empty.takeAll 1 said).toOffsetTable false = .ok t ↔
      Valid said ∧ Builder.Allocatable (nodesOf said) (entries said).length ∧
        t = tableOf said := by
  obtain ⟨hcount, hentries⟩ := Contents.of_takeAll 1 hids
  have harcs : ((Contents.empty.takeAll 1 said).entries.toList.map fun x => x.2.arc) =
      (entries said).map Entry.arc := by
    rw [← hentries, List.map_map]
    rfl
  rw [Contents.toOffsetTable_eq_ok_iff, if_neg Bool.false_ne_true, harcs,
    Builder.build_addAll_new_iff, acceptable_iff hcount, hcount, List.length_map, List.any_map,
    List.map_map]
  rfl

/-- A text is accepted exactly if it is read by the grammar and describes a graph that can be
    allocated. -/
theorem parse_eq_ok_iff [Memory.Allocator] {text : List Char} {t : OffsetTable W} :
    parse text false = .ok t ↔
      ∃ said, Reads text said ∧ Valid said ∧
        Builder.Allocatable (nodesOf said) (entries said).length ∧ t = tableOf said := by
  constructor
  · intro h
    obtain ⟨c, hlines, htable⟩ := exists_of_bind_eq_ok h
    obtain ⟨said, hsaid, rfl⟩ := Contents.readLines_eq_ok_iff.1 hlines
    exact ⟨said, hsaid, (toOffsetTable_takeAll (Reads.ids_lt hsaid)).1 htable⟩
  · rintro ⟨said, hsaid, hgraph⟩
    have hlines : Contents.empty.readLines 1 ((Text.lines text).map some) = .ok _ :=
      Contents.readLines_eq_ok_iff.2 ⟨said, hsaid, rfl⟩
    rw [parse, parseLines, hlines]
    exact (toOffsetTable_takeAll (Reads.ids_lt hsaid)).2 hgraph

/-! ## What is read of the graph -/

theorem isSome_weights_tableOf (said : List (Line W)) :
    (tableOf said).weights.isSome = (entries said).any fun e => e.weight.isSome := by
  rw [tableOf, OffsetTable.isSome_weights_ofRows]

theorem nodeCount_tableOf (said : List (Line W)) : (tableOf said).nodeCount = nodesOf said := by
  rw [tableOf, OffsetTable.nodeCount_ofRows, Builder.length_rowsOf]

/-- The relationships of a node are those of the lines with this source, in the order of the
    lines. -/
theorem relationships_tableOf {said : List (Line W)} (hvalid : Valid said) (node : NodeId) :
    (tableOf said).relationships node =
      ((entries said).filter fun e => e.source = node).map fun e =>
        (e.target, e.weight.getD Weight.unit) := by
  by_cases hnode : node.index < nodesOf said
  · have hlt := hnode
    rw [← Builder.length_rowsOf (nodesOf said)
      ((entries said).map fun e => Builder.weighed e.arc)] at hlt
    have hrow : (Builder.rowsOf (nodesOf said)
        ((entries said).map fun e => Builder.weighed e.arc))[node.index] =
        ((entries said).filter fun e => e.source = node).map fun e =>
          (e.target, e.weight.getD Weight.unit) := by
      rw [Builder.getElem_rowsOf, List.filter_map, List.map_map]
      simp only [Function.comp_def, Builder.weighed, Entry.arc, NodeId.index_inj]
    rw [tableOf, OffsetTable.relationships_ofRows hlt, hrow]
    intro hnone r hr
    rw [hrow] at hr
    obtain ⟨e, he, rfl⟩ := List.mem_map.1 hr
    have : e.weight = none := by
      simpa using List.any_eq_false.1 hnone e (List.mem_filter.1 he).1
    simp [this]
  · have hnone : ((entries said).filter fun e => e.source = node) = [] := by
      rw [List.filter_eq_nil_iff]
      intro e he hsource
      obtain rfl : e.source = node := by simpa using hsource
      exact hnode (hvalid.nodes _ (mem_ids_iff.2 ⟨e, he, .inl rfl⟩))
    rw [OffsetTable.relationships_of_not_node (by rw [nodeCount_tableOf]; omega), hnone,
      List.map_nil]

theorem Reads.unique {text : List Char} {said said' : List (Line W)} (h : Reads text said)
    (h' : Reads text said') : said = said' := by
  unfold Reads at h h'
  generalize Text.lines text = lines at h h'
  induction h generalizing said' with
  | nil => exact (List.forall₂_nil_left_iff.1 h').symm
  | cons hwhat _ ih =>
    obtain ⟨what', said', hwhat', hsaid', rfl⟩ := List.forall₂_cons_left_iff.1 h'
    rw [ih hsaid']
    congr 1
    exact Except.ok.inj
      ((Line.read_eq_ok_iff.2 hwhat).symm.trans (Line.read_eq_ok_iff.2 hwhat'))

theorem parseBytes_utf8 [Memory.Allocator] (text : List Char) (undirected : Bool) :
    (parseBytes (Text.utf8 text) undirected : Except GraphError (OffsetTable W)) =
      parse text undirected := by
  rw [parseBytes, Text.byteLines_utf8, parse]

/-- A text whose header follows the only relationship. -/
def lateHeader : List Char := "0 1 1.5\n# nodes: 3".toList

/-- What `lateHeader` says. -/
def lateHeaderSaid : List (Line Float) := [.entry ⟨⟨0⟩, ⟨1⟩, some 1.5⟩, .nodeCount 3]

theorem reads_lateHeader : Reads lateHeader lateHeaderSaid := by
  have hlines : Text.lines lateHeader = ["0 1 1.5".toList, "# nodes: 3".toList] := by
    decide +kernel
  rw [Reads, hlines]
  exact .cons (Line.read_eq_ok_iff.1 rfl) (.cons (Line.read_eq_ok_iff.1 rfl) .nil)

theorem valid_lateHeader : Valid lateHeaderSaid where
  nodes := by decide
  finite := by
    rintro e (_ | ⟨_, _ | _⟩) w hw
    obtain rfl := Option.some.inj hw
    decide +kernel
  uniform := .inl (by rintro e (_ | ⟨_, _ | _⟩); rfl)

/-- A text is accepted exactly if each of its lines is a line of the format and together they
    describe a graph that can be allocated: ids below the node count, finite weights, and weights in
    all relationships or in none. Then the graph has the node count of the text, and the
    relationships of each node are those of the lines with this source, in the order of the lines,
    with their weights. -/
theorem parse_exact [Memory.Allocator] (text : List Char) :
    ((∃ t : OffsetTable W, parseBytes (Text.utf8 text) false = .ok t) ↔
      ∃ said : List (Line W), Reads text said ∧ Valid said ∧
        Builder.Allocatable (nodesOf said) (entries said).length) ∧
    ∀ (t : OffsetTable W) (said : List (Line W)),
      parseBytes (Text.utf8 text) false = .ok t → Reads text said →
        t.nodeCount = nodesOf said ∧
        (t.weights.isSome ↔ ∃ e ∈ entries said, e.weight.isSome) ∧
        ∀ node, t.fault? node = none ∧
          t.relationships node =
            ((entries said).filter fun e => e.source = node).map fun e =>
              (e.target, e.weight.getD Weight.unit) := by
  rw [parseBytes_utf8]
  constructor
  · simp only [parse_eq_ok_iff]
    constructor
    · rintro ⟨t, said, hreads, hvalid, hfits, -⟩
      exact ⟨said, hreads, hvalid, hfits⟩
    · rintro ⟨said, hreads, hvalid, hfits⟩
      exact ⟨tableOf said, said, hreads, hvalid, hfits, rfl⟩
  · intro t said hparse hreads
    obtain ⟨said', hreads', hvalid, -, rfl⟩ := parse_eq_ok_iff.1 hparse
    obtain rfl := hreads.unique hreads'
    refine ⟨nodeCount_tableOf said, ?_, fun node => ⟨?_, relationships_tableOf hvalid node⟩⟩
    · rw [isSome_weights_tableOf, List.any_eq_true]
    · exact OffsetTable.fault?_ofRows _ _ node

theorem parse_exact_lateHeader :
    ∃ t : OffsetTable Float, parseBytes (Text.utf8 lateHeader) false = .ok t ∧ t.nodeCount = 3 ∧
      t.relationships ⟨0⟩ = [(⟨1⟩, 1.5)] := by
  obtain ⟨haccepts, hgraph⟩ := parse_exact (W := Float) lateHeader
  obtain ⟨t, ht⟩ := haccepts.2
    ⟨lateHeaderSaid, reads_lateHeader, valid_lateHeader, by decide, by decide⟩
  obtain ⟨hcount, -, hrow⟩ := hgraph t lateHeaderSaid ht reads_lateHeader
  exact ⟨t, ht, hcount, (hrow ⟨0⟩).2⟩

end Superstep.EdgeList
