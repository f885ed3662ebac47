import Superstep.Proofs.EdgeList.Saving

/-!
# Success means that the whole text has been taken

However a limited writer deals with what it is offered, saving to it succeeds exactly if the graph
can be read and its text is within the limit. `upTo`, which takes whatever it can, and `whole`,
which takes all of a call or nothing, are two such writers that differ in what they hold after a
failure.

Results: `saved_iff_fits`.
-/

namespace Superstep.EdgeList

variable {W : Type} [Weight W]

/-! ## A writer that takes all or nothing -/

/-- A writer that takes what it is offered as a whole, as long as it holds no more than `limit`
    characters. It remembers whether it has refused anything. -/
def whole (limit : Nat) : Writer (List Char × Bool) where
  write s chunk :=
    if s.2 = false ∧ (s.1 ++ chunk).length ≤ limit then ((s.1 ++ chunk, false), .ok chunk.length)
    else ((s.1, true), .error "writer full")
  flush s := (s, .ok ())

/-- It is limited, and may be closed long before it holds all it could. -/
theorem limited_whole (limit : Nat) :
    (whole limit).Limited (some limit) Prod.fst fun s => s.2 = true where
  offered := by
    rintro ⟨held, refused⟩ chunk hopen hne
    obtain rfl : refused = false := Bool.eq_false_iff.mpr hopen
    by_cases hroom : (held ++ chunk).length ≤ limit
    · refine .inl ⟨chunk.length, ?_⟩
      simp only [whole, hroom, and_self, ↓reduceIte, List.take_length]
      refine ⟨trivial, List.length_pos_iff.mpr hne, Nat.le_refl _, trivial, ?_, nofun⟩
      rintro l ⟨⟩
      exact hroom
    · refine .inr ?_
      simp only [whole, hroom, and_false, ↓reduceIte]
      exact ⟨trivial, trivial, trivial, limit, rfl, Nat.not_le.mp hroom⟩
  further := by
    rintro ⟨held, refused⟩ chunk hclosed _
    obtain rfl : refused = true := hclosed
    simp only [whole, Bool.true_eq_false, false_and, ↓reduceIte]
    exact ⟨trivial, trivial, trivial⟩
  flushed s := ⟨rfl, rfl⟩

/-! ## Success and failure -/

/-- What is left of a graph's text, and with which result, where `fits` says whether there has been
    room for all of it. -/
structure Outcome (g : Graph W) (fits : Prop) (held : List Char) (result : Except GraphError Unit) :
    Prop where
  /-- Success means that all relationships have been read and all of the text has had room. -/
  ok_iff : result = .ok () ↔ (∀ node ∈ g.nodes, g.fault? node = none) ∧ fits
  whole : result = .ok () → held = text g
  refused : (∀ node ∈ g.nodes, g.fault? node = none) → ¬ fits →
    ∃ reason, result = .error (.io reason)
  beginning : held <+: text g

theorem Writer.Limited.outcome {σ : Type} {w : Writer σ} {limit : Option Nat}
    {held : σ → List Char} {closed : σ → Prop} (hw : w.Limited limit held closed) (g : Graph W)
    {s : σ} (hempty : held s = []) (hopen : closed s → limit = some 0) :
    Outcome g (∀ l ∈ limit, (text g).length ≤ l) (held (w.save g s).1) (w.save g s).2 := by
  by_cases hread : ∀ node ∈ g.nodes, g.fault? node = none
  · obtain ⟨hok, hheld, hfits⟩ | ⟨⟨reason, herror⟩, hheld, l, hl, hlt⟩ :=
      hw.save_of_readable hempty hopen hread
    · exact
        { ok_iff := iff_of_true hok ⟨hread, hfits⟩
          whole := fun _ => hheld
          refused := fun _ hnot => absurd hfits hnot
          beginning := hheld ▸ List.prefix_rfl }
    · have hnot : ¬ ∀ l ∈ limit, (text g).length ≤ l := fun hfits =>
        Nat.not_le.mpr hlt (hfits l hl)
      exact
        { ok_iff := iff_of_false (by simp [herror]) fun h => hnot h.2
          whole := fun hok => by simp [herror] at hok
          refused := fun _ _ => ⟨reason, herror⟩
          beginning := hheld }
  · obtain ⟨herror, hheld⟩ := hw.save_of_fault hempty hopen (by simpa using hread)
    exact
      { ok_iff := iff_of_false herror fun h => hread h.1
        whole := fun hok => absurd hok herror
        refused := fun h => absurd h hread
        beginning := hheld }

/-- A graph is saved with success exactly if it can be read and its text fits, and then what is kept
    is exactly its text. Otherwise, if it can be read, the result is an error of the writer, and in
    any case a beginning of the text is kept. This is so for the writer that takes whatever it can,
    and for every other writer that takes characters up to a limit. -/
theorem saved_iff_fits (g : Graph W) (limit : Option Nat) :
    Outcome g (∀ l ∈ limit, (text g).length ≤ l) (save g limit).1.toList (save g limit).2 ∧
      ∀ (σ : Type) (w : Writer σ) (held : σ → List Char) (closed : σ → Prop),
        w.Limited limit held closed → ∀ s, held s = [] → (closed s → limit = some 0) →
          Outcome g (∀ l ∈ limit, (text g).length ≤ l) (held (w.save g s).1) (w.save g s).2 := by
  refine ⟨(limited_upTo limit).outcome g rfl ?_,
    fun _ _ _ _ hw _ hempty hopen => hw.outcome g hempty hopen⟩
  rintro ⟨l, hl, hfull⟩
  obtain rfl : l = 0 := Nat.le_zero.mp hfull
  exact hl

/-- Two nodes and one relationship, which make a text of fifteen characters. -/
def joinedPair : Graph Float where
  nodeCount := 2
  relationshipCount := 1
  degree node := if node.val = 0 then 1 else 0
  relationships node := if node.val = 0 then [(⟨1⟩, 1.0)] else []
  fault? _ := none
  isWeighted := false

theorem saved_iff_fits_joinedPair :
    (save joinedPair (some 15)).2 = .ok () ∧
      (save joinedPair (some 15)).1.toList = "# nodes: 2\n0 1\n".toList ∧
      (∃ reason, (save joinedPair (some 14)).2 = .error (.io reason)) ∧
      (save joinedPair (some 14)).1.toList <+: "# nodes: 2\n0 1\n".toList ∧
      ∃ reason, ((whole 14).save joinedPair ([], false)).2 = .error (.io reason) := by
  have htext : text joinedPair = "# nodes: 2\n0 1\n".toList := by decide +kernel
  have hroom := (saved_iff_fits joinedPair (some 15)).1
  obtain ⟨hfull, hall⟩ := saved_iff_fits joinedPair (some 14)
  have hwhole := hall _ (whole 14) _ _ (limited_whole 14) ([], false) rfl nofun
  rw [htext] at hroom hfull hwhole
  have hok := hroom.ok_iff.mpr ⟨fun _ _ => rfl, by decide⟩
  exact ⟨hok, (hroom.whole hok).trans htext, hfull.refused (fun _ _ => rfl) (by decide),
    htext ▸ hfull.beginning, hwhole.refused (fun _ _ => rfl) (by decide)⟩

end Superstep.EdgeList
