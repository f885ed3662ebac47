import Mathlib.Data.List.Basic
import Superstep.Graph.OffsetTable

/-!
# Offset tables as rows

A sound offset table is nothing but the rows of its nodes, written one behind the other: `ofRows`
is the table with given rows. The offset of a node is the number of relationships in the rows before
its own (`rowStart`), so that the stretch of a node is its row.

Results: `nodeCount_ofRows`, `relationships_ofRows` and `fault?_ofRows`, what is read of the table
with given rows.
-/

namespace Superstep.OffsetTable

/-! ## Rows written one behind the other -/

section Rows

variable {α : Type} {rows : List (List α)} {i : Nat}

/-- Where the row of a node starts. -/
def rowStart (rows : List (List α)) (i : Nat) : Nat := (rows.take i).flatten.length

theorem flatten_take_succ (h : i < rows.length) :
    (rows.take (i + 1)).flatten = (rows.take i).flatten ++ rows[i] := by
  rw [List.take_succ_eq_append_getElem h, List.flatten_append, List.flatten_singleton]

theorem rowStart_succ (h : i < rows.length) :
    rowStart rows (i + 1) = rowStart rows i + rows[i].length := by
  rw [rowStart, flatten_take_succ h, List.length_append, rowStart]

theorem rowStart_le_succ (h : i < rows.length) : rowStart rows i ≤ rowStart rows (i + 1) := by
  rw [rowStart_succ h]
  exact Nat.le_add_right _ _

theorem rowStart_le (rows : List (List α)) (i : Nat) : rowStart rows i ≤ rows.flatten.length := by
  conv_rhs => rw [← List.take_append_drop i rows, List.flatten_append, List.length_append]
  exact Nat.le_add_right _ _

theorem extract_flatten (h : i < rows.length) :
    (rows.flatten.toArray.extract (rowStart rows i) (rowStart rows (i + 1))).toList = rows[i] := by
  have hsplit : rows.flatten =
      (rows.take i).flatten ++ (rows[i] ++ (rows.drop (i + 1)).flatten) := by
    conv_lhs => rw [← List.take_append_drop (i + 1) rows]
    rw [List.flatten_append, flatten_take_succ h, List.append_assoc]
  rw [List.extract_toArray, List.extract_eq_take_drop, rowStart_succ h, Nat.add_sub_cancel_left,
    hsplit, rowStart, List.drop_left, List.take_left]

theorem extract_map_flatten {β : Type} (f : α → β) (h : i < rows.length) :
    ((rows.flatten.map f).toArray.extract (rowStart rows i) (rowStart rows (i + 1))).toList =
      rows[i].map f := by
  rw [← List.map_toArray, ← Array.map_extract, Array.toList_map, extract_flatten h]

end Rows

/-! ## Tables -/

variable {W : Type} {weighted : Bool} {rows : List (List (NodeId × W))} {node : NodeId}

/-- The offset table whose nodes have the given rows, with or without weights. -/
def ofRows (weighted : Bool) (rows : List (List (NodeId × W))) : OffsetTable W where
  offsets := ((List.range (rows.length + 1)).map (rowStart rows)).toArray
  targets := (rows.flatten.map Prod.fst).toArray
  weights := if weighted then some (rows.flatten.map Prod.snd).toArray else none

@[simp] theorem nodeCount_ofRows : (ofRows weighted rows).nodeCount = rows.length := by
  simp [nodeCount, ofRows]

@[simp] theorem isSome_weights_ofRows : (ofRows weighted rows).weights.isSome = weighted := by
  cases weighted <;> rfl

theorem size_targets_ofRows : (ofRows weighted rows).targets.size = rows.flatten.length := by
  rw [ofRows, List.size_toArray, List.length_map]

theorem stretch?_ofRows (h : node.index < rows.length) :
    (ofRows weighted rows).stretch? node =
      some (rowStart rows node.index, rowStart rows (node.index + 1)) := by
  have hoffset : ∀ i < rows.length + 1,
      (ofRows weighted rows).offsets[i]? = some (rowStart rows i) := by
    intro i hi
    simp [ofRows, hi]
  rw [stretch?, hoffset _ (by omega), hoffset _ (by omega)]

/-- Reading the table gives the rows back. Without weights of their own, relationships have unit
    weight. -/
theorem relationships_ofRows [Weight W] (h : node.index < rows.length)
    (hunit : weighted = false → ∀ r ∈ rows[node.index], r.2 = Weight.unit) :
    (ofRows weighted rows).relationships node = rows[node.index] := by
  unfold relationships
  rw [stretch?_ofRows h]
  cases weighted with
  | true =>
    simp only [ofRows, ↓reduceIte]
    rw [extract_map_flatten _ h, extract_map_flatten _ h, List.zip_map']
    exact List.map_id _
  | false =>
    have hfits : rowStart rows (node.index + 1) ≤ (ofRows false rows).targets.size := by
      rw [size_targets_ofRows]
      exact rowStart_le rows (node.index + 1)
    have hread := stretchOf_of_le (rowStart_le_succ h) hfits
    simp only [ofRows, Bool.false_eq_true, ↓reduceIte] at hread ⊢
    rw [hread]
    dsimp only
    rw [extract_map_flatten _ h, List.map_map]
    conv_rhs => rw [← List.map_id rows[node.index]]
    exact List.map_congr_left fun r hr => Prod.ext rfl (hunit rfl r hr).symm

theorem fault?_ofRows (weighted : Bool) (rows : List (List (NodeId × W))) (node : NodeId) :
    (ofRows weighted rows).fault? node = none := by
  unfold fault?
  by_cases h : node.index < rows.length
  · have hle := rowStart_le rows (node.index + 1)
    rw [stretch?_ofRows h]
    cases weighted with
    | true =>
      simp only [ofRows, ↓reduceIte, missing?, List.size_toArray, List.length_map, Nat.min_self]
      rw [if_pos (by omega)]
    | false =>
      have hsucc := rowStart_le_succ h
      simp only [ofRows, Bool.false_eq_true, ↓reduceIte, stretchFault?, List.size_toArray,
        List.length_map]
      rw [if_neg (by omega), if_neg (by omega), if_neg (by omega)]
  · rw [stretch?_eq_none_iff.2 (by rw [nodeCount_ofRows]; omega)]

end Superstep.OffsetTable
