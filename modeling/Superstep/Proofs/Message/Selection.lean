import Superstep.Message.Binary64
import Superstep.Proofs.Message.Collect

/-!
# Reductions that pick one of the messages

A reduction is selective if it makes of two messages one of the two: the first one, the least or the
greatest. A mailbox then holds one of the messages that it has taken, and the order in which they
arrive matters only to which one, so that it does not matter at all if they are equal. Minimum and
maximum are order-free besides; which message is the first one is a matter of order and of nothing
else.

Results:
* `Selective.exists_collect`: the message that is picked is one of those taken.
* `KeepsFirst.collect_eq_take`: it is the one that has arrived first.
* `Selective.collect_perm`: equal messages may arrive in any order.
* `selective_unsigned`, `selective_signed`, `selective_nodeId`, `keepsFirst_first`: the built-in
  reductions that are selective.
-/

namespace Superstep

namespace Reduction

variable {M : Type} [Message M] {r : Reduction M}

/-- A reduction that combines, and makes of two messages one of the two. -/
structure Selective (r : Reduction M) : Prop where
  isCombining : r.isCombining = true
  apply_eq : ∀ a b, r.apply a b = a ∨ r.apply a b = b

/-- A reduction that combines, and keeps the message that is there. -/
structure KeepsFirst (r : Reduction M) : Prop where
  isCombining : r.isCombining = true
  apply_eq : ∀ a b, r.apply a b = a

theorem KeepsFirst.selective (h : r.KeepsFirst) : r.Selective :=
  ⟨h.isCombining, fun a b => .inl (h.apply_eq a b)⟩

namespace Selective

theorem foldl_mem (h : r.Selective) (m : M) (rest : List M) :
    rest.foldl r.apply m ∈ m :: rest := by
  induction rest generalizing m with
  | nil => exact List.mem_singleton_self m
  | cons a rest ih =>
    have hmem : rest.foldl r.apply (r.apply m a) ∈ r.apply m a :: rest := ih (r.apply m a)
    rw [List.foldl_cons]
    rcases List.mem_cons.1 hmem with hpicked | hrest
    · rw [hpicked]
      rcases h.apply_eq m a with hm | ha
      · simp [hm]
      · simp [ha]
    · simp [hrest]

theorem exists_collect (h : r.Selective) {ms : List M} (hne : ms ≠ []) :
    ∃ m ∈ ms, r.collect ms = [m] := by
  cases ms with
  | nil => exact absurd rfl hne
  | cons m rest => exact ⟨_, h.foldl_mem m rest, collect_cons_of_combining h.isCombining m rest⟩

theorem mem_of_mem_collect (h : r.Selective) {ms : List M} {m : M} (hm : m ∈ r.collect ms) :
    m ∈ ms := by
  cases ms with
  | nil => exact absurd hm (by simp)
  | cons first rest =>
    obtain ⟨picked, hpicked, hcollect⟩ := h.exists_collect (List.cons_ne_nil first rest)
    rw [hcollect, List.mem_singleton] at hm
    exact hm ▸ hpicked

/-- Equal messages may arrive in any order. -/
theorem collect_perm (h : r.Selective) {ms ms' : List M} (hperm : ms.Perm ms')
    (hequal : ∀ a ∈ ms, ∀ b ∈ ms, a = b) : r.collect ms = r.collect ms' := by
  by_cases hne : ms = []
  · subst hne
    rw [List.nil_perm.1 hperm]
  · have hne' : ms' ≠ [] := fun hnil => hne (List.perm_nil.1 (hnil ▸ hperm))
    obtain ⟨m, hm, hcollect⟩ := h.exists_collect hne
    obtain ⟨m', hm', hcollect'⟩ := h.exists_collect hne'
    rw [hcollect, hcollect', hequal m hm m' (hperm.mem_iff.2 hm')]

end Selective

/-- The message that is left of several is the first of them. -/
theorem KeepsFirst.collect_eq_take (h : r.KeepsFirst) (ms : List M) :
    r.collect ms = ms.take 1 := by
  cases ms with
  | nil => exact collect_nil r
  | cons m rest =>
    have hfold : rest.foldl r.apply m = m := by
      induction rest with
      | nil => rfl
      | cons a rest ih => rw [List.foldl_cons, h.apply_eq, ih]
    rw [collect_cons_of_combining h.isCombining, hfold]
    rfl

/-! ## Built-in reductions -/

/-- What the built-in reduction to the first message is for a type of messages whose `reduce` treats
    it as such. -/
theorem keepsFirst_first (h : ∀ a b : M, Message.reduce .first a b = a) :
    (Reduction.builtin .first : Reduction M).KeepsFirst := ⟨rfl, h⟩

theorem selective_unsigned (n : Nat) {kind : Combiner} (h : kind = .min ∨ kind = .max) :
    (Reduction.builtin kind : Reduction (Unsigned n)).Selective := by
  rcases h with rfl | rfl
  · exact ⟨rfl, fun a b => (ite_eq_or_eq (b.toNat < a.toNat) b a).symm⟩
  · exact ⟨rfl, fun a b => (ite_eq_or_eq (a.toNat < b.toNat) b a).symm⟩

theorem selective_signed (n : Nat) {kind : Combiner} (h : kind = .min ∨ kind = .max) :
    (Reduction.builtin kind : Reduction (Signed n)).Selective := by
  rcases h with rfl | rfl
  · exact ⟨rfl, fun a b => (ite_eq_or_eq (b.toInt < a.toInt) b a).symm⟩
  · exact ⟨rfl, fun a b => (ite_eq_or_eq (a.toInt < b.toInt) b a).symm⟩

theorem selective_nodeId {kind : Combiner} (h : kind = .min ∨ kind = .max) :
    (Reduction.builtin kind : Reduction NodeId).Selective := by
  rcases h with rfl | rfl
  · exact ⟨rfl, fun a b => (ite_eq_or_eq (b < a) b a).symm⟩
  · exact ⟨rfl, fun a b => (ite_eq_or_eq (a < b) b a).symm⟩

end Reduction

end Superstep
