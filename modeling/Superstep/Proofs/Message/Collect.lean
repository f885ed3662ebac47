import Mathlib.Tactic
import Mathlib.Data.List.Perm.Basic
import Superstep.Message.Mailboxes
import Superstep.Message.Payload
import Superstep.Proofs.Storage.Paged

/-!
# What a mailbox makes of the messages it takes

`Reduction.collect` is what a mailbox holds once it has taken a list of messages: all of them, or
their left-to-right fold as a single message. An order-free reduction is one for which the order of
arrival does not matter.

Results:
* `deliver_collect`: messages delivered one by one are collected.
* `collect_perm`: an order-free reduction collects the same from every arrangement of the messages.
* `orderFree_unsigned`, `orderFree_signed`, `orderFree_nodeId`: the built-in reductions that are
  order-free.
-/

namespace Superstep

namespace Reduction

variable {M : Type} [Message M]

/-- What a mailbox holds that has taken the given messages. -/
def collect (r : Reduction M) (ms : List M) : List M :=
  if r.isCombining then
    match ms with
    | [] => []
    | m :: rest => [rest.foldl r.apply m]
  else ms

/-- A reduction that combines, and for which the order of the messages does not matter. -/
structure OrderFree (r : Reduction M) : Prop where
  isCombining : r.isCombining = true
  assoc : ∀ a b c, r.apply (r.apply a b) c = r.apply a (r.apply b c)
  comm : ∀ a b, r.apply a b = r.apply b a

@[simp] theorem collect_nil (r : Reduction M) : r.collect [] = [] := by
  unfold collect
  split <;> rfl

theorem collect_eq_nil_iff {r : Reduction M} {ms : List M} : r.collect ms = [] ↔ ms = [] := by
  unfold collect
  split
  · cases ms <;> simp
  · rfl

theorem collect_of_not_combining {r : Reduction M} (h : r.isCombining = false) (ms : List M) :
    r.collect ms = ms := by
  simp [collect, h]

theorem collect_cons_of_combining {r : Reduction M} (h : r.isCombining = true) (m : M)
    (rest : List M) : r.collect (m :: rest) = [rest.foldl r.apply m] := by
  simp [collect, h]

theorem length_collect_le {r : Reduction M} (h : r.isCombining = true) (ms : List M) :
    (r.collect ms).length ≤ 1 := by
  cases ms with
  | nil => simp
  | cons m rest => simp [collect_cons_of_combining h]

/-- A message that is delivered is collected with those before it. -/
theorem deliver_collect (r : Reduction M) (ms : List M) (m : M) :
    Mailboxes.deliver r m (r.collect ms).toArray = (r.collect (ms ++ [m])).toArray := by
  unfold Mailboxes.deliver
  cases h : r.isCombining with
  | false =>
    rw [collect_of_not_combining h, collect_of_not_combining h]
    simp
  | true =>
    cases ms with
    | nil => simp [collect_cons_of_combining h]
    | cons first rest =>
      rw [List.cons_append, collect_cons_of_combining h, collect_cons_of_combining h,
        List.foldl_append]
      simp

/-! ## Order-free reductions -/

namespace OrderFree

variable {r : Reduction M}

/-- Instances for the lemmas on folds. -/
theorem commutative (h : r.OrderFree) : Std.Commutative r.apply := ⟨h.comm⟩

theorem associative (h : r.OrderFree) : Std.Associative r.apply := ⟨h.assoc⟩

/-- An order-free reduction collects the same from every arrangement of the messages. -/
theorem collect_perm (h : r.OrderFree) {ms ms' : List M} (hperm : ms.Perm ms') :
    r.collect ms = r.collect ms' := by
  have := h.commutative
  have := h.associative
  induction hperm with
  | nil => rfl
  | cons m hrest _ =>
    rw [collect_cons_of_combining h.isCombining, collect_cons_of_combining h.isCombining,
      hrest.foldl_op_eq]
  | swap a b rest =>
    rw [collect_cons_of_combining h.isCombining, collect_cons_of_combining h.isCombining,
      List.foldl_cons, List.foldl_cons, h.comm]
  | trans _ _ ih1 ih2 => rw [ih1, ih2]

end OrderFree

theorem orderFree_of_min {r : Reduction M} (h : r.isCombining = true) {κ : Type} [LinearOrder κ]
    (key : M → κ) (hkey : Function.Injective key)
    (happly : ∀ a b, key (r.apply a b) = min (key a) (key b)) : r.OrderFree := by
  refine ⟨h, fun a b c => hkey ?_, fun a b => hkey ?_⟩
  · rw [happly, happly, happly, happly, min_assoc]
  · rw [happly, happly, min_comm]

theorem orderFree_of_max {r : Reduction M} (h : r.isCombining = true) {κ : Type} [LinearOrder κ]
    (key : M → κ) (hkey : Function.Injective key)
    (happly : ∀ a b, key (r.apply a b) = max (key a) (key b)) : r.OrderFree := by
  refine ⟨h, fun a b c => hkey ?_, fun a b => hkey ?_⟩
  · rw [happly, happly, happly, happly, max_assoc]
  · rw [happly, happly, max_comm]

end Reduction

/-! ## Built-in reductions -/

theorem Unsigned.toNat_injective (n : Nat) : Function.Injective (Unsigned.toNat (n := n)) := by
  rintro ⟨a⟩ ⟨b⟩ h
  congr 1
  exact BitVec.eq_of_toNat_eq h

theorem Signed.toInt_injective (n : Nat) : Function.Injective (Signed.toInt (n := n)) := by
  rintro ⟨a⟩ ⟨b⟩ h
  congr 1
  exact BitVec.eq_of_toInt_eq h

theorem NodeId.index_injective : Function.Injective NodeId.index :=
  fun _ _ h => NodeId.index_inj.1 h

namespace Reduction

/-- Sum, minimum and maximum of unsigned integers are order-free. -/
theorem orderFree_unsigned (n : Nat) {kind : Combiner}
    (h : kind = .sum ∨ kind = .min ∨ kind = .max) :
    (Reduction.builtin kind : Reduction (Unsigned n)).OrderFree := by
  rcases h with rfl | rfl | rfl
  · refine ⟨rfl, ?_, ?_⟩
    · intro a b c
      exact congrArg Unsigned.mk (BitVec.add_assoc a.bits b.bits c.bits)
    · intro a b
      exact congrArg Unsigned.mk (BitVec.add_comm a.bits b.bits)
  · refine orderFree_of_min rfl Unsigned.toNat (Unsigned.toNat_injective n) ?_
    intro a b
    show Unsigned.toNat (if b.toNat < a.toNat then b else a) = _
    split_ifs <;> omega
  · refine orderFree_of_max rfl Unsigned.toNat (Unsigned.toNat_injective n) ?_
    intro a b
    show Unsigned.toNat (if a.toNat < b.toNat then b else a) = _
    split_ifs <;> omega

/-- Sum, minimum and maximum of signed integers are order-free. -/
theorem orderFree_signed (n : Nat) {kind : Combiner}
    (h : kind = .sum ∨ kind = .min ∨ kind = .max) :
    (Reduction.builtin kind : Reduction (Signed n)).OrderFree := by
  rcases h with rfl | rfl | rfl
  · refine ⟨rfl, ?_, ?_⟩
    · intro a b c
      exact congrArg Signed.mk (BitVec.add_assoc a.bits b.bits c.bits)
    · intro a b
      exact congrArg Signed.mk (BitVec.add_comm a.bits b.bits)
  · refine orderFree_of_min rfl Signed.toInt (Signed.toInt_injective n) ?_
    intro a b
    show Signed.toInt (if b.toInt < a.toInt then b else a) = _
    split_ifs <;> omega
  · refine orderFree_of_max rfl Signed.toInt (Signed.toInt_injective n) ?_
    intro a b
    show Signed.toInt (if a.toInt < b.toInt then b else a) = _
    split_ifs <;> omega

theorem orderFree_nodeId {kind : Combiner} (h : kind = .min ∨ kind = .max) :
    (Reduction.builtin kind : Reduction NodeId).OrderFree := by
  rcases h with rfl | rfl
  · refine orderFree_of_min rfl NodeId.index NodeId.index_injective ?_
    intro a b
    show NodeId.index (if b.val < a.val then b else a) = _
    simp only [NodeId.index, UInt64.lt_iff_toNat_lt]
    split_ifs <;> omega
  · refine orderFree_of_max rfl NodeId.index NodeId.index_injective ?_
    intro a b
    show NodeId.index (if a.val < b.val then b else a) = _
    simp only [NodeId.index, UInt64.lt_iff_toNat_lt]
    split_ifs <;> omega

end Reduction

/-! ## Mailboxes -/

namespace Mailboxes

variable {M : Type}

/-- The mailboxes of `n` nodes. -/
structure Shaped (b : Mailboxes M) (n : Nat) : Prop where
  even : b.even.Shaped n
  odd : b.odd.Shaped n

namespace Shaped

variable {b : Mailboxes M} {n : Nat}

theorem inboxes (h : b.Shaped n) (t : Nat) : (b.inboxes t).Shaped n := by
  unfold Mailboxes.inboxes
  split
  · exact h.even
  · exact h.odd

theorem modify (h : b.Shaped n) (t i : Nat) (f : Array M → Array M) :
    (b.modify t i f).Shaped n := by
  by_cases ht : t % 2 = 0
  · simp only [Mailboxes.modify, if_pos ht]
    exact ⟨h.even.modify i f, h.odd⟩
  · simp only [Mailboxes.modify, if_neg ht]
    exact ⟨h.even, h.odd.modify i f⟩

theorem exists_waiting? (h : b.Shaped n) (t : Nat) {i : Nat} (hi : i < n) :
    ∃ box, b.waiting? t i = some box := (h.inboxes t).exists_get? hi

end Shaped

theorem waiting?_modify (b : Mailboxes M) (t i j : Nat) (f : Array M → Array M) :
    (b.modify t i f).waiting? t j = if i = j then (b.waiting? t j).map f else b.waiting? t j := by
  unfold waiting? inboxes modify
  by_cases ht : t % 2 = 0
  · simp only [if_pos ht]
    exact PagedArray.get?_modify _ _ _ _
  · simp only [if_neg ht]
    exact PagedArray.get?_modify _ _ _ _

theorem waiting?_modify_of_ne (b : Mailboxes M) {s t : Nat} (h : s % 2 ≠ t % 2) (i j : Nat)
    (f : Array M → Array M) : (b.modify s i f).waiting? t j = b.waiting? t j := by
  unfold waiting? inboxes modify
  by_cases hs : s % 2 = 0
  · have ht : ¬ t % 2 = 0 := by omega
    simp only [if_pos hs, if_neg ht]
  · have ht : t % 2 = 0 := by omega
    simp only [if_neg hs, if_pos ht]

theorem waiting?_congr (b : Mailboxes M) {s t : Nat} (h : s % 2 = t % 2) (i : Nat) :
    b.waiting? s i = b.waiting? t i := by
  unfold waiting? inboxes
  rw [h]

theorem new_spec [Memory.Allocator] {n : Nat} {b : Mailboxes M} (h : Mailboxes.new n = .ok b) :
    b.Shaped n ∧ ∀ t, ∀ i < n, b.waiting? t i = some #[] := by
  unfold Mailboxes.new at h
  simp only [bind, Except.bind] at h
  split at h
  · cases h
  · next boxes hboxes =>
    cases h
    obtain ⟨hshaped, -, hempty⟩ := PagedArray.new_spec hboxes
    refine ⟨⟨hshaped, hshaped⟩, ?_⟩
    intro t i hi
    unfold waiting? inboxes
    rw [ite_self]
    exact hempty i hi

end Mailboxes

end Superstep
