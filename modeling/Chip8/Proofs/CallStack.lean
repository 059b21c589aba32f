import Chip8.CallStack

/-!
# Slots of the call stack

Pushes and pops are described by the slots that they change. Pushes mask the address and pops
clear the slot, so on every stack that is built from the empty one all slots hold addresses of
memory, and a slot out of use holds zero.
-/

namespace Chip8

/-- The low twelve bits of a word are an address of memory. -/
theorem toNat_masked_le (word : UInt16) : (word % 4096).toNat ≤ addressMask := by
  have h := Nat.mod_lt word.toNat (show 0 < 4096 by decide)
  have he : (word % 4096).toNat = word.toNat % 4096 := UInt16.toNat_mod word 4096
  simp only [he, addressMask]
  omega

namespace CallStack

variable {s t : CallStack} {address : UInt16} {fault : Fault}

/-- The content of a slot, in use or not. -/
def slot (s : CallStack) (k : Fin stackFrames) : UInt16 := s.slots[k]

/-- Stacks of the same depth with the same slots are equal. -/
@[ext] theorem ext (hd : s.depth = t.depth) (hs : ∀ k, s.slot k = t.slot k) : s = t := by
  obtain ⟨slots, depth, hle⟩ := s
  obtain ⟨slots', depth', hle'⟩ := t
  obtain rfl : depth = depth' := hd
  obtain rfl : slots = slots' := Vector.ext fun k hk => hs ⟨k, hk⟩
  rfl

@[simp] theorem slot_empty (k : Fin stackFrames) : empty.slot k = 0 := by
  simp [slot, empty]

/-- A push succeeds below the limit and writes the masked address to the slot at the depth. -/
theorem push_eq_ok_iff :
    s.push address = .ok t ↔ s.depth < stackFrames ∧ t.depth = s.depth + 1 ∧
      ∀ k, t.slot k = if k.val = s.depth then address % 4096 else s.slot k := by
  unfold push
  split
  · next h =>
    rw [Except.ok.injEq, CallStack.ext_iff]
    simp only [h, true_and, slot, Fin.getElem_fin, Vector.getElem_set, eq_comm (a := s.depth)]
    exact and_congr eq_comm (forall_congr' fun k => eq_comm)
  · next h => simp [h]

/-- A pop succeeds above the bottom, hands out the slot below the depth and clears it. -/
theorem pop_eq_ok_iff :
    s.pop = .ok (address, t) ↔ s.depth = t.depth + 1 ∧
      (∀ k : Fin stackFrames, k.val = t.depth → address = s.slot k) ∧
      ∀ k, t.slot k = if k.val = t.depth then 0 else s.slot k := by
  have hle := s.depth_le
  unfold pop
  split
  · next h => simp [h]
  · next h =>
    rw [Except.ok.injEq, Prod.mk.injEq, CallStack.ext_iff]
    simp only [slot, Fin.getElem_fin, Vector.getElem_set]
    constructor
    · rintro ⟨rfl, hd, hs⟩
      refine ⟨by omega, fun k hk => ?_, fun k => ?_⟩
      · simp only [hk, hd]
      · rw [← hs k, hd]
        simp only [eq_comm (a := t.depth)]
    · rintro ⟨hd, ha, hs⟩
      refine ⟨?_, by omega, fun k => ?_⟩
      · rw [ha ⟨s.depth - 1, by omega⟩ (by simp; omega)]
      · rw [hs k]
        simp only [hd, Nat.add_sub_cancel, eq_comm (a := t.depth)]

/-- A push fails exactly if every slot is in use. -/
theorem push_eq_error_iff :
    s.push address = .error fault ↔ s.depth = stackFrames ∧ fault = .stackOverflow stackFrames := by
  have hle := s.depth_le
  unfold push
  split
  · next h => simp [Nat.ne_of_lt h]
  · next h =>
    have hfull : s.depth = stackFrames := Nat.le_antisymm hle (Nat.not_lt.mp h)
    simp [hfull, eq_comm]

/-- A pop fails exactly if no slot is in use. -/
theorem pop_eq_error_iff : s.pop = .error fault ↔ s.depth = 0 ∧ fault = .stackUnderflow := by
  unfold pop
  split
  · next h => simp [h, eq_comm]
  · next h => simp [h]

/-- Every slot holds an address of memory, and the slots out of use are clear. -/
structure Tidy (s : CallStack) : Prop where
  slot_le : ∀ k, (s.slot k).toNat ≤ addressMask
  clear : ∀ k : Fin stackFrames, s.depth ≤ k → s.slot k = 0

theorem tidy_empty : empty.Tidy := ⟨by simp, by simp⟩

/-- Pushing any word keeps a stack tidy. -/
theorem Tidy.push (hs : s.Tidy) (h : s.push address = .ok t) : t.Tidy := by
  obtain ⟨-, hd, hk⟩ := push_eq_ok_iff.mp h
  constructor
  · intro k
    rw [hk k]
    split
    · exact toNat_masked_le address
    · exact hs.slot_le k
  · intro k hle
    rw [hk k, if_neg (by omega)]
    exact hs.clear k (by omega)

/-- Popping keeps a stack tidy. -/
theorem Tidy.pop (hs : s.Tidy) (h : s.pop = .ok (address, t)) : t.Tidy := by
  obtain ⟨hd, -, hk⟩ := pop_eq_ok_iff.mp h
  constructor
  · intro k
    rw [hk k]
    split
    · simp
    · exact hs.slot_le k
  · intro k hle
    rw [hk k]
    split
    · rfl
    · exact hs.clear k (by omega)

/-- What a tidy stack hands out is an address of memory. -/
theorem Tidy.popped_le (hs : s.Tidy) (h : s.pop = .ok (address, t)) :
    address.toNat ≤ addressMask := by
  obtain ⟨hd, ha, -⟩ := pop_eq_ok_iff.mp h
  have hle := s.depth_le
  rw [ha ⟨t.depth, by omega⟩ rfl]
  exact hs.slot_le _

/-- A push leaves the slots in use alone. -/
theorem slot_of_push (h : s.push address = .ok t) {k : Fin stackFrames} (hk : k.val < s.depth) :
    t.slot k = s.slot k := by
  obtain ⟨-, -, hslot⟩ := push_eq_ok_iff.mp h
  rw [hslot k, if_neg (Nat.ne_of_lt hk)]

/-- A pop leaves the slots alone that stay in use. -/
theorem slot_of_pop (h : s.pop = .ok (address, t)) {k : Fin stackFrames} (hk : k.val < t.depth) :
    t.slot k = s.slot k := by
  obtain ⟨-, -, hslot⟩ := pop_eq_ok_iff.mp h
  rw [hslot k, if_neg (Nat.ne_of_lt hk)]

/-- A pop undoes a push, also from a stack that only agrees with the result of the push on the slots
in use. -/
theorem pop_undoes_push {r u : CallStack} {popped : UInt16} (hs : s.Tidy) (hr : r.Tidy)
    (hpush : s.push address = .ok t) (hdepth : r.depth = t.depth)
    (hagree : ∀ k : Fin stackFrames, k.val < t.depth → r.slot k = t.slot k)
    (hpop : r.pop = .ok (popped, u)) : popped = address % 4096 ∧ u = s := by
  obtain ⟨hlimit, htop, ht⟩ := push_eq_ok_iff.mp hpush
  obtain ⟨hbelow, hpopped, hu⟩ := pop_eq_ok_iff.mp hpop
  have hsame : u.depth = s.depth := by omega
  constructor
  · have hlast : r.slot ⟨s.depth, hlimit⟩ = t.slot ⟨s.depth, hlimit⟩ :=
      hagree ⟨s.depth, hlimit⟩ (by rw [htop]; exact Nat.lt_succ_self _)
    rw [hpopped ⟨s.depth, hlimit⟩ hsame.symm, hlast, ht, if_pos rfl]
  · apply CallStack.ext hsame
    intro k
    rw [hu k, hsame]
    rcases Nat.lt_trichotomy k.val s.depth with hk | hk | hk
    · have hused : k.val < t.depth := by omega
      rw [if_neg (Nat.ne_of_lt hk), hagree k hused, slot_of_push hpush hk]
    · rw [if_pos hk, hs.clear k (Nat.le_of_eq hk.symm)]
    · have hfree : r.depth ≤ k.val := by omega
      rw [if_neg (Nat.ne_of_gt hk), hr.clear k hfree, hs.clear k (Nat.le_of_lt hk)]

end CallStack

end Chip8
