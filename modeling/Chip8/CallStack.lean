import Chip8.Fault

/-!
# The call stack

Sixteen slots of return addresses and a depth. Slots below the depth are in use; a slot is
cleared when its address is taken back. The view is `toList`, the addresses in use from the
oldest to the newest.
-/

namespace Chip8

/-- The frames of the subroutines that have not returned. -/
structure CallStack where
  /-- Every slot, in use or not. -/
  slots : Vector UInt16 stackFrames
  /-- How many slots are in use. -/
  depth : Nat
  /-- No more slots are in use than there are. -/
  depth_le : depth ≤ stackFrames
  deriving DecidableEq, Repr

namespace CallStack

/-- No frame in use and every slot clear. -/
def empty : CallStack := ⟨Vector.replicate stackFrames 0, 0, Nat.zero_le _⟩

/-- The return addresses in use, the oldest first. -/
def toList (s : CallStack) : List UInt16 := s.slots.toList.take s.depth

@[simp] theorem toList_empty : empty.toList = [] := by simp [toList, empty]

@[simp] theorem length_toList (s : CallStack) : s.toList.length = s.depth := by
  have h := s.depth_le
  simp only [toList, List.length_take, Vector.length_toList]
  omega

/-- A stack that holds the given addresses, at most one for each slot, over clear slots. -/
def ofList (addresses : List UInt16) : CallStack where
  slots := Vector.ofFn fun i => addresses[i.val]?.getD 0
  depth := min addresses.length stackFrames
  depth_le := Nat.min_le_right _ _

/-- Put the low twelve bits of an address on the stack. -/
def push (s : CallStack) (address : UInt16) : Except Fault CallStack :=
  if h : s.depth < stackFrames then
    .ok { slots := s.slots.set s.depth (address % 4096), depth := s.depth + 1, depth_le := h }
  else
    .error (.stackOverflow stackFrames)

/-- Take the newest address back and clear its slot. -/
def pop (s : CallStack) : Except Fault (UInt16 × CallStack) :=
  if h : s.depth = 0 then
    .error .stackUnderflow
  else
    have hd : s.depth - 1 < stackFrames := by
      have := s.depth_le
      omega
    .ok (s.slots[s.depth - 1],
      { slots := s.slots.set (s.depth - 1) 0, depth := s.depth - 1, depth_le := Nat.le_of_lt hd })

/-- Pushing appends the masked address. -/
theorem toList_of_push {s t : CallStack} {address : UInt16} (h : s.push address = .ok t) :
    t.toList = s.toList ++ [address % 4096] := by
  unfold push at h
  split at h
  · next hd =>
    cases h
    rw [toList, toList, Vector.toList_set, List.take_succ_eq_append_getElem (by simpa using hd),
      List.take_set_of_le (Nat.le_refl _), List.getElem_set_self]
  · cases h

/-- Popping gives the newest address and drops it. -/
theorem toList_of_pop {s t : CallStack} {address : UInt16} (h : s.pop = .ok (address, t)) :
    s.toList = t.toList ++ [address] := by
  unfold pop at h
  split at h
  · cases h
  · next hd =>
    have hle := s.depth_le
    cases h
    have hlast := List.take_succ_eq_append_getElem (l := s.slots.toList) (i := s.depth - 1)
      (by simp only [Vector.length_toList]; omega)
    rw [Nat.sub_add_cancel (by omega), Vector.getElem_toList] at hlast
    rw [toList, toList, Vector.toList_set, List.take_set_of_le (Nat.le_refl _)]
    exact hlast

end CallStack

end Chip8
