import Chip8.Proofs.Machine.Cycle

/-!
# What instructions store

Two instructions store bytes, the decimal digits of a register and the registers up to one. Both
store them from the index on, and both fail unless the whole run lies between the start of programs
and the end of memory. Every other instruction leaves memory alone.
-/

namespace Chip8

/-- How many bytes an instruction stores. -/
def Instruction.stored (i : Instruction) : Nat :=
  match i.op with
  | .storeDecimal => 3
  | .store => i.x.val + 1
  | _ => 0

/-- Only two operations store anything. -/
theorem Instruction.op_of_stored_pos {i : Instruction} (h : 0 < i.stored) :
    i.op = .storeDecimal ∨ i.op = .store := by
  unfold stored at h
  split at h
  · next hop => exact Or.inl hop
  · next hop => exact Or.inr hop
  · cases h

namespace Machine

variable {m n : Machine} {i : Instruction}

/-- A write at the index that succeeds is a patch inside the part of memory that programs own. -/
theorem eq_patch_of_writeBytes {values : List UInt8} {memory : Memory} (hne : 0 < values.length)
    (h : m.memory.writeBytes m.index.toNat values = .ok memory) :
    memory = m.memory.patch m.index.toNat values ∧
      programStart ≤ m.index.toNat ∧ m.index.toNat + values.length ≤ memorySize := by
  obtain ⟨⟨hend, hstart⟩, he⟩ := Memory.writeBytes_eq_ok_iff.mp h
  have hlow := hstart (List.length_pos_iff.mp hne)
  rw [Int.toNat_natCast] at he
  exact ⟨he, Int.ofNat_le.mp hlow, by omega⟩

/-- The bytes that an instruction stores. -/
def storing (m : Machine) (i : Instruction) : List UInt8 :=
  match i.op with
  | .storeDecimal => decimalDigits (m.register i.x)
  | .store => m.registers.toList.take (i.x.val + 1)
  | _ => []

@[simp] theorem length_storing (m : Machine) (i : Instruction) :
    (m.storing i).length = i.stored := by
  obtain ⟨op, word⟩ := i
  cases op with
  | store => exact length_take_registers m.registers _
  | _ => rfl

/-- An instruction patches memory from the index on with the bytes that it stores. -/
theorem memory_of_perform (h : m.perform i = .ok n) :
    n.memory = m.memory.patch m.index.toNat (m.storing i) ∧
      (0 < i.stored → programStart ≤ m.index.toNat ∧ m.index.toNat + i.stored ≤ memorySize) := by
  have hframe := (frame_of_perform h).memory
  have hlength := m.length_storing i
  obtain ⟨op, word⟩ := i
  cases op with
  | storeDecimal =>
    obtain ⟨memory, hw, rfl⟩ := storeDecimal_eq_ok_iff.mp h
    obtain ⟨he, hbounds⟩ := eq_patch_of_writeBytes (by exact Nat.succ_pos 2) hw
    exact ⟨he, fun _ => hbounds⟩
  | store =>
    obtain ⟨memory, hw, rfl⟩ := storeRegisters_eq_ok_iff.mp h
    change (m.registers.toList.take _).length = _ at hlength
    obtain ⟨he, hbounds⟩ := eq_patch_of_writeBytes (by rw [hlength]; exact Nat.succ_pos _) hw
    rw [hlength] at hbounds
    exact ⟨he, fun _ => hbounds⟩
  | _ => exact ⟨hframe rfl, nofun⟩

/-- A byte that an instruction changes lies in the run that it stores. -/
theorem stored_of_get_ne (h : m.perform i = .ok n) {k : Fin memorySize}
    (hne : n.memory.get k ≠ m.memory.get k) :
    m.index.toNat ≤ k.val ∧ k.val < m.index.toNat + i.stored ∧
      programStart ≤ m.index.toNat ∧ m.index.toNat + i.stored ≤ memorySize := by
  obtain ⟨he, hbounds⟩ := memory_of_perform h
  have hinside : ¬ (k.val < m.index.toNat ∨ m.index.toNat + (m.storing i).length ≤ k.val) := by
    intro houtside
    rw [he, Memory.get_patch_of_outside m.memory houtside] at hne
    exact hne rfl
  rw [length_storing] at hinside
  have hpos : 0 < i.stored := by omega
  obtain ⟨hstart, hend⟩ := hbounds hpos
  exact ⟨by omega, by omega, hstart, hend⟩

end Machine

end Chip8
