import Chip8.Proofs.CallStack
import Chip8.Proofs.Machine.Cycle

/-!
# Instructions that stay where they are

A jump to its own address repeats for ever and changes nothing but the count of cycles. A call or
a return that ends at its own address repeats as well, but it moves the depth of the call stack
every time.
-/

namespace Chip8.Machine

variable {m n m' n' : Machine} {op op' : Op}

/-- The operation of a cycle depends on memory and the program counter alone. -/
theorem op_eq_of_cycle (h : m.cycle = .ok (op, n)) (h' : m'.cycle = .ok (op', n'))
    (hmemory : m'.memory = m.memory) (hpc : m'.pc = m.pc) : op' = op := by
  obtain ⟨word, -, hw, hop, -⟩ := cycle_eq_ok_iff.mp h
  obtain ⟨word', -, hw', hop', -⟩ := cycle_eq_ok_iff.mp h'
  rw [hmemory, hpc, hw] at hw'
  obtain rfl : word = word' := Except.ok.inj hw'
  rw [hop] at hop'
  exact (Option.some.inj hop').symm

/-- A jump that stays where it is does so whatever the count of cycles, and only counts. -/
theorem cycle_of_jump_stays (h : m.cycle = .ok (op, n)) (hop : op = .jump ∨ op = .jumpOffset)
    (hpc : n.pc = m.pc) (count : Int) :
    { m with cycles := count }.cycle = .ok (op, { m with cycles := count + 1 }) := by
  obtain ⟨word, next, hw, hdecode, hn, rfl⟩ := cycle_eq_ok_iff.mp h
  refine cycle_eq_ok_iff.mpr ⟨word, { m with cycles := count }, hw, hdecode, ?_, rfl⟩
  rcases hop with rfl | rfl
  · cases hn
    simp only [perform, jumpTo] at hpc ⊢
    rw [hpc]
  · cases hn
    simp only [perform, jumpTo, offsetTarget, register] at hpc ⊢
    rw [hpc]

/-- A call and a return leave memory alone and change the depth of the call stack. -/
theorem stack_ne_of_cycle (h : m.cycle = .ok (op, n)) (hop : op = .call ∨ op = .ret) :
    n.memory = m.memory ∧ n.stack ≠ m.stack := by
  obtain ⟨word, next, -, -, hn, rfl⟩ := cycle_eq_ok_iff.mp h
  rcases hop with rfl | rfl
  · obtain ⟨stack, hpush, rfl⟩ := call_eq_ok_iff.mp hn
    refine ⟨rfl, fun he => ?_⟩
    have hlength := congrArg List.length (CallStack.toList_of_push hpush)
    obtain rfl : stack = m.stack := he
    simp at hlength
  · obtain ⟨address, stack, hpop, rfl⟩ := ret_eq_ok_iff.mp hn
    refine ⟨rfl, fun he => ?_⟩
    have hlength := congrArg List.length (CallStack.toList_of_pop hpop)
    obtain rfl : stack = m.stack := he
    simp at hlength

end Chip8.Machine
