import Mathlib.Data.Set.Defs
import Chip8.Machine.Signals
import Chip8.Proofs.Machine.Storage

/-!
# What a cycle reads

A cycle reads the word at the program counter, and its instruction may read a run of bytes from the
index on: a draw reads its rows and a load its registers. Two machines that differ only in bytes
which the cycle does not read do the same and fail alike. Afterwards they differ in the same bytes,
those apart that the cycle stores.
-/

namespace Chip8

/-- How many bytes an instruction reads from the index on. -/
def Instruction.loaded (i : Instruction) : Nat :=
  match i.op with
  | .draw => i.n
  | .load => i.x.val + 1
  | _ => 0

namespace Machine

variable {m n : Machine} {i : Instruction} {memory : Memory}

/-- The next cycle of a machine reads a byte: one of its word or, if its instruction reads a run from
the index on, one of that run. -/
def Reads (m : Machine) (k : Fin memorySize) : Prop :=
  k.val = m.pc.toNat ∨ k.val = m.pc.toNat + 1 ∨
    ∃ i, m.StandsAt i ∧ m.index.toNat ≤ k.val ∧ k.val < m.index.toNat + i.loaded

instance (m : Machine) (k : Fin memorySize) : Decidable (m.Reads k) :=
  decidable_of_iff (k.val = m.pc.toNat ∨ k.val = m.pc.toNat + 1 ∨
      ∃ i ∈ m.standing?, m.index.toNat ≤ k.val ∧ k.val < m.index.toNat + i.loaded) (by
    simp only [Reads, Option.mem_def, standing?_eq_some_iff])

/-- The same machine with another memory. -/
def withMemory (m : Machine) (memory : Memory) : Machine := { m with memory }

@[simp] theorem register_withMemory (m : Machine) (memory : Memory) (x : Fin registerCount) :
    (m.withMemory memory).register x = m.register x := rfl

/-- Register arithmetic works without memory. -/
theorem combine_withMemory (m : Machine) (memory : Memory) (operation : Alu)
    (x y : Fin registerCount) :
    (m.withMemory memory).combine operation x y = (m.combine operation x y).withMemory memory := by
  have hdialect : (m.withMemory memory).dialect = m.dialect := rfl
  simp only [combine, register_withMemory, hdialect]
  generalize operation.apply _ _ = outcome
  cases outcome.flag with
  | none => rfl
  | some flag =>
    cases operation.isShift with
    | false => rfl
    | true => rfl

/-- An instruction does the same with a memory that agrees on the bytes that it reads, and stores the
same bytes in it. -/
theorem perform_withMemory (h : ∀ k : Fin memorySize, m.index.toNat ≤ k.val →
      k.val < m.index.toNat + i.loaded → memory.get k = m.memory.get k) :
    (m.withMemory memory).perform i = (m.perform i).map fun n =>
      n.withMemory (memory.patch m.index.toNat (m.storing i)) := by
  have hread : memory.readBytes m.index.toNat i.loaded = m.memory.readBytes m.index.toNat i.loaded :=
    Memory.readBytes_congr h
  have hwrite := m.memory.writeBytes_congr memory m.index.toNat (m.storing i)
  obtain ⟨op, word⟩ := i
  cases op with
  | ret =>
    change (m.withMemory memory).ret = _ <$> m.ret
    rw [ret, ret, map_bind]
    rfl
  | call =>
    change (m.withMemory memory).call _ = _ <$> m.call _
    rw [call, call, map_bind]
    rfl
  | skip condition =>
    refine congrArg Except.ok ?_
    rw [skipIf_eq, skipIf_eq]
    rfl
  | alu operation => exact congrArg Except.ok (m.combine_withMemory memory operation _ _)
  | draw =>
    change (m.withMemory memory).drawSprite _ _ _ = _ <$> m.drawSprite _ _ _
    rw [drawSprite, drawSprite, map_bind]
    exact congrArg (· >>= _) hread
  | load =>
    change (m.withMemory memory).loadRegisters _ = _ <$> m.loadRegisters _
    rw [loadRegisters, loadRegisters, map_bind]
    exact congrArg (· >>= _) hread
  | storeDecimal =>
    change (m.withMemory memory).storeDecimal _ = _ <$> m.storeDecimal _
    rw [storeDecimal, storeDecimal, map_bind]
    exact (congrArg (· >>= _) hwrite).trans (bind_map_left _ _ _)
  | store =>
    change (m.withMemory memory).storeRegisters _ = _ <$> m.storeRegisters _
    rw [storeRegisters, storeRegisters, map_bind]
    exact (congrArg (· >>= _) hwrite).trans (bind_map_left _ _ _)
  | _ => rfl

/-- The bytes that the next cycle of a machine stores, if it succeeds. -/
def storingNext (m : Machine) : List UInt8 :=
  match m.standing? with
  | some i => m.storing i
  | none => []

/-- A cycle does the same with a memory that agrees on the bytes that it reads, and stores the same
bytes in it. -/
theorem cycle_withMemory (h : ∀ k, m.Reads k → memory.get k = m.memory.get k) :
    (m.withMemory memory).cycle = m.cycle.map (Prod.map id fun n =>
      n.withMemory (memory.patch m.index.toNat m.storingNext)) := by
  refine cycle_map (f := (·.withMemory memory)) ?_ (fun _ => rfl) (fun _ => rfl) fun i hi => ?_
  · have hword : memory.readWord m.pc.toNat = m.memory.readWord m.pc.toNat :=
      Memory.readWord_congr fun k hk => h k (hk.imp_right Or.inl)
    change (m.withMemory memory).fetch = _ <$> m.fetch
    rw [fetch, fetch, map_bind]
    exact congrArg (· >>= _) hword
  · have hstoring : m.storingNext = m.storing i := by
      simp only [storingNext, standing?_eq_some_iff.mpr hi]
    rw [hstoring]
    refine perform_withMemory (m := { m with pc := m.pc + 2 }) fun k hlow hhigh => ?_
    exact h k (Or.inr (Or.inr ⟨i, hi, hlow, hhigh⟩))

/-- A cycle that succeeds patches memory with the bytes of its instruction. -/
theorem memory_of_cycle (hi : m.StandsAt i) (h : m.cycle = .ok (i.op, n)) :
    n.memory = m.memory.patch m.index.toNat (m.storing i) := by
  obtain ⟨word, next, hw, hop, hn, rfl⟩ := cycle_eq_ok_iff.mp h
  have hword : ⟨i.op, word⟩ = i := StandsAt.unique ⟨hw, hop⟩ hi
  rw [hword] at hn
  exact (memory_of_perform hn).1

/-- Two machines that are alike but for the bytes at some addresses, which differ. -/
structure AlikeBut (differing : Set (Fin memorySize)) (m n : Machine) : Prop where
  rest : n = m.withMemory n.memory
  memory : ∀ k, n.memory.get k ≠ m.memory.get k ↔ k ∈ differing

variable {differing : Set (Fin memorySize)}

/-- Two machines that are alike but for memory differ there in some bytes. -/
theorem alikeBut_of_withMemory (h : n = m.withMemory n.memory) :
    m.AlikeBut {k | n.memory.get k ≠ m.memory.get k} n := ⟨h, fun _ => Iff.rfl⟩

/-- What works without memory leaves two machines as alike as before. -/
theorem AlikeBut.map {f : Machine → Machine} (h : m.AlikeBut differing n)
    (hf : ∀ m memory, f (m.withMemory memory) = (f m).withMemory memory) :
    (f m).AlikeBut differing (f n) := by
  have hmemory (m : Machine) : (f m).memory = m.memory := by
    have he : f m = (f m).withMemory m.memory := hf m m.memory
    rw [he]
    rfl
  refine ⟨?_, ?_⟩
  · rw [hmemory, ← hf, ← h.rest]
  · rw [hmemory, hmemory]
    exact h.memory

/-- The completion of a key wait works without memory. -/
theorem resume_withMemory (m : Machine) (memory : Memory) :
    (m.withMemory memory).resume = m.resume.withMemory memory := by
  have hwait : (m.withMemory memory).wait = m.wait := rfl
  unfold resume
  rw [hwait]
  cases m.wait.active with
  | false => rfl
  | true =>
    cases m.wait.latched with
    | none => rfl
    | some key => rfl

/-- Two machines that differ only in bytes which the next cycle does not read fail alike or go on
alike. Then they differ in the same bytes, those apart that the cycle stores. -/
theorem AlikeBut.cycle (h : m.AlikeBut differing n) (hunread : ∀ k ∈ differing, ¬ m.Reads k) :
    (∃ report, m.cycle = .error report ∧ n.cycle = .error report) ∨
      ∃ i next next', m.StandsAt i ∧ m.cycle = .ok (i.op, next) ∧ n.cycle = .ok (i.op, next') ∧
        next.AlikeBut
          {k ∈ differing | ¬ (m.index.toNat ≤ k.val ∧ k.val < m.index.toNat + i.stored)} next' := by
  have hagree : ∀ k, m.Reads k → n.memory.get k = m.memory.get k := by
    intro k hk
    exact Decidable.byContradiction fun hne => hunread k ((h.memory k).mp hne) hk
  have hcycle := cycle_withMemory hagree
  rw [← h.rest] at hcycle
  rw [hcycle]
  cases hc : m.cycle with
  | error report => exact Or.inl ⟨report, rfl, rfl⟩
  | ok outcome =>
    obtain ⟨op, next⟩ := outcome
    obtain ⟨word, -, hw, hop, -⟩ := cycle_eq_ok_iff.mp hc
    have hi : m.StandsAt ⟨op, word⟩ := ⟨hw, hop⟩
    have hstoring : m.storingNext = m.storing ⟨op, word⟩ := by
      simp only [storingNext, standing?_eq_some_iff.mpr hi]
    refine Or.inr ⟨_, next, _, hi, rfl, rfl, rfl, fun k => ?_⟩
    change (n.memory.patch _ _).get k ≠ _ ↔ _
    rw [hstoring, memory_of_cycle hi hc, Memory.get_patch_ne_iff, h.memory, length_storing]
    rfl

end Machine

end Chip8
