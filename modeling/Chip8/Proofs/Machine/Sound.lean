import Chip8.Proofs.CallStack
import Chip8.Proofs.Machine.Cycle
import Chip8.Proofs.Machine.Signals

/-!
# Sound machines

The invariant of a machine at rest between two requests. Its parts are bounds on the registers
that hold addresses, a tidy call stack, and the fact that a machine which waits for a key stands
on the very instruction that waits. Every signal keeps the invariant, and so does every cycle of a
machine that is not waiting.
-/

namespace Chip8.Machine

variable {m n : Machine} {i : Instruction} {op : Op}

/-- The next instruction is a key wait on behalf of a register. -/
def AtKeyWait (m : Machine) (x : Fin registerCount) : Prop :=
  ∃ word, m.memory.readWord m.pc.toNat = .ok word ∧ word.toNat = Op.keyWaitWord x

/-- The invariant of machines at rest. -/
structure Sound (m : Machine) : Prop where
  stack : m.stack.Tidy
  index_le : m.index.toNat ≤ addressMask
  pc_le : m.pc.toNat ≤ memorySize + 2
  active_of_latched : m.wait.latched ≠ none → m.wait.active = true
  parked : m.wait.active = true → m.AtKeyWait m.wait.register

/-- No instruction makes a tidy stack untidy. -/
theorem tidy_of_perform (hm : m.stack.Tidy) (h : m.perform i = .ok n) : n.stack.Tidy := by
  have hframe := (frame_of_perform h).stack
  obtain ⟨op, word⟩ := i
  cases op with
  | call =>
    obtain ⟨stack, hs, rfl⟩ := call_eq_ok_iff.mp h
    exact hm.push hs
  | ret =>
    obtain ⟨address, stack, hs, rfl⟩ := ret_eq_ok_iff.mp h
    exact hm.pop hs
  | _ => exact hframe nofun nofun ▸ hm

private theorem indexAfterTransfer_le (hm : m.index.toNat ≤ addressMask) (x : Fin registerCount) :
    (m.indexAfterTransfer x).toNat ≤ addressMask := by
  unfold indexAfterTransfer
  split
  · exact toNat_masked_le _
  · exact hm

private theorem glyphAddress_le (value : UInt8) :
    (UInt16.ofNat (Font.glyphAddress value.toNat)).toNat ≤ addressMask := by
  have h := (Font.glyphAddress_bounds value.toNat).2
  rw [Font.length_rows] at h
  simp only [fontStart, glyphSize] at h
  simp only [UInt16.toNat_ofNat', addressMask]
  omega

/-- The index stays an address of memory. -/
theorem index_le_of_perform (hm : m.index.toNat ≤ addressMask) (h : m.perform i = .ok n) :
    n.index.toNat ≤ addressMask := by
  have hframe := (frame_of_perform h).index
  obtain ⟨op, word⟩ := i
  cases op with
  | setIndex =>
    cases h
    exact toNat_masked_le word
  | addIndex =>
    cases h
    exact toNat_masked_le _
  | glyph =>
    cases h
    exact glyphAddress_le _
  | store =>
    obtain ⟨memory, -, rfl⟩ := storeRegisters_eq_ok_iff.mp h
    exact indexAfterTransfer_le hm _
  | load =>
    obtain ⟨values, -, rfl⟩ := loadRegisters_eq_ok_iff.mp h
    exact indexAfterTransfer_le hm _
  | _ => exact hframe rfl ▸ hm

/-- Going back over an instruction undoes going past it. -/
theorem toNat_sub_two {pc : UInt16} (h : 2 ≤ pc.toNat) : (pc - 2).toNat = pc.toNat - 2 :=
  UInt16.toNat_sub_of_le pc 2 (UInt16.le_iff_toNat_le.mpr h)

/-- An instruction before the end of memory goes at most two bytes past the end. -/
theorem pc_le_of_perform (hs : m.stack.Tidy) (hlow : 2 ≤ m.pc.toNat) (hm : m.pc.toNat ≤ memorySize)
    (h : m.perform i = .ok n) : n.pc.toNat ≤ memorySize + 2 := by
  have hframe := (frame_of_perform h).pc
  have hmask : ∀ pc : UInt16, pc.toNat ≤ addressMask → pc.toNat ≤ memorySize + 2 := by
    intro pc hpc
    simp only [addressMask, memorySize] at hpc ⊢
    omega
  obtain ⟨op, word⟩ := i
  cases op with
  | ret =>
    obtain ⟨address, stack, hpop, rfl⟩ := ret_eq_ok_iff.mp h
    exact hmask _ (hs.popped_le hpop)
  | call =>
    obtain ⟨stack, -, rfl⟩ := call_eq_ok_iff.mp h
    exact hmask _ (toNat_masked_le word)
  | jump =>
    cases h
    exact hmask _ (toNat_masked_le word)
  | jumpOffset =>
    cases h
    exact hmask _ (toNat_masked_le _)
  | skip condition =>
    cases h
    have hadd : (m.pc + 2).toNat = (m.pc.toNat + 2) % 2 ^ 16 := UInt16.toNat_add m.pc 2
    rw [skipIf_eq]
    simp only [memorySize] at hm ⊢
    split
    · omega
    · omega
  | awaitKey =>
    cases h
    have hsub := toNat_sub_two hlow
    simp only [awaitKey, memorySize] at hm ⊢
    omega
  | _ =>
    rw [hframe rfl]
    exact Nat.le_add_right_of_le hm

/-- A machine at a key wait starts to wait and stays where it is. -/
theorem AtKeyWait.cycle {x : Fin registerCount} (h : m.AtKeyWait x) :
    m.cycle = .ok (.awaitKey, { m with wait := .start x, cycles := m.cycles + 1 }) := by
  obtain ⟨word, hw, hword⟩ := h
  have hx := Op.x_of_keyWaitWord hword
  have hop : Op.ofWord? word.toNat = some .awaitKey :=
    Op.ofWord?_eq_awaitKey_iff.mpr (by rw [hx]; exact hword)
  refine cycle_eq_ok_iff.mpr ⟨word, _, hw, hop, rfl, ?_⟩
  simp [awaitKey, hx]

/-- Only a machine at a key wait runs one. -/
theorem awaitKey_of_cycle (h : m.cycle = .ok (.awaitKey, n)) :
    ∃ x, m.AtKeyWait x ∧ n = { m with wait := .start x, cycles := m.cycles + 1 } := by
  obtain ⟨word, -, hw, hop, -⟩ := cycle_eq_ok_iff.mp h
  have hat : m.AtKeyWait _ := ⟨word, hw, Op.ofWord?_eq_awaitKey_iff.mp hop⟩
  rw [hat.cycle] at h
  exact ⟨_, hat, (Prod.mk.inj (Except.ok.inj h)).2.symm⟩

/-- A cycle of a sound machine that does not wait ends in a sound machine. -/
theorem Sound.cycle (hm : m.Sound) (hidle : m.wait.active = false) (h : m.cycle = .ok (op, n)) :
    n.Sound := by
  by_cases hop : op = .awaitKey
  · subst hop
    obtain ⟨x, hat, rfl⟩ := awaitKey_of_cycle h
    exact ⟨hm.stack, hm.index_le, hm.pc_le, fun hl => absurd rfl hl, fun _ => hat⟩
  · obtain ⟨word, next, hw, -, hn, rfl⟩ := cycle_eq_ok_iff.mp h
    obtain ⟨hadd, hle⟩ := toNat_pc_add_two hw
    have hstack := tidy_of_perform (m := { m with pc := m.pc + 2 }) hm.stack hn
    have hindex := index_le_of_perform (m := { m with pc := m.pc + 2 }) hm.index_le hn
    have hpc := pc_le_of_perform (m := { m with pc := m.pc + 2 }) hm.stack
      (by simp only [hadd]; omega) (by simp only [hadd]; exact hle) hn
    have hwait : next.wait = m.wait := (frame_of_perform hn).wait hop
    refine ⟨hstack, hindex, hpc, ?_, ?_⟩
    · simp only [hwait]
      exact hm.active_of_latched
    · simp only [hwait, hidle, Bool.false_eq_true, false_implies]

theorem sound_initial (random : Random.Block) (dialect : Dialect) :
    (initial random dialect).Sound where
  stack := CallStack.tidy_empty
  index_le := Nat.zero_le _
  pc_le := show (UInt16.ofNat programStart).toNat ≤ memorySize + 2 by decide
  active_of_latched := fun h => absurd rfl h
  parked := nofun

/-- A loaded program changes memory alone. -/
theorem loadProgram?_eq_some {rom : List UInt8} (h : m.loadProgram? rom = some n) :
    n = { m with memory := n.memory } := by
  obtain ⟨memory, -, rfl⟩ := Option.map_eq_some_iff.mp h
  rfl

/-- A machine stays sound when a program is loaded before its first cycle. -/
theorem Sound.loadProgram? {rom : List UInt8} (hm : m.Sound) (hidle : m.wait.active = false)
    (h : m.loadProgram? rom = some n) : n.Sound := by
  rw [loadProgram?_eq_some h]
  exact ⟨hm.stack, hm.index_le, hm.pc_le, hm.active_of_latched, fun ha => by simp [hidle] at ha⟩

/-- A tick changes the timers alone. -/
theorem Sound.tick (hm : m.Sound) : m.tick.Sound :=
  ⟨hm.stack, hm.index_le, hm.pc_le, hm.active_of_latched, hm.parked⟩

/-- A key event changes the keypad and what is latched. -/
theorem Sound.setKey (hm : m.Sound) (k : Fin keyCount) (isDown : Bool) :
    (m.setKey k isDown).Sound := by
  have hwait := m.wait_setKey k isDown
  refine ⟨hm.stack, hm.index_le, hm.pc_le, ?_, ?_⟩
  · rw [hwait]
    split
    · next h =>
      intro _
      simp only [KeyWait.blocked, Bool.and_eq_true] at h
      exact h.2.1
    · exact hm.active_of_latched
  · rw [hwait]
    split
    · exact hm.parked
    · exact hm.parked

/-- Completing a key wait goes past its instruction, which lies inside memory. -/
theorem Sound.resume {key : Fin keyCount} (hm : m.Sound) (ha : m.wait.active = true)
    (hk : m.wait.latched = some key) : m.resume.Sound := by
  obtain ⟨word, hw, -⟩ := hm.parked ha
  obtain ⟨hadd, hle⟩ := toNat_pc_add_two hw
  rw [resume_of_latched ha hk]
  refine ⟨hm.stack, hm.index_le, ?_, fun hl => absurd rfl hl, nofun⟩
  simp only [hadd]
  exact Nat.le_add_right_of_le hle

end Chip8.Machine
