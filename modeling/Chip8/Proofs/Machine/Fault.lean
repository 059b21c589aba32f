import Chip8.Proofs.CallStack
import Chip8.Proofs.Instruction.Pattern
import Chip8.Proofs.Machine.Cycle

/-!
# How a cycle can fail

A cycle fails if its word runs past the end of memory, if the word has no meaning, or if its
instruction calls or returns at a limit of the call stack or moves bytes to or from a place where it
may not. These are all the ways, each with its own fault, and in no state do two of them apply.
-/

namespace Chip8

namespace Op

/-- A word reads a number of bytes from the index on: it draws them or loads registers. -/
def ReadsRun (word length : Nat) : Prop :=
  Fits "DXYN" word ∧ length = word % 16 ∨ Fits "FX65" word ∧ length = word / 256 % 16 + 1

/-- A word writes a number of bytes from the index on: decimal digits or registers. -/
def WritesRun (word length : Nat) : Prop :=
  Fits "FX33" word ∧ length = 3 ∨ Fits "FX55" word ∧ length = word / 256 % 16 + 1

end Op

namespace Machine

variable {m n : Machine} {i : Instruction} {word : UInt16} {fault : Fault}

/-- The next word of a machine can be read and fits a pattern. -/
def Shows (m : Machine) (pattern : String) (word : UInt16) : Prop :=
  m.memory.readWord m.pc.toNat = .ok word ∧ Op.Fits pattern word.toNat

/-- The ways in which the next cycle of a machine fails, with the word if that can be read. -/
inductive Fails (m : Machine) : Option UInt16 → Fault → Prop where
  /-- The word runs past the end of memory. -/
  | fetch (hend : memorySize < m.pc.toNat + 2) :
    Fails m none (.outOfBounds (max m.pc.toNat memorySize) .outside)
  /-- The word fits no pattern. -/
  | unrecognised {word : UInt16} (hword : m.memory.readWord m.pc.toNat = .ok word)
    (hnone : ∀ op : Op, ¬ Op.Fits op.pattern word.toNat) :
    Fails m (some word) (.unknownOpcode word.toNat .unrecognised)
  /-- The word calls a routine of the host processor. -/
  | machineCall {word : UInt16} (hword : m.Shows "0NNN" word) (hclear : word ≠ 0x00E0)
    (hret : word ≠ 0x00EE) :
    Fails m (some word) (.unknownOpcode word.toNat .machineCall)
  /-- The word calls a subroutine with every frame in use. -/
  | call {word : UInt16} (hword : m.Shows "2NNN" word) (hdepth : m.stack.depth = stackFrames) :
    Fails m (some word) (.stackOverflow stackFrames)
  /-- The word returns with no frame in use. -/
  | ret {word : UInt16} (hword : m.Shows "00EE" word) (hdepth : m.stack.depth = 0) :
    Fails m (some word) .stackUnderflow
  /-- The word reads a run of bytes that goes past the end of memory. -/
  | read {word : UInt16} {length : Nat} (hword : m.memory.readWord m.pc.toNat = .ok word)
    (hrun : Op.ReadsRun word.toNat length) (hend : memorySize < m.index.toNat + length) :
    Fails m (some word) (.outOfBounds (max m.index.toNat memorySize) .outside)
  /-- The word writes a run of bytes that goes past the end of memory. -/
  | writeOutside {word : UInt16} {length : Nat} (hword : m.memory.readWord m.pc.toNat = .ok word)
    (hrun : Op.WritesRun word.toNat length) (hend : memorySize < m.index.toNat + length) :
    Fails m (some word) (.outOfBounds (max m.index.toNat memorySize) .outside)
  /-- The word writes a run of bytes that starts below the part that programs own. -/
  | writeReserved {word : UInt16} {length : Nat} (hword : m.memory.readWord m.pc.toNat = .ok word)
    (hrun : Op.WritesRun word.toNat length) (hend : m.index.toNat + length ≤ memorySize)
    (hlow : m.index.toNat < programStart) :
    Fails m (some word) (.outOfBounds m.index.toNat .reserved)

theorem call_eq_error_iff {address : UInt16} :
    m.call address = .error fault ↔
      m.stack.depth = stackFrames ∧ fault = .stackOverflow stackFrames := by
  rw [call, bind_pure_eq_error_iff, CallStack.push_eq_error_iff]

theorem ret_eq_error_iff : m.ret = .error fault ↔ m.stack.depth = 0 ∧ fault = .stackUnderflow := by
  rw [ret, ← CallStack.pop_eq_error_iff]
  exact bind_pure_eq_error_iff

/-- A run from the index on is refused for reading if it goes past the end of memory. -/
theorem readBytes_index_eq_error_iff {length : Nat} :
    m.memory.readBytes m.index.toNat length = .error fault ↔
      memorySize < m.index.toNat + length ∧
        fault = .outOfBounds (max m.index.toNat memorySize) .outside := by
  rw [Memory.readBytes_eq_error_iff]
  apply and_congr_left
  intro _
  omega

theorem drawSprite_eq_error_iff {x y : Fin registerCount} {height : Nat} :
    m.drawSprite x y height = .error fault ↔
      memorySize < m.index.toNat + height ∧
        fault = .outOfBounds (max m.index.toNat memorySize) .outside := by
  rw [drawSprite, ← readBytes_index_eq_error_iff]
  exact bind_pure_eq_error_iff

theorem loadRegisters_eq_error_iff {x : Fin registerCount} :
    m.loadRegisters x = .error fault ↔
      memorySize < m.index.toNat + (x.val + 1) ∧
        fault = .outOfBounds (max m.index.toNat memorySize) .outside := by
  rw [loadRegisters, ← readBytes_index_eq_error_iff]
  exact bind_pure_eq_error_iff

/-- A run from the index on is refused for writing if it goes past the end of memory, or else if it
starts below the part that programs own. -/
theorem writeBytes_index_eq_error_iff {values : List UInt8} {length : Nat} (hpos : 0 < length)
    (hlength : values.length = length) :
    m.memory.writeBytes m.index.toNat values = .error fault ↔
      (memorySize < m.index.toNat + length ∧
        fault = .outOfBounds (max m.index.toNat memorySize) .outside) ∨
      (m.index.toNat + length ≤ memorySize ∧ m.index.toNat < programStart ∧
        fault = .outOfBounds m.index.toNat .reserved) := by
  have hne : (length : Int) ≠ 0 := by omega
  rw [Memory.writeBytes_eq_error_iff, Memory.checkWritable_eq_error_iff, hlength]
  simp only [hne, ne_eq, not_false_eq_true, true_and]
  apply or_congr
  · apply and_congr_left
    intro _
    omega
  · apply and_congr
    · omega
    · apply and_congr_left
      intro _
      omega

theorem storeDecimal_eq_error_iff {x : Fin registerCount} :
    m.storeDecimal x = .error fault ↔
      (memorySize < m.index.toNat + 3 ∧
        fault = .outOfBounds (max m.index.toNat memorySize) .outside) ∨
      (m.index.toNat + 3 ≤ memorySize ∧ m.index.toNat < programStart ∧
        fault = .outOfBounds m.index.toNat .reserved) := by
  have hlength : (decimalDigits (m.register x)).length = 3 := rfl
  rw [storeDecimal, ← writeBytes_index_eq_error_iff (by decide) hlength]
  exact bind_pure_eq_error_iff

theorem storeRegisters_eq_error_iff {x : Fin registerCount} :
    m.storeRegisters x = .error fault ↔
      (memorySize < m.index.toNat + (x.val + 1) ∧
        fault = .outOfBounds (max m.index.toNat memorySize) .outside) ∨
      (m.index.toNat + (x.val + 1) ≤ memorySize ∧ m.index.toNat < programStart ∧
        fault = .outOfBounds m.index.toNat .reserved) := by
  have hlength := length_take_registers m.registers x
  rw [storeRegisters, ← writeBytes_index_eq_error_iff (Nat.succ_pos x) hlength]
  exact bind_pure_eq_error_iff

/-- The instruction of a word that reads a run fails exactly if the run goes past the end of
memory. -/
theorem exists_op_of_readsRun {length : Nat} (h : Op.ReadsRun word.toNat length) :
    ∃ op, Op.ofWord? word.toNat = some op ∧ ∀ {m : Machine} {fault},
      m.perform ⟨op, word⟩ = .error fault ↔
        memorySize < m.index.toNat + length ∧
          fault = .outOfBounds (max m.index.toNat memorySize) .outside := by
  rcases h with ⟨hfits, rfl⟩ | ⟨hfits, rfl⟩
  · exact ⟨.draw, Op.ofWord?_of_fits hfits nofun, drawSprite_eq_error_iff⟩
  · exact ⟨.load, Op.ofWord?_of_fits hfits nofun, loadRegisters_eq_error_iff⟩

/-- The instruction of a word that writes a run fails exactly if the run goes past the end of memory
or starts below the part that programs own. -/
theorem exists_op_of_writesRun {length : Nat} (h : Op.WritesRun word.toNat length) :
    ∃ op, Op.ofWord? word.toNat = some op ∧ ∀ {m : Machine} {fault},
      m.perform ⟨op, word⟩ = .error fault ↔
        (memorySize < m.index.toNat + length ∧
          fault = .outOfBounds (max m.index.toNat memorySize) .outside) ∨
        (m.index.toNat + length ≤ memorySize ∧ m.index.toNat < programStart ∧
          fault = .outOfBounds m.index.toNat .reserved) := by
  rcases h with ⟨hfits, rfl⟩ | ⟨hfits, rfl⟩
  · exact ⟨.storeDecimal, Op.ofWord?_of_fits hfits nofun, storeDecimal_eq_error_iff⟩
  · exact ⟨.store, Op.ofWord?_of_fits hfits nofun, storeRegisters_eq_error_iff⟩

/-- The next word cannot be read if it goes past the end of memory. -/
theorem fetch_eq_error_iff :
    m.fetch = .error fault ↔
      memorySize < m.pc.toNat + 2 ∧ fault = .outOfBounds (max m.pc.toNat memorySize) .outside := by
  rw [fetch, bind_pure_eq_error_iff, Memory.readWord_eq_error_iff]
  apply and_congr_left
  intro _
  omega

/-- A word that is read fails in the way of its instruction. -/
theorem fails_of_perform {op : Op} (hword : m.memory.readWord m.pc.toNat = .ok word)
    (hop : Op.ofWord? word.toNat = some op)
    (h : { m with pc := m.pc + 2 }.perform ⟨op, word⟩ = .error fault) :
    m.Fails (some word) fault := by
  have hfits := Op.fits_of_ofWord? hop
  cases op with
  | machineCall =>
    cases h
    obtain ⟨hclear, hret⟩ := Op.ne_of_ofWord?_machineCall hop
    refine .machineCall ⟨hword, hfits⟩ ?_ ?_
    · rintro rfl
      exact hclear rfl
    · rintro rfl
      exact hret rfl
  | call =>
    obtain ⟨hdepth, rfl⟩ := call_eq_error_iff.mp h
    exact .call ⟨hword, hfits⟩ hdepth
  | ret =>
    obtain ⟨hdepth, rfl⟩ := ret_eq_error_iff.mp h
    exact .ret ⟨hword, hfits⟩ hdepth
  | draw =>
    obtain ⟨hend, rfl⟩ := drawSprite_eq_error_iff.mp h
    exact .read hword (Or.inl ⟨hfits, rfl⟩) hend
  | load =>
    obtain ⟨hend, rfl⟩ := loadRegisters_eq_error_iff.mp h
    exact .read hword (Or.inr ⟨hfits, rfl⟩) hend
  | storeDecimal =>
    rcases storeDecimal_eq_error_iff.mp h with ⟨hend, rfl⟩ | ⟨hend, hlow, rfl⟩
    · exact .writeOutside hword (Or.inl ⟨hfits, rfl⟩) hend
    · exact .writeReserved hword (Or.inl ⟨hfits, rfl⟩) hend hlow
  | store =>
    rcases storeRegisters_eq_error_iff.mp h with ⟨hend, rfl⟩ | ⟨hend, hlow, rfl⟩
    · exact .writeOutside hword (Or.inr ⟨hfits, rfl⟩) hend
    · exact .writeReserved hword (Or.inr ⟨hfits, rfl⟩) hend hlow
  | _ => cases h

/-- A cycle fails if its instruction does. -/
theorem cycle_of_perform_error {op : Op} (hword : m.memory.readWord m.pc.toNat = .ok word)
    (hop : Op.ofWord? word.toNat = some op)
    (h : { m with pc := m.pc + 2 }.perform ⟨op, word⟩ = .error fault) :
    m.cycle = .error ⟨fault, m.site (some word)⟩ := by
  have hfetch := fetch_eq_ok_iff.mpr ⟨hword, rfl⟩
  have hdecode : Instruction.ofWord word = .ok ⟨op, word⟩ :=
    Instruction.ofWord_eq_ok_iff.mpr ⟨hop, rfl⟩
  simp only [cycle, hfetch, hdecode, h]

/-- A cycle fails in each of the ways. -/
theorem Fails.cycle_eq {opcode : Option UInt16} (h : m.Fails opcode fault) :
    m.cycle = .error ⟨fault, m.site opcode⟩ := by
  cases h with
  | fetch hend =>
    have hread := fetch_eq_error_iff.mpr ⟨hend, rfl⟩
    simp only [cycle, hread]
  | @unrecognised word hword hnone =>
    have hfetch := fetch_eq_ok_iff.mpr ⟨hword, rfl⟩
    have hop := Op.ofWord?_eq_none_iff.mpr hnone
    simp only [cycle, hfetch, Instruction.ofWord, hop]
  | @machineCall word hword hclear hret =>
    have hop : Op.ofWord? word.toNat = some .machineCall := by
      refine Op.ofWord?_of_fits hword.2 fun _ => ⟨?_, ?_⟩
      · exact fun h => hclear (UInt16.toNat_inj.mp h)
      · exact fun h => hret (UInt16.toNat_inj.mp h)
    exact cycle_of_perform_error hword.1 hop rfl
  | @call word hword hdepth =>
    have hop : Op.ofWord? word.toNat = some .call := Op.ofWord?_of_fits hword.2 (by simp)
    exact cycle_of_perform_error hword.1 hop (call_eq_error_iff.mpr ⟨hdepth, rfl⟩)
  | @ret word hword hdepth =>
    have hop : Op.ofWord? word.toNat = some .ret := Op.ofWord?_of_fits hword.2 (by simp)
    exact cycle_of_perform_error hword.1 hop (ret_eq_error_iff.mpr ⟨hdepth, rfl⟩)
  | read hword hrun hend =>
    obtain ⟨op, hop, hfaults⟩ := exists_op_of_readsRun hrun
    exact cycle_of_perform_error hword hop (hfaults.mpr ⟨hend, rfl⟩)
  | writeOutside hword hrun hend =>
    obtain ⟨op, hop, hfaults⟩ := exists_op_of_writesRun hrun
    exact cycle_of_perform_error hword hop (hfaults.mpr (Or.inl ⟨hend, rfl⟩))
  | writeReserved hword hrun hend hlow =>
    obtain ⟨op, hop, hfaults⟩ := exists_op_of_writesRun hrun
    exact cycle_of_perform_error hword hop (hfaults.mpr (Or.inr ⟨hend, hlow, rfl⟩))

/-- A cycle fails in no other way, and its report says where. -/
theorem cycle_eq_error_iff {report : Report} :
    m.cycle = .error report ↔
      ∃ opcode fault, m.Fails opcode fault ∧ report = ⟨fault, m.site opcode⟩ := by
  constructor
  · intro h
    rcases report_of_cycle h with ⟨fault, hread, rfl⟩ | ⟨word, fetched, fault, hfetch, hrest, rfl⟩
    · obtain ⟨hend, rfl⟩ := fetch_eq_error_iff.mp hread
      exact ⟨none, _, .fetch hend, rfl⟩
    · obtain ⟨hword, rfl⟩ := fetch_eq_ok_iff.mp hfetch
      refine ⟨some word, fault, ?_, rfl⟩
      unfold Instruction.ofWord at hrest
      cases hop : Op.ofWord? word.toNat with
      | none =>
        rw [hop] at hrest
        cases hrest
        exact .unrecognised hword (Op.ofWord?_eq_none_iff.mp hop)
      | some op =>
        rw [hop] at hrest
        exact fails_of_perform hword hop hrest
  · rintro ⟨opcode, fault, hfails, rfl⟩
    exact hfails.cycle_eq

end Machine

end Chip8
