import Chip8.Proofs.Instruction.Pattern
import Chip8.Proofs.Machine.Cycle

/-!
# Where a program goes on

A cycle takes a program to the next word unless its own word says otherwise. Jumps, calls and
returns name the address, a key wait stays where it is, and a skip leaves out a word if its condition
holds. Only the addresses that a word names are kept to twelve bits. Of two skips with opposite
conditions on the same operands exactly one leaves out a word.
-/

namespace Chip8

namespace Op

/-- The register that the second digit of a word names. -/
def registerX (word : Nat) : Fin registerCount := ⟨word / 256 % 16, Nat.mod_lt _ (by decide)⟩

/-- The register that the third digit of a word names. -/
def registerY (word : Nat) : Fin registerCount := ⟨word / 16 % 16, Nat.mod_lt _ (by decide)⟩

/-- The patterns of the words that take a program to an address of their own, the skips apart. -/
def redirecting : List String := ["1NNN", "2NNN", "BNNN", "00EE", "FX0A"]

end Op

namespace Machine

variable {m n : Machine} {op : Op} {word : UInt16} {i : Instruction}

/-- The condition of a skip, in terms of its word. -/
def Meets (m : Machine) (word : Nat) : Condition → Prop
  | .byteEqual => (m.register (Op.registerX word)).toNat = word % 256
  | .byteDiffers => (m.register (Op.registerX word)).toNat ≠ word % 256
  | .registersEqual => m.register (Op.registerX word) = m.register (Op.registerY word)
  | .registersDiffer => m.register (Op.registerX word) ≠ m.register (Op.registerY word)
  | .keyDown => m.keypad.isDown
      ⟨(m.register (Op.registerX word)).toNat % 16, Nat.mod_lt _ (by decide)⟩ = true
  | .keyUp => m.keypad.isDown
      ⟨(m.register (Op.registerX word)).toNat % 16, Nat.mod_lt _ (by decide)⟩ = false

/-- A word is a skip whose condition holds. -/
def Skips (m : Machine) (word : Nat) : Prop :=
  ∃ condition : Condition, Op.Fits condition.pattern word ∧ m.Meets word condition

/-- Where a machine that meets a word goes on. -/
structure GoesOn (m : Machine) (word next : Nat) : Prop where
  jump : Op.Fits "1NNN" word ∨ Op.Fits "2NNN" word → next = word % 4096
  /-- The dialect says which register the offset is taken from. -/
  jumpOffset : Op.Fits "BNNN" word →
    next = (word % 4096 + (m.register
      (if m.dialect.offsetJumpReadsX then Op.registerX word else firstRegister)).toNat) % 4096
  ret : word = 0x00EE → ∃ address, m.stack.toList.getLast? = some address ∧ next = address.toNat
  awaitKey : Op.Fits "FX0A" word → next = m.pc.toNat
  skip : m.Skips word → next = m.pc.toNat + 4
  others : (∀ pattern ∈ Op.redirecting, ¬ Op.Fits pattern word) → ¬ m.Skips word →
    next = m.pc.toNat + 2

/-- The condition that a skip tests is that of its word. -/
theorem holds_iff_meets (m : Machine) (condition : Condition) (word : UInt16) :
    m.holds ⟨.skip condition, word⟩ condition = true ↔ m.Meets word.toNat condition := by
  have hbyte (x : Fin registerCount) : m.register x = word.toUInt8 ↔
      (m.register x).toNat = word.toNat % 256 := by
    rw [← UInt8.toNat_inj, UInt16.toNat_toUInt8]
  cases condition with
  | byteEqual => exact beq_iff_eq.trans (hbyte _)
  | byteDiffers => exact bne_iff_ne.trans (hbyte _).not
  | registersEqual => exact beq_iff_eq
  | registersDiffer => exact bne_iff_ne
  | keyDown => exact Iff.rfl
  | keyUp => exact iff_of_eq (Bool.not_eq_true' _)

/-- Only the condition of its own pattern makes a word skip. -/
theorem skips_iff {condition : Condition} (hop : Op.ofWord? word.toNat = some (.skip condition)) :
    m.Skips word.toNat ↔ m.holds ⟨.skip condition, word⟩ condition = true := by
  rw [holds_iff_meets]
  constructor
  · rintro ⟨condition', hfits, hmeets⟩
    cases Op.eq_of_fits (.skip condition') hop hfits nofun
    exact hmeets
  · intro hmeets
    exact ⟨condition, Op.fits_of_ofWord? hop, hmeets⟩

/-- The target of a jump with an offset, in whole numbers. -/
theorem toNat_offsetTarget (m : Machine) (i : Instruction) :
    (m.offsetTarget i).toNat = (i.word.toNat % 4096 + (m.register
      (if m.dialect.offsetJumpReadsX then i.x else firstRegister)).toNat) % 4096 := by
  have hoffset := (m.register (if m.dialect.offsetJumpReadsX then i.x else firstRegister)).toNat_lt
  simp only [offsetTarget, UInt16.toNat_mod, UInt16.toNat_add, Instruction.toNat_nnn,
    UInt8.toNat_toUInt16, UInt16.reduceToNat]
  omega

/-- An operation that redirects the program has one of the patterns for that or is a skip. -/
theorem fits_redirecting_of_branches (hop : Op.ofWord? word.toNat = some op)
    (h : op.branches = true) :
    (∃ pattern ∈ Op.redirecting, Op.Fits pattern word.toNat) ∨
      ∃ condition, op = .skip condition := by
  have hfits := Op.fits_of_ofWord? hop
  cases op with
  | skip condition => exact Or.inr ⟨condition, rfl⟩
  | jump | call | jumpOffset | ret | awaitKey =>
    exact Or.inl ⟨_, by simp [Op.redirecting], hfits⟩
  | _ => cases h

/-- An instruction takes the program to where its word says. -/
theorem goesOn_of_perform (hop : Op.ofWord? word.toNat = some op) (hpc : m.pc.toNat + 4 < 65536)
    (hn : ({ m with pc := m.pc + 2 } : Machine).perform ⟨op, word⟩ = .ok n) :
    m.GoesOn word.toNat n.pc.toNat := by
  have hadd : (m.pc + 2).toNat = m.pc.toNat + 2 := toNat_add_two (by omega)
  have hskip {condition : Condition} (hcondition : op = .skip condition) :
      n.pc.toNat = m.pc.toNat + 2 + if m.holds ⟨op, word⟩ condition then 2 else 0 := by
    subst hcondition
    cases hn
    rw [toNat_pc_skipIf _ _ (by simp only [hadd]; omega)]
    simp only [hadd]
    rfl
  refine ⟨?_, ?_, ?_, ?_, ?_, ?_⟩
  · rintro (hfits | hfits)
    · obtain rfl := Op.eq_of_fits .jump hop hfits nofun
      cases hn
      exact Instruction.toNat_nnn _
    · obtain rfl := Op.eq_of_fits .call hop hfits nofun
      obtain ⟨stack, -, rfl⟩ := call_eq_ok_iff.mp hn
      exact Instruction.toNat_nnn _
  · intro hfits
    obtain rfl := Op.eq_of_fits .jumpOffset hop hfits nofun
    cases hn
    exact toNat_offsetTarget _ _
  · intro hret
    obtain rfl := Op.eq_of_fits .ret hop (by rw [hret]; simp [Op.Fits]) nofun
    obtain ⟨address, stack, hpop, rfl⟩ := ret_eq_ok_iff.mp hn
    have hlist : m.stack.toList = stack.toList ++ [address] := CallStack.toList_of_pop hpop
    exact ⟨address, by rw [hlist, List.getLast?_concat], rfl⟩
  · intro hfits
    obtain rfl := Op.eq_of_fits .awaitKey hop hfits nofun
    cases hn
    exact congrArg UInt16.toNat (UInt16.add_sub_cancel m.pc 2)
  · rintro ⟨condition, hfits, hmeets⟩
    obtain rfl := Op.eq_of_fits (.skip condition) hop hfits nofun
    rw [hskip rfl, if_pos ((holds_iff_meets m condition word).mpr hmeets)]
  · intro hothers hnot
    cases hbranches : op.branches with
    | false =>
      rw [(frame_of_perform hn).pc hbranches]
      exact hadd
    | true =>
      rcases fits_redirecting_of_branches hop hbranches with ⟨pattern, hmem, hfits⟩ |
        ⟨condition, rfl⟩
      · exact absurd hfits (hothers pattern hmem)
      · rw [hskip rfl, if_neg fun h => hnot ((skips_iff hop).mpr h)]

/-- A cycle takes the program to where its word says. -/
theorem goesOn_of_cycle (h : m.cycle = .ok (op, n)) :
    ∃ hend : m.pc.toNat + 1 < memorySize,
      m.GoesOn (m.memory.wordAt m.pc.toNat hend) n.pc.toNat := by
  obtain ⟨word, next, hw, hop, hn, rfl⟩ := cycle_eq_ok_iff.mp h
  obtain ⟨hend, hword⟩ := Memory.toNat_readWord hw
  have hgoes := goesOn_of_perform hop (by simp only [memorySize] at hend; omega) hn
  rw [hword] at hgoes
  exact ⟨hend, hgoes⟩

/-- Two words that skip under opposite conditions on the same operands. -/
inductive Opposite (w w' : Nat) : Prop where
  /-- A register is a byte, or it is not. -/
  | byte (h : Op.Fits "3XNN" w) (h' : Op.Fits "4XNN" w') (hsame : w % 4096 = w' % 4096)
  /-- Two registers are equal, or they differ. -/
  | registers (h : Op.Fits "5XY0" w) (h' : Op.Fits "9XY0" w') (hsame : w % 4096 = w' % 4096)
  /-- The key of a register is down, or it is up. -/
  | key (h : Op.Fits "EX9E" w) (h' : Op.Fits "EXA1" w')
    (hsame : Op.registerX w = Op.registerX w')

/-- Executing a word leaves out the next one. -/
def LeavesOutNext (m : Machine) (word : Nat) : Prop :=
  ∃ n, m.execute word = .ok n ∧ n.pc = m.pc + 2

/-- Executing a skip leaves out the next word exactly if its condition holds. -/
theorem leavesOutNext_iff_meets {w : Nat} (condition : Condition)
    (hfits : Op.Fits condition.pattern w) : m.LeavesOutNext w ↔ m.Meets w condition := by
  have hop : Op.ofWord? w = some (.skip condition) := Op.ofWord?_of_fits hfits nofun
  obtain ⟨⟨op, word⟩, hi, rfl, rfl⟩ := decode_natCast (Op.lt_of_ofWord? hop) hop
  have hn : m.execute word.toNat = .ok (m.skipIf (m.holds ⟨.skip condition, word⟩ condition)) := by
    rw [execute, hi]
    rfl
  have hne : m.pc ≠ m.pc + 2 := by simp
  rw [← holds_iff_meets, LeavesOutNext, hn]
  cases m.holds ⟨.skip condition, word⟩ condition with
  | true => simp [skipIf]
  | false => simp [skipIf]

/-- Of two opposite skips exactly one leaves out the next word. -/
theorem leavesOutNext_iff_of_opposite {w w' : Nat} (h : Opposite w w') :
    m.LeavesOutNext w ↔ ¬ m.LeavesOutNext w' := by
  cases h with
  | byte h h' hsame =>
    have hx : Op.registerX w = Op.registerX w' := Fin.ext (by simp only [Op.registerX]; omega)
    have hvalue : w % 256 = w' % 256 := by omega
    rw [leavesOutNext_iff_meets .byteEqual h, leavesOutNext_iff_meets .byteDiffers h', Meets,
      Meets, hx, hvalue, not_not]
  | registers h h' hsame =>
    have hx : Op.registerX w = Op.registerX w' := Fin.ext (by simp only [Op.registerX]; omega)
    have hy : Op.registerY w = Op.registerY w' := Fin.ext (by simp only [Op.registerY]; omega)
    rw [leavesOutNext_iff_meets .registersEqual h, leavesOutNext_iff_meets .registersDiffer h',
      Meets, Meets, hx, hy, not_not]
  | key h h' hsame =>
    rw [leavesOutNext_iff_meets .keyDown h, leavesOutNext_iff_meets .keyUp h']
    simp only [Meets, hsame, Bool.not_eq_false]

end Machine

end Chip8
