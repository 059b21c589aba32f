import Chip8.Proofs.Machine.Storage

/-!
# What an instruction may change

The footprint of an instruction: for every part of the machine the operations that may change it,
for the registers and the bytes of memory one by one. The registers that an instruction writes are
determined from its effects; the rest follows from its frame and from the run that it stores.
-/

namespace Chip8

/-- Whether an operation on two registers writes the flag register. -/
@[simp]
def Alu.setsFlag : Alu → Bool
  | add | subtract | shiftRight | subtractFrom | shiftLeft => true
  | assign | or | and | xor => false

theorem Alu.flag_eq_none {operation : Alu} (h : operation.setsFlag = false) (a b : UInt8) :
    (operation.apply a b).flag = none := by
  cases operation with
  | assign | or | and | xor => rfl
  | _ => cases h

/-- Whether an instruction may write a register. -/
def Instruction.Writes (i : Instruction) (z : Fin registerCount) : Prop :=
  match i.op with
  | .setByte | .addByte | .random | .getDelay => z = i.x
  | .alu operation => z = i.x ∨ operation.setsFlag = true ∧ z = flagRegister
  | .draw => z = flagRegister
  | .load => z ≤ i.x
  | _ => False

theorem Op.branches_iff {op : Op} :
    op.branches = true ↔ op = .ret ∨ op = .jump ∨ op = .call ∨ op = .jumpOffset ∨
      op = .awaitKey ∨ ∃ condition, op = .skip condition := by
  cases op <;> simp

theorem Op.touchesScreen_iff {op : Op} :
    op.touchesScreen = true ↔ op = .clearScreen ∨ op = .draw := by
  cases op <;> simp

theorem Op.touchesIndex_iff {op : Op} :
    op.touchesIndex = true ↔ op = .setIndex ∨ op = .addIndex ∨ op = .glyph ∨
      op = .store ∨ op = .load := by
  cases op <;> simp

namespace Instruction

variable {i : Instruction} {z : Fin registerCount}

/-- Apart from the target and the flag register only a load writes registers, those below its
target. -/
theorem load_of_writes (h : i.Writes z) (hx : z ≠ i.x) (hf : z ≠ flagRegister) :
    i.op = .load ∧ z < i.x := by
  obtain ⟨op, word⟩ := i
  cases op with
  | setByte | addByte | random | getDelay => exact absurd h hx
  | alu operation => exact absurd (h.resolve_left hx).2 hf
  | draw => exact absurd h hf
  | load => exact ⟨rfl, Nat.lt_of_le_of_ne h fun he => hx (Fin.ext he)⟩
  | _ => exact absurd h id

/-- Only operations that set a flag write the flag register, unless it is the target. -/
theorem op_of_writes_flag (h : i.Writes flagRegister) (hx : i.x ≠ flagRegister) :
    i.op = .draw ∨ ∃ operation, i.op = .alu operation ∧ operation.setsFlag = true := by
  obtain ⟨op, word⟩ := i
  cases op with
  | setByte | addByte | random | getDelay => exact absurd h hx.symm
  | alu operation => exact Or.inr ⟨operation, rfl, (h.resolve_left hx.symm).1⟩
  | draw => exact Or.inl rfl
  | load => exact absurd (Fin.le_antisymm (Fin.le_last _) h) hx
  | _ => exact absurd h id

/-- The target is written by the operations that produce a byte, and by a draw if it is the flag
register. -/
theorem op_of_writes_target (h : i.Writes i.x) :
    i.op ∈ [.setByte, .addByte, .random, .getDelay, .load] ∨ (∃ operation, i.op = .alu operation) ∨
      i.x = flagRegister ∧ i.op = .draw := by
  obtain ⟨op, word⟩ := i
  cases op with
  | setByte | addByte | random | getDelay | load => simp
  | alu operation => exact Or.inr (Or.inl ⟨operation, rfl⟩)
  | draw => exact Or.inr (Or.inr ⟨h, rfl⟩)
  | _ => exact absurd h id

end Instruction

namespace Machine

variable {m n : Machine} {i : Instruction} {z : Fin registerCount}

/-- Setting a register leaves the others alone. -/
theorem register_setRegister_of_ne {x : Fin registerCount} (h : z ≠ x) (value : UInt8) :
    (m.setRegister x value).register z = m.register z := by
  rw [register_setRegister, if_neg h.symm]

theorem register_drawRandom (m : Machine) (x : Fin registerCount) (mask : UInt8)
    (z : Fin registerCount) : (m.drawRandom x mask).register z =
      (m.setRegister x (Random.draw m.random &&& mask)).register z := rfl

/-- Register arithmetic leaves alone what is neither its target nor, if it sets a flag, the flag
register. -/
theorem register_combine_of_ne {operation : Alu} {x : Fin registerCount} (hx : z ≠ x)
    (hf : operation.setsFlag = true → z ≠ flagRegister) (y : Fin registerCount) :
    (m.combine operation x y).register z = m.register z := by
  cases hs : operation.setsFlag with
  | false =>
    simp only [combine, Alu.flag_eq_none hs]
    exact register_setRegister_of_ne hx _
  | true =>
    have hflag := hf hs
    simp only [combine, setFlag]
    split
    · exact register_setRegister_of_ne hx _
    · split
      · rw [register_setRegister_of_ne hflag, register_setRegister_of_ne hx]
      · rw [register_setRegister_of_ne hx, register_setRegister_of_ne hflag]

/-- Registers behind the bytes that overwrite the first ones are left alone. -/
theorem get_overwrite_of_le (registers : Registers) {values : List UInt8}
    (h : values.length ≤ z.val) : (overwrite registers values)[z] = registers[z] := by
  refine (get_overwrite registers values z).trans ?_
  rw [List.getElem?_eq_none h, Option.getD_none]
  rfl

/-- A register that an instruction changes is one that it writes. -/
theorem writes_of_register_ne (h : m.perform i = .ok n) (hne : n.register z ≠ m.register z) :
    i.Writes z := by
  refine Classical.byContradiction fun hw => hne ?_
  obtain ⟨op, word⟩ := i
  cases op with
  | machineCall => cases h
  | ret =>
    obtain ⟨address, stack, -, rfl⟩ := ret_eq_ok_iff.mp h
    rfl
  | call =>
    obtain ⟨stack, -, rfl⟩ := call_eq_ok_iff.mp h
    rfl
  | skip condition =>
    cases h
    rw [skipIf_eq]
    rfl
  | setByte | addByte | getDelay =>
    cases h
    exact register_setRegister_of_ne hw _
  | random =>
    cases h
    have hx : z ≠ (Instruction.mk .random word).x := hw
    rw [register_drawRandom, register_setRegister_of_ne hx]
  | alu operation =>
    cases h
    have hx : z ≠ (Instruction.mk (.alu operation) word).x := fun hz => hw (Or.inl hz)
    exact register_combine_of_ne hx (fun hs hz => hw (Or.inr ⟨hs, hz⟩)) _
  | draw =>
    obtain ⟨rows, -, rfl⟩ := drawSprite_eq_ok_iff.mp h
    have hflag : z ≠ flagRegister := hw
    rw [setFlag, register_setRegister_of_ne hflag]
    simp only [register]
  | storeDecimal =>
    obtain ⟨memory, -, rfl⟩ := storeDecimal_eq_ok_iff.mp h
    rfl
  | store =>
    obtain ⟨memory, -, rfl⟩ := storeRegisters_eq_ok_iff.mp h
    rfl
  | load =>
    obtain ⟨values, hr, rfl⟩ := loadRegisters_eq_ok_iff.mp h
    obtain ⟨-, rfl⟩ := Memory.readBytes_eq_ok_iff.mp hr
    refine get_overwrite_of_le _ ?_
    rw [Memory.length_run]
    exact Nat.lt_of_not_le hw
  | _ =>
    cases h
    rfl

/-- Two states that differ only where an instruction may have changed the first one. -/
structure Confined (i : Instruction) (m n : Machine) : Prop where
  keypad : n.keypad = m.keypad
  cycles : n.cycles = m.cycles
  dialect : n.dialect = m.dialect
  screen : n.screen ≠ m.screen → i.op = .clearScreen ∨ i.op = .draw
  stack : n.stack ≠ m.stack → i.op = .call ∨ i.op = .ret
  random : n.random ≠ m.random → i.op = .random
  delay : n.delay ≠ m.delay → i.op = .setDelay
  sound : n.sound ≠ m.sound → i.op = .setSound
  wait : n.wait ≠ m.wait → i.op = .awaitKey
  /-- Transfers of registers move the index only in the dialects in which they advance it. -/
  index : n.index ≠ m.index → i.op = .setIndex ∨ i.op = .addIndex ∨ i.op = .glyph ∨
    (i.op = .store ∨ i.op = .load) ∧ m.dialect.transferAdvancesIndex = true
  /-- Three decimal digits and the registers up to one are stored from the index on. -/
  memory : ∀ k, n.memory.get k ≠ m.memory.get k → m.index.toNat ≤ k.val ∧
    (i.op = .storeDecimal ∧ k.val < m.index.toNat + 3 ∨
      i.op = .store ∧ k.val < m.index.toNat + (i.x.val + 1))
  pc : n.pc ≠ m.pc → i.op = .ret ∨ i.op = .jump ∨ i.op = .call ∨ i.op = .jumpOffset ∨
    i.op = .awaitKey ∨ ∃ condition, i.op = .skip condition
  /-- Registers that are neither the target nor the flag register. -/
  other : ∀ z, z ≠ i.x → z ≠ flagRegister → n.register z ≠ m.register z →
    i.op = .load ∧ z < i.x
  /-- The flag register, unless it is the target. -/
  flag : i.x ≠ flagRegister → n.register flagRegister ≠ m.register flagRegister →
    i.op = .draw ∨ ∃ operation, i.op = .alu operation ∧ operation ∈
      [Alu.add, .subtract, .shiftRight, .subtractFrom, .shiftLeft]
  /-- The target. -/
  target : n.register i.x ≠ m.register i.x →
    i.op ∈ [.setByte, .addByte, .random, .getDelay, .load] ∨ (∃ operation, i.op = .alu operation) ∨
      i.x = flagRegister ∧ i.op = .draw

/-- The index of a machine changes only under the operations that set it, under a transfer of
registers only if the dialect says so. -/
theorem op_of_index_ne (h : m.perform i = .ok n) (hne : n.index ≠ m.index) :
    i.op = .setIndex ∨ i.op = .addIndex ∨ i.op = .glyph ∨
      (i.op = .store ∨ i.op = .load) ∧ m.dialect.transferAdvancesIndex = true := by
  have htouched : i.op.touchesIndex = true :=
    Bool.of_not_eq_false (mt (frame_of_perform h).index hne)
  rcases Op.touchesIndex_iff.mp htouched with hop | hop | hop | htransfer
  · exact Or.inl hop
  · exact Or.inr (Or.inl hop)
  · exact Or.inr (Or.inr (Or.inl hop))
  · have hindex := index_of_transfer htransfer h
    refine Or.inr (Or.inr (Or.inr ⟨htransfer, ?_⟩))
    refine Bool.of_not_eq_false fun hstays => hne ?_
    rw [hindex, indexAfterTransfer, hstays]
    rfl

/-- A byte that an instruction changes is one of three decimal digits or of the registers up to one,
which are stored from the index on. -/
theorem op_of_get_ne (h : m.perform i = .ok n) {k : Fin memorySize}
    (hne : n.memory.get k ≠ m.memory.get k) :
    m.index.toNat ≤ k.val ∧
      (i.op = .storeDecimal ∧ k.val < m.index.toNat + 3 ∨
        i.op = .store ∧ k.val < m.index.toNat + (i.x.val + 1)) := by
  obtain ⟨hle, hlt, -, -⟩ := stored_of_get_ne h hne
  refine ⟨hle, ?_⟩
  have hpos : 0 < i.stored := by omega
  rcases Instruction.op_of_stored_pos hpos with hop | hop
  · rw [Instruction.stored, hop] at hlt
    exact Or.inl ⟨hop, hlt⟩
  · rw [Instruction.stored, hop] at hlt
    exact Or.inr ⟨hop, hlt⟩

/-- A successful instruction changes nothing but its footprint. -/
theorem confined_of_perform (h : m.perform i = .ok n) : Confined i m n := by
  have hframe := frame_of_perform h
  refine ⟨hframe.keypad, hframe.cycles, hframe.dialect, ?_, ?_, ?_, ?_, ?_, ?_,
    op_of_index_ne h, fun _ => op_of_get_ne h, ?_, ?_, ?_, ?_⟩
  · intro hne
    exact Op.touchesScreen_iff.mp (Bool.of_not_eq_false (mt hframe.screen hne))
  · intro hne
    by_cases hcall : i.op = .call
    · exact Or.inl hcall
    · exact Or.inr (Decidable.byContradiction fun hret => hne (hframe.stack hcall hret))
  · exact fun hne => Decidable.byContradiction fun hop => hne (hframe.random hop)
  · exact fun hne => Decidable.byContradiction fun hop => hne (hframe.delay hop)
  · exact fun hne => Decidable.byContradiction fun hop => hne (hframe.sound hop)
  · exact fun hne => Decidable.byContradiction fun hop => hne (hframe.wait hop)
  · intro hne
    exact Op.branches_iff.mp (Bool.of_not_eq_false (mt hframe.pc hne))
  · intro z hx hf hne
    exact Instruction.load_of_writes (writes_of_register_ne h hne) hx hf
  · intro hx hne
    rcases Instruction.op_of_writes_flag (writes_of_register_ne h hne) hx with
      hdraw | ⟨operation, hop, hs⟩
    · exact Or.inl hdraw
    · refine Or.inr ⟨operation, hop, ?_⟩
      cases operation <;> simp at hs ⊢
  · intro hne
    exact Instruction.op_of_writes_target (writes_of_register_ne h hne)

/-- The frame law of execution: a number that is executed with success changes nothing but the
footprint of the instruction that it decodes to. -/
theorem confined_of_execute {w : Int} (h : m.execute w = .ok n) :
    ∃ i, decode w = .ok i ∧ Confined i m n := by
  obtain ⟨i, hi, hn⟩ := bind_eq_ok_iff.mp h
  exact ⟨i, hi, confined_of_perform hn⟩

/-- Loading the first three rows of a glyph changes `V2` and moves the index, and stays within its
footprint. -/
theorem confined_load_of_glyph :
    ∃ m n i, m = { initial ⟨0, 0⟩ .cosmac with index := 0x050 } ∧ m.execute 0xF265 = .ok n ∧
      decode 0xF265 = .ok i ∧ Confined i m n ∧ i.op = .load ∧ i.x = 2 ∧
      n.register 2 ≠ m.register 2 ∧ n.index ≠ m.index := by
  obtain ⟨m, hm⟩ : ∃ m, m = { initial ⟨0, 0⟩ .cosmac with index := 0x050 } := ⟨_, rfl⟩
  obtain ⟨n, hn, hregister, hindex⟩ : ∃ n, m.execute 0xF265 = .ok n ∧
      n.register 2 ≠ m.register 2 ∧ n.index ≠ m.index := by
    rw [hm]
    refine ⟨_, rfl, ?_, ?_⟩
    · decide +kernel
    · decide +kernel
  obtain ⟨i, hi, hconfined⟩ := confined_of_execute hn
  obtain rfl : ⟨.load, 0xF265⟩ = i := Except.ok.inj hi
  exact ⟨m, n, _, hm, hn, hi, hconfined, rfl, rfl, hregister, hindex⟩

end Machine

end Chip8
