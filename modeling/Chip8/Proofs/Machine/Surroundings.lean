import Chip8.Machine.Signals
import Chip8.Proofs.Machine.Cycle
import Chip8.Proofs.Sprite

/-!
# What surrounds a program

The dialect, the keypad and the timers of a machine surround its program. A change of these can come
before an instruction or after it, with the same effect and the same failures, unless the
instruction is disputed between the two dialects or heeds what becomes of the keypad and the timers.
-/

namespace Chip8

/-- A change of what surrounds a program. -/
structure Change where
  /-- The dialect afterwards. -/
  dialect : Dialect → Dialect
  /-- The keypad afterwards. -/
  keypad : Keypad → Keypad
  /-- The delay timer afterwards. -/
  delay : UInt8 → UInt8
  /-- The sound timer afterwards. -/
  sound : UInt8 → UInt8

/-- Whether an operation has to do with timers or keys. -/
def Op.listens : Op → Bool
  | getDelay | setDelay | setSound | awaitKey | skip .keyDown | skip .keyUp => true
  | _ => false

namespace Machine

variable {m n : Machine} {c : Change} {i : Instruction}

/-- A machine in changed surroundings. -/
def change (m : Machine) (c : Change) : Machine :=
  { m with
    dialect := c.dialect m.dialect
    keypad := c.keypad m.keypad
    delay := c.delay m.delay
    sound := c.sound m.sound }

@[simp] theorem dialect_change (m : Machine) (c : Change) :
    (m.change c).dialect = c.dialect m.dialect := rfl

@[simp] theorem register_change (m : Machine) (c : Change) (x : Fin registerCount) :
    (m.change c).register x = m.register x := rfl

@[simp] theorem memory_change (m : Machine) (c : Change) : (m.change c).memory = m.memory := rfl

@[simp] theorem index_change (m : Machine) (c : Change) : (m.change c).index = m.index := rfl

@[simp] theorem wait_change (m : Machine) (c : Change) : (m.change c).wait = m.wait := rfl

/-- Whether an instruction can tell the dialect of a machine from another one: a shift of two
different bytes, a jump by two different offsets, a sprite that reaches past an edge, and every
transfer of registers, if the dialects disagree on it. -/
def Disputed (m : Machine) (d : Dialect) (i : Instruction) : Prop :=
  match i.op with
  | .alu operation =>
    operation.isShift = true ∧ m.dialect.shiftReadsSource ≠ d.shiftReadsSource ∧
      m.register i.x ≠ m.register i.y
  | .jumpOffset =>
    m.dialect.offsetJumpReadsX ≠ d.offsetJumpReadsX ∧
      m.register i.x ≠ m.register firstRegister
  | .draw =>
    m.dialect.drawWraps ≠ d.drawWraps ∧
      ∃ rows, m.memory.readBytes m.index.toNat (i.n : Nat) = .ok rows ∧
        Sprite.Overhangs rows ((m.register i.x).toNat % screenWidth)
          ((m.register i.y).toNat % screenHeight)
  | .store | .load => m.dialect.transferAdvancesIndex ≠ d.transferAdvancesIndex
  | _ => False

/-- Whether an instruction can tell if a change of the keypad and the timers has come before it. -/
def Heeds (m : Machine) (c : Change) (i : Instruction) : Prop :=
  match i.op with
  | .getDelay => c.delay m.delay ≠ m.delay
  | .setDelay => c.delay (m.register i.x) ≠ m.register i.x
  | .setSound => c.sound (m.register i.x) ≠ m.register i.x
  | .skip .keyDown | .skip .keyUp =>
    (c.keypad m.keypad).isDown (m.selectedKey i.x) ≠ m.keypad.isDown (m.selectedKey i.x)
  | _ => False

/-- Whether an instruction can tell if a change has come before it. -/
def Notices (m : Machine) (c : Change) (i : Instruction) : Prop :=
  m.Disputed (c.dialect m.dialect) i ∨ m.Heeds c i

/-- No instruction is disputed between a dialect and itself. -/
theorem not_disputed_self (m : Machine) (i : Instruction) : ¬ m.Disputed m.dialect i := by
  obtain ⟨op, word⟩ := i
  cases op with
  | alu operation => exact fun h => h.2.1 rfl
  | jumpOffset | draw => exact fun h => h.1 rfl
  | store | load => exact fun h => h rfl
  | _ => exact id

theorem listens_of_heeds (h : m.Heeds c i) : i.op.listens = true := by
  obtain ⟨op, word⟩ := i
  cases op with
  | getDelay | setDelay | setSound => rfl
  | skip condition =>
    cases condition with
    | keyDown | keyUp => rfl
    | _ => exact absurd h id
  | _ => exact absurd h id

/-- An instruction that has to do with timers or keys does not fail. -/
theorem perform_ok_of_listens (h : i.op.listens = true) (m : Machine) :
    ∃ next, m.perform i = .ok next := by
  obtain ⟨op, word⟩ := i
  cases op with
  | getDelay | setDelay | setSound | awaitKey | skip condition => exact ⟨_, rfl⟩
  | _ => cases h

/-- A shift asks for the dialect only to choose between two registers. -/
theorem combine_change {operation : Alu} {x y : Fin registerCount}
    (h : ¬ (operation.isShift = true ∧
      m.dialect.shiftReadsSource ≠ (c.dialect m.dialect).shiftReadsSource ∧
      m.register x ≠ m.register y)) :
    (m.change c).combine operation x y = (m.combine operation x y).change c := by
  have hread :
      (if operation.isShift && (m.change c).dialect.shiftReadsSource then
        (m.change c).register y else (m.change c).register x) =
      if operation.isShift && m.dialect.shiftReadsSource then m.register y else m.register x := by
    simp only [dialect_change, register_change]
    grind
  simp only [combine, hread]
  simp only [register_change]
  generalize operation.apply _ _ = outcome
  cases outcome.flag with
  | none => rfl
  | some flag =>
    cases operation.isShift with
    | false => rfl
    | true => rfl

/-- A jump with an offset asks for the dialect only to choose between two registers. -/
theorem offsetTarget_change
    (h : ¬ (m.dialect.offsetJumpReadsX ≠ (c.dialect m.dialect).offsetJumpReadsX ∧
      m.register i.x ≠ m.register firstRegister)) :
    (m.change c).offsetTarget i = m.offsetTarget i := by
  have hread :
      (m.change c).register
        (if (m.change c).dialect.offsetJumpReadsX then i.x else firstRegister) =
      m.register (if m.dialect.offsetJumpReadsX then i.x else firstRegister) := by
    simp only [dialect_change, register_change]
    grind
  simp only [offsetTarget, hread]

/-- A draw asks for the dialect only when its sprite reaches past an edge. -/
theorem drawSprite_change {x y : Fin registerCount} {height : Nat}
    (h : ¬ (m.dialect.drawWraps ≠ (c.dialect m.dialect).drawWraps ∧
      ∃ rows, m.memory.readBytes m.index.toNat height = .ok rows ∧
        Sprite.Overhangs rows ((m.register x).toNat % screenWidth)
          ((m.register y).toNat % screenHeight))) :
    (m.change c).drawSprite x y height =
      (m.drawSprite x y height).map (·.change c) := by
  cases hr : m.memory.readBytes m.index.toNat height with
  | error fault =>
    simp only [drawSprite, memory_change, index_change, hr]
    rfl
  | ok rows =>
    have hcorner (v : UInt8) {size : Nat} (hsize : 0 < size) :
        0 ≤ (v.toNat : Int) % size ∧ (v.toNat : Int) % size < size :=
      ⟨Int.emod_nonneg _ (by omega), Int.emod_lt_of_pos _ (by omega)⟩
    have hmask : Sprite.mask rows ((m.register x).toNat % screenWidth)
          ((m.register y).toNat % screenHeight) (c.dialect m.dialect).drawWraps =
        Sprite.mask rows ((m.register x).toNat % screenWidth)
          ((m.register y).toNat % screenHeight) m.dialect.drawWraps := by
      by_cases hd : m.dialect.drawWraps = (c.dialect m.dialect).drawWraps
      · rw [hd]
      · exact Sprite.mask_eq_of_not_overhangs (hcorner _ (by decide)) (hcorner _ (by decide))
          (fun hover => h ⟨hd, rows, hr, hover⟩) _ _
    rw [drawSprite_eq_ok_iff.mpr ⟨rows, hr, rfl⟩]
    refine drawSprite_eq_ok_iff.mpr ⟨rows, hr, ?_⟩
    simp only [dialect_change, register_change, hmask]
    rfl

/-- A transfer of registers fails alike in all surroundings, and its results agree on all but the
index. -/
theorem transfer_change (hop : i.op = .store ∨ i.op = .load) :
    (m.change c).perform i = (m.perform i).map fun n =>
      { n.change c with index := (m.change c).indexAfterTransfer i.x } := by
  obtain ⟨op, word⟩ := i
  rcases hop with rfl | rfl
  · change (m.change c).storeRegisters _ = _ <$> m.storeRegisters _
    rw [storeRegisters, storeRegisters, map_bind]
    rfl
  · change (m.change c).loadRegisters _ = _ <$> m.loadRegisters _
    rw [loadRegisters, loadRegisters, map_bind]
    rfl

/-- A transfer of registers has the same results if the dialects move the index alike. -/
theorem transfer_change_of_eq (hop : i.op = .store ∨ i.op = .load)
    (h : m.dialect.transferAdvancesIndex = (c.dialect m.dialect).transferAdvancesIndex) :
    (m.change c).perform i = (m.perform i).map (·.change c) := by
  have hindex : (m.change c).indexAfterTransfer i.x = m.indexAfterTransfer i.x := by
    simp only [indexAfterTransfer, dialect_change, h]
    rfl
  rw [transfer_change hop, hindex]
  cases hn : m.perform i with
  | error fault => rfl
  | ok n =>
    rw [← index_of_transfer hop hn]
    rfl

/-- What a skip tests has not changed with surroundings that it does not heed. -/
theorem holds_change {condition : Condition} (hop : i.op = .skip condition) (h : ¬ m.Heeds c i) :
    (m.change c).holds i condition = m.holds i condition := by
  obtain ⟨op, word⟩ := i
  obtain rfl : op = .skip condition := hop
  cases condition with
  | keyDown => exact Decidable.not_not.mp h
  | keyUp => exact congrArg not (Decidable.not_not.mp h)
  | _ => rfl

/-- A change that an instruction does not notice can come after it. -/
theorem perform_change (h : ¬ m.Notices c i) :
    (m.change c).perform i = (m.perform i).map (·.change c) := by
  obtain ⟨hdisputed, hheeds⟩ := not_or.mp h
  obtain ⟨op, word⟩ := i
  cases op with
  | ret =>
    change (m.change c).ret = _ <$> m.ret
    rw [ret, ret, map_bind]
    rfl
  | call =>
    change (m.change c).call _ = _ <$> m.call _
    rw [call, call, map_bind]
    rfl
  | skip condition =>
    refine congrArg Except.ok ?_
    rw [holds_change rfl hheeds, skipIf_eq, skipIf_eq]
    rfl
  | alu operation => exact congrArg Except.ok (combine_change hdisputed)
  | jumpOffset =>
    refine congrArg Except.ok ?_
    rw [offsetTarget_change hdisputed]
    rfl
  | draw => exact drawSprite_change hdisputed
  | getDelay =>
    have hdelay : c.delay m.delay = m.delay := Decidable.not_not.mp hheeds
    refine congrArg Except.ok ?_
    change (m.change c).setRegister _ (c.delay m.delay) = _
    rw [hdelay]
    rfl
  | setDelay =>
    have hdelay : c.delay (m.register _) = m.register _ := Decidable.not_not.mp hheeds
    refine congrArg Except.ok ?_
    simp only [change, hdelay]
    rfl
  | setSound =>
    have hsound : c.sound (m.register _) = m.register _ := Decidable.not_not.mp hheeds
    refine congrArg Except.ok ?_
    simp only [change, hsound]
    rfl
  | storeDecimal =>
    change (m.change c).storeDecimal _ = _ <$> m.storeDecimal _
    rw [storeDecimal, storeDecimal, map_bind]
    rfl
  | store => exact transfer_change_of_eq (Or.inl rfl) (Decidable.not_not.mp hdisputed)
  | load => exact transfer_change_of_eq (Or.inr rfl) (Decidable.not_not.mp hdisputed)
  | _ => rfl

/-- An instruction that fails fails alike in all surroundings. -/
theorem perform_change_of_error {fault : Fault} (h : m.perform i = .error fault) :
    (m.change c).perform i = .error fault := by
  by_cases hnotices : m.Notices c i
  · rcases hnotices with hdisputed | hheeds
    · -- Only transfers are disputed and can fail, since a draw that is disputed has read its rows.
      obtain ⟨op, word⟩ := i
      cases op with
      | alu operation => cases h
      | jumpOffset => cases h
      | draw =>
        obtain ⟨-, rows, hr, -⟩ := hdisputed
        rw [perform, drawSprite_eq_ok_iff.mpr ⟨rows, hr, rfl⟩] at h
        cases h
      | store => rw [transfer_change (Or.inl rfl), h]; rfl
      | load => rw [transfer_change (Or.inr rfl), h]; rfl
      | _ => exact absurd hdisputed id
    · obtain ⟨next, hn⟩ := perform_ok_of_listens (listens_of_heeds hheeds) m
      rw [hn] at h
      cases h
  · rw [perform_change hnotices, h]
    rfl

/-- A change can come before a cycle or after it unless the cycle succeeds with an instruction that
notices it. -/
theorem cycle_change
    (h : ∀ i outcome, m.StandsAt i → m.cycle = .ok outcome → ¬ m.Notices c i) :
    (m.change c).cycle = m.cycle.map (Prod.map id (·.change c)) := by
  refine cycle_map (f := (·.change c)) ?_ (fun _ => rfl) (fun _ => rfl) fun i hi => ?_
  · change (m.change c).fetch = _ <$> m.fetch
    rw [fetch, fetch, map_bind]
    rfl
  · cases hn : ({ m with pc := m.pc + 2 } : Machine).perform i with
    | error fault => exact perform_change_of_error hn
    | ok next =>
      have hc : m.cycle = .ok (i.op, { next with cycles := next.cycles + 1 }) :=
        cycle_eq_ok_iff.mpr ⟨i.word, next, hi.1, hi.2, hn, rfl⟩
      have hnotices : ¬ ({ m with pc := m.pc + 2 } : Machine).Notices c i := h i _ hi hc
      have hsame := perform_change hnotices
      rw [hn] at hsame
      exact hsame

/-- A change can come before the completion of a key wait or after it. -/
theorem resume_change (m : Machine) (c : Change) : (m.change c).resume = m.resume.change c := by
  unfold resume
  rw [wait_change]
  split
  · split
    · rfl
    · rfl
  · rfl

end Machine

end Chip8
