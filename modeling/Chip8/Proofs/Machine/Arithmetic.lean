import Chip8.Proofs.Machine.Footprint

/-!
# Register arithmetic

The outcome of every operation on two registers obeys an exact law, of whole numbers or of single
bits, between the bytes that it reads, its result and its flag. Executing an operation puts the
outcome into its target and the flag register and changes nothing else. If the target is the flag
register itself, arithmetic leaves its result there and a shift its flag.
-/

namespace Chip8

namespace Alu

variable {operation : Alu}

/-- The last digit of the words of an operation. -/
def digit : Alu → Nat
  | assign => 0x0
  | or => 0x1
  | and => 0x2
  | xor => 0x3
  | add => 0x4
  | subtract => 0x5
  | shiftRight => 0x6
  | subtractFrom => 0x7
  | shiftLeft => 0xE

/-- The word of an operation on two registers. -/
def word (operation : Alu) (x y : Fin registerCount) : Nat :=
  0x8000 + 256 * x.val + 16 * y.val + operation.digit

theorem digit_lt (operation : Alu) : operation.digit < 16 := by
  cases operation <;> decide

theorem ofDigit?_digit (operation : Alu) : ofDigit? operation.digit = some operation := by
  cases operation <;> rfl

/-- The word of an operation decodes to that operation on its registers. -/
theorem decode_word (operation : Alu) (x y : Fin registerCount) :
    ∃ i, decode (operation.word x y) = .ok i ∧ i.op = .alu operation ∧ i.x = x ∧ i.y = y := by
  have hx := x.isLt
  have hy := y.isLt
  simp only [registerCount] at hx hy
  have hlt := operation.digit_lt
  have hfamily : operation.word x y / 4096 = 8 := by
    unfold word
    omega
  have hdigit : operation.word x y % 16 = operation.digit := by
    unfold word
    omega
  have hop : Op.ofWord? (operation.word x y) = some (.alu operation) := by
    simp only [Op.ofWord?, hfamily, hdigit, ofDigit?_digit, Option.map_some]
  obtain ⟨i, hi, hop, hx, hy, -⟩ :=
    decode_digits (f := 8) (n := ⟨operation.digit, operation.digit_lt⟩) rfl hop
  exact ⟨i, hi, hop, hx, hy⟩

theorem isShift_iff : operation.isShift = true ↔ operation ∈ [.shiftRight, .shiftLeft] := by
  cases operation <;> simp [isShift]

/-- The law of an operation between the bytes `a` and `b` of its registers, the byte `s` that a shift
reads, and the outcome. A carry counts 256 and so does a borrow, which is the absence of the flag. -/
def Lawful (operation : Alu) (a b s : UInt8) (outcome : Outcome) : Prop :=
  match operation with
  | assign => outcome.flag = none ∧ outcome.result = b
  | or => outcome.flag = none ∧
      ∀ k, outcome.result.toNat.testBit k = (a.toNat.testBit k || b.toNat.testBit k)
  | and => outcome.flag = none ∧
      ∀ k, outcome.result.toNat.testBit k = (a.toNat.testBit k && b.toNat.testBit k)
  | xor => outcome.flag = none ∧
      ∀ k, outcome.result.toNat.testBit k = (a.toNat.testBit k ^^ b.toNat.testBit k)
  | add => ∃ flag, outcome.flag = some flag ∧
      256 * flag.toNat + outcome.result.toNat = a.toNat + b.toNat
  | subtract => ∃ flag, outcome.flag = some flag ∧
      (outcome.result.toNat : Int) - 256 * (1 - flag.toNat) = a.toNat - b.toNat
  | subtractFrom => ∃ flag, outcome.flag = some flag ∧
      (outcome.result.toNat : Int) - 256 * (1 - flag.toNat) = b.toNat - a.toNat
  | shiftRight => ∃ flag, outcome.flag = some flag ∧
      s.toNat = 2 * outcome.result.toNat + flag.toNat
  | shiftLeft => ∃ flag, outcome.flag = some flag ∧
      256 * flag.toNat + outcome.result.toNat = 2 * s.toNat

/-- The byte of a difference and the absence of a borrow are the exact difference. -/
theorem toNat_sub_of_borrow (a b : UInt8) :
    ((a - b).toNat : Int) - 256 * (1 - (decide (b ≤ a)).toNat) = a.toNat - b.toNat := by
  have ha := a.toNat_lt
  have hb := b.toNat_lt
  have hsub := UInt8.toNat_sub a b
  by_cases hle : b ≤ a
  · have hnat : b.toNat ≤ a.toNat := UInt8.le_iff_toNat_le.mp hle
    simp only [hle, decide_true, Bool.toNat_true]
    omega
  · have hnat : ¬ b.toNat ≤ a.toNat := fun h => hle (UInt8.le_iff_toNat_le.mpr h)
    simp only [hle, decide_false, Bool.toNat_false]
    omega

/-- Applying an operation obeys its law; a shift is applied to the byte that it reads. -/
theorem lawful_apply (operation : Alu) (a b s : UInt8) :
    operation.Lawful a b s (operation.apply (if operation.isShift then s else a) b) := by
  have ha := a.toNat_lt
  have hb := b.toNat_lt
  have hs := s.toNat_lt
  cases operation with
  | assign => exact ⟨rfl, rfl⟩
  | or =>
    refine ⟨rfl, fun k => ?_⟩
    exact (congrArg (·.testBit k) (UInt8.toNat_or a b)).trans (Nat.testBit_or _ _ _)
  | and =>
    refine ⟨rfl, fun k => ?_⟩
    exact (congrArg (·.testBit k) (UInt8.toNat_and a b)).trans (Nat.testBit_and _ _ _)
  | xor =>
    refine ⟨rfl, fun k => ?_⟩
    exact (congrArg (·.testBit k) (UInt8.toNat_xor a b)).trans (Nat.testBit_xor _ _ _)
  | add =>
    refine ⟨_, rfl, ?_⟩
    have hsum : (a + b).toNat = (a.toNat + b.toNat) % 256 := UInt8.toNat_add a b
    simp only [apply, isShift, Bool.false_eq_true, ite_false, hsum]
    by_cases hcarry : 255 < a.toNat + b.toNat
    · simp only [hcarry, decide_true, Bool.toNat_true]
      omega
    · simp only [hcarry, decide_false, Bool.toNat_false]
      omega
  | subtract => exact ⟨_, rfl, toNat_sub_of_borrow a b⟩
  | subtractFrom => exact ⟨_, rfl, toNat_sub_of_borrow b a⟩
  | shiftRight =>
    refine ⟨_, rfl, ?_⟩
    have hhalf : (s >>> 1).toNat = s.toNat / 2 := UInt8.toNat_shiftRight s 1
    have hlow : s % 2 = 1 ↔ s.toNat % 2 = 1 := by
      rw [← UInt8.toNat_inj, UInt8.toNat_mod]
      rfl
    simp only [apply, isShift, ite_true, hhalf, hlow]
    rcases Nat.mod_two_eq_zero_or_one s.toNat with hbit | hbit
    · simp only [hbit, Nat.zero_ne_one, decide_false, Bool.toNat_false]
      omega
    · simp only [hbit, decide_true, Bool.toNat_true]
      omega
  | shiftLeft =>
    refine ⟨_, rfl, ?_⟩
    have hdouble : (s <<< 1).toNat = 2 * s.toNat % 256 := by
      rw [UInt8.toNat_shiftLeft, Nat.mul_comm]
      exact congrArg (· % 256) (Nat.shiftLeft_eq s.toNat 1)
    have hhigh : 128 ≤ s ↔ 128 ≤ s.toNat := UInt8.le_iff_toNat_le
    simp only [apply, isShift, ite_true, hdouble, hhigh]
    by_cases hbit : 128 ≤ s.toNat
    · simp only [hbit, decide_true, Bool.toNat_true]
      omega
    · simp only [hbit, decide_false, Bool.toNat_false]
      omega

end Alu

namespace Machine

variable {m : Machine} {operation : Alu} {x y : Fin registerCount}

/-- Where the outcome of an operation ends up. If its result and its flag go to the same register,
that of a shift ends as the flag and that of any other operation as the result. -/
structure Placed (operation : Alu) (x : Fin registerCount) (outcome : Alu.Outcome)
    (m n : Machine) : Prop where
  result : x ≠ flagRegister ∨ operation ∉ [.shiftRight, .shiftLeft] →
    n.register x = outcome.result
  flag : ∀ flag ∈ outcome.flag, x ≠ flagRegister ∨ operation ∈ [.shiftRight, .shiftLeft] →
    n.register flagRegister = flag.toUInt8
  /-- Without a flag only the result is written. -/
  unflagged : outcome.flag = none → x ≠ flagRegister →
    n.register flagRegister = m.register flagRegister
  others : ∀ z, z ≠ x → z ≠ flagRegister → n.register z = m.register z
  rest : n = { m with registers := n.registers }

/-- The outcome of combining two registers. Only a shift looks at the dialect for what it reads. -/
def outcome (m : Machine) (operation : Alu) (x y : Fin registerCount) : Alu.Outcome :=
  operation.apply
    (if operation.isShift && m.dialect.shiftReadsSource then m.register y else m.register x)
    (m.register y)

theorem lawful_outcome (m : Machine) (operation : Alu) (x y : Fin registerCount) :
    operation.Lawful (m.register x) (m.register y)
      (if m.dialect.shiftReadsSource then m.register y else m.register x)
      (m.outcome operation x y) := by
  have h := operation.lawful_apply (m.register x) (m.register y)
    (if m.dialect.shiftReadsSource then m.register y else m.register x)
  unfold outcome
  cases hs : operation.isShift with
  | true => rwa [hs, if_pos rfl] at h
  | false => rwa [hs, if_neg Bool.false_ne_true] at h

/-- Without a flag only the result is written. -/
theorem combine_of_unflagged (h : (m.outcome operation x y).flag = none) :
    m.combine operation x y = m.setRegister x (m.outcome operation x y).result := by
  unfold outcome at h ⊢
  simp only [combine, h]

/-- A shift writes its flag last. -/
theorem combine_of_shift {flag : Bool} (hs : operation.isShift = true)
    (h : (m.outcome operation x y).flag = some flag) :
    m.combine operation x y = (m.setRegister x (m.outcome operation x y).result).setFlag flag := by
  unfold outcome at h ⊢
  simp only [combine, h]
  exact if_pos hs

/-- Arithmetic writes its result last. -/
theorem combine_of_arithmetic {flag : Bool} (hs : operation.isShift = false)
    (h : (m.outcome operation x y).flag = some flag) :
    m.combine operation x y = (m.setFlag flag).setRegister x (m.outcome operation x y).result := by
  unfold outcome at h ⊢
  simp only [combine, h]
  exact if_neg (Bool.eq_false_iff.mp hs)

/-- Combining two registers puts the outcome in its place and leaves the rest alone. -/
theorem placed_combine (m : Machine) (operation : Alu) (x y : Fin registerCount) :
    Placed operation x (m.outcome operation x y) m (m.combine operation x y) where
  result h := by
    cases hflag : (m.outcome operation x y).flag with
    | none => rw [combine_of_unflagged hflag, register_setRegister, if_pos rfl]
    | some flag =>
      cases hs : operation.isShift with
      | true =>
        have hx : x ≠ flagRegister :=
          h.resolve_right fun hnot => hnot (Alu.isShift_iff.mp hs)
        rw [combine_of_shift hs hflag, setFlag, register_setRegister_of_ne hx,
          register_setRegister, if_pos rfl]
      | false => rw [combine_of_arithmetic hs hflag, register_setRegister, if_pos rfl]
  flag flag hflag h := by
    cases hs : operation.isShift with
    | true => rw [combine_of_shift hs hflag, setFlag, register_setRegister, if_pos rfl]
    | false =>
      have hx : x ≠ flagRegister := h.resolve_right fun hshift => by
        rw [Alu.isShift_iff.mpr hshift] at hs
        cases hs
      rw [combine_of_arithmetic hs hflag, register_setRegister_of_ne hx.symm, setFlag,
        register_setRegister, if_pos rfl]
  unflagged hflag hx := by
    rw [combine_of_unflagged hflag, register_setRegister_of_ne hx.symm]
  others z hx hf := register_combine_of_ne hx (fun _ => hf) y
  rest := by
    obtain ⟨registers, he⟩ := m.combine_eq operation x y
    rw [he]

/-- Executing an operation on two registers succeeds for every choice of them. The outcome obeys the
law of the operation on the bytes that the registers hold before, and it alone changes the machine. -/
theorem execute_arithmetic (m : Machine) (operation : Alu) (x y : Fin registerCount) :
    ∃ n outcome, m.execute (operation.word x y) = .ok n ∧
      operation.Lawful (m.register x) (m.register y)
        (if m.dialect.shiftReadsSource then m.register y else m.register x) outcome ∧
      Placed operation x outcome m n := by
  obtain ⟨i, hi, hop, rfl, rfl⟩ := operation.decode_word x y
  obtain ⟨op, word⟩ := i
  obtain rfl : op = .alu operation := hop
  refine ⟨_, _, ?_, m.lawful_outcome operation _ _, m.placed_combine operation _ _⟩
  rw [execute, hi]
  rfl

end Machine

end Chip8
