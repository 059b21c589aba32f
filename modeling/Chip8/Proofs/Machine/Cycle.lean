import Chip8.Proofs.Instruction.Grammar
import Chip8.Proofs.Machine.Frame

/-!
# What a cycle can do

A successful cycle reads a word inside memory, decodes it, performs it on the machine that has
gone past it and counts it. A failed cycle reports the place it started from. The program counter
stays where it was only under the five operations that can set it to any address.
-/

namespace Chip8

namespace Op

private theorem ofMiscByte?_eq_awaitKey {b : Nat} (h : ofMiscByte? b = some .awaitKey) :
    b = 0x0A := by
  unfold ofMiscByte? at h
  split at h
  case h_2 => rfl
  all_goals cases h

private theorem ofWord?_awaitKey_digits {word : Nat} (h : ofWord? word = some .awaitKey) :
    word / 4096 = 0xF ∧ word % 256 = 0x0A := by
  unfold ofWord? at h
  split at h
  case h_1 => grind [ofSystemWord]
  case h_15 =>
    unfold ofKeyByte? at h
    split at h <;> cases h
  case h_16 hf => exact ⟨hf, ofMiscByte?_eq_awaitKey h⟩
  all_goals simp at h

/-- The word that waits for a key on behalf of a register. -/
def keyWaitWord (x : Fin registerCount) : Nat := 0xF00A + 256 * x.val

/-- Exactly the words of the registers decode to a key wait. -/
theorem ofWord?_eq_awaitKey_iff {word : UInt16} :
    ofWord? word.toNat = some .awaitKey ↔
      word.toNat = keyWaitWord (Instruction.mk .awaitKey word).x := by
  have hlt := word.toNat_lt
  simp only [keyWaitWord, Instruction.x_val]
  constructor
  · intro h
    obtain ⟨hf, hb⟩ := ofWord?_awaitKey_digits h
    omega
  · intro h
    have hf : word.toNat / 4096 = 15 := by omega
    have hb : word.toNat % 256 = 10 := by omega
    simp only [ofWord?, hf, hb, ofMiscByte?]

/-- The register that the word of a key wait names. -/
theorem x_of_keyWaitWord {word : UInt16} {x : Fin registerCount} (h : word.toNat = keyWaitWord x) :
    (Instruction.mk .awaitKey word).x = x := by
  have hx := x.isLt
  simp only [keyWaitWord, registerCount] at h hx
  apply Fin.ext
  rw [Instruction.x_val]
  simp only [h]
  omega

end Op

namespace Machine

variable {m n : Machine} {op : Op}

/-- Fetching reads a word and moves the program counter past it. -/
theorem fetch_eq_ok_iff {word : UInt16} :
    m.fetch = .ok (word, n) ↔
      m.memory.readWord m.pc.toNat = .ok word ∧ n = { m with pc := m.pc + 2 } := by
  simp only [fetch, bind_eq_ok_iff, pure, Except.pure, Except.ok.injEq, Prod.mk.injEq,
    eq_comm (a := n)]
  constructor
  · rintro ⟨w, hw, rfl, hn⟩
    exact ⟨hw, hn⟩
  · rintro ⟨hw, hn⟩
    exact ⟨word, hw, rfl, hn⟩

/-- Going past a word does not wrap before the last address of sixteen bits. -/
theorem toNat_add_two {pc : UInt16} (h : pc.toNat + 2 < 65536) : (pc + 2).toNat = pc.toNat + 2 :=
  (UInt16.toNat_add pc 2).trans (Nat.mod_eq_of_lt h)

/-- A skip goes past a further word if its condition holds. -/
theorem toNat_pc_skipIf (m : Machine) (condition : Bool) (hpc : m.pc.toNat + 2 < 65536) :
    (m.skipIf condition).pc.toNat = m.pc.toNat + if condition then 2 else 0 := by
  rw [skipIf_eq]
  cases condition with
  | false => rfl
  | true => exact toNat_add_two hpc

/-- The program counter does not wrap while a word is read. -/
theorem toNat_pc_add_two {word : UInt16} (h : m.memory.readWord m.pc.toNat = .ok word) :
    (m.pc + 2).toNat = m.pc.toNat + 2 ∧ m.pc.toNat + 2 ≤ memorySize := by
  have hle : m.pc.toNat + 2 ≤ memorySize := by
    have hend := Memory.add_two_le_of_readWord h
    omega
  exact ⟨toNat_add_two (by simp only [memorySize] at hle; omega), hle⟩

/-- The next instruction of a machine. -/
def StandsAt (m : Machine) (i : Instruction) : Prop :=
  m.memory.readWord m.pc.toNat = .ok i.word ∧ Op.ofWord? i.word.toNat = some i.op

instance (m : Machine) (i : Instruction) : Decidable (m.StandsAt i) :=
  decidable_of_iff ((m.memory.readWord m.pc.toNat).toOption = some i.word ∧
    Op.ofWord? i.word.toNat = some i.op) (and_congr_left' toOption_eq_some_iff)

/-- A machine stands at one instruction only. -/
theorem StandsAt.unique {i j : Instruction} (hi : m.StandsAt i) (hj : m.StandsAt j) : i = j := by
  obtain ⟨op, word⟩ := i
  obtain ⟨op', word'⟩ := j
  obtain rfl : word = word' := Except.ok.inj (hi.1.symm.trans hj.1)
  obtain rfl : op = op' := Option.some.inj (hi.2.symm.trans hj.2)
  rfl

/-- The next instruction of a machine, if its word can be read and has a meaning. -/
def standing? (m : Machine) : Option Instruction :=
  (m.memory.readWord m.pc.toNat >>= Instruction.ofWord).toOption

theorem standing?_eq_some_iff {i : Instruction} : m.standing? = some i ↔ m.StandsAt i := by
  unfold standing? StandsAt
  rw [toOption_eq_some_iff, bind_eq_ok_iff]
  constructor
  · rintro ⟨word, hw, hi⟩
    obtain ⟨hop, rfl⟩ := Instruction.ofWord_eq_ok_iff.mp hi
    exact ⟨hw, hop⟩
  · rintro ⟨hw, hop⟩
    exact ⟨i.word, hw, Instruction.ofWord_eq_ok_iff.mpr ⟨hop, rfl⟩⟩

/-- A successful cycle is a fetch, a decoding and an execution that succeed. -/
theorem cycle_eq_ok_iff :
    m.cycle = .ok (op, n) ↔
      ∃ word next, m.memory.readWord m.pc.toNat = .ok word ∧ Op.ofWord? word.toNat = some op ∧
        { m with pc := m.pc + 2 }.perform ⟨op, word⟩ = .ok next ∧
        n = { next with cycles := next.cycles + 1 } := by
  constructor
  · intro h
    unfold cycle at h
    split at h
    · cases h
    · next word fetched hf =>
      obtain ⟨hw, rfl⟩ := fetch_eq_ok_iff.mp hf
      split at h
      · cases h
      · next i hi =>
        obtain ⟨hop, rfl⟩ := Instruction.ofWord_eq_ok_iff.mp hi
        split at h
        · cases h
        · next next hn =>
          obtain ⟨rfl, rfl⟩ : i.op = op ∧ _ = n := by simpa using h
          exact ⟨i.word, next, hw, hop, hn, rfl⟩
  · rintro ⟨word, next, hw, hop, hn, rfl⟩
    have hf := fetch_eq_ok_iff.mpr ⟨hw, rfl⟩
    have hi : Instruction.ofWord word = .ok ⟨op, word⟩ :=
      Instruction.ofWord_eq_ok_iff.mpr ⟨hop, rfl⟩
    simp only [cycle, hf, hi, hn]

/-- A change to machines before a cycle comes to a change after it if it does so with the fetch, the
instruction and the count, and does not show in the place of a failure. -/
theorem cycle_map {f g : Machine → Machine} (hfetch : (f m).fetch = m.fetch.map (Prod.map id f))
    (hsite : ∀ opcode, (f m).site opcode = m.site opcode)
    (hcount : ∀ n, g { n with cycles := n.cycles + 1 } = { g n with cycles := (g n).cycles + 1 })
    (hperform : ∀ i, m.StandsAt i →
      (f { m with pc := m.pc + 2 }).perform i = ({ m with pc := m.pc + 2 }.perform i).map g) :
    (f m).cycle = m.cycle.map (Prod.map id g) := by
  unfold cycle
  rw [hfetch]
  cases hf : m.fetch with
  | error fault => simp only [Except.map, hsite]
  | ok outcome =>
    obtain ⟨word, fetched⟩ := outcome
    obtain ⟨hw, rfl⟩ := fetch_eq_ok_iff.mp hf
    simp only [Except.map, Prod.map, id]
    cases hi : Instruction.ofWord word with
    | error fault => simp only [hsite]
    | ok i =>
      obtain ⟨hop, rfl⟩ := Instruction.ofWord_eq_ok_iff.mp hi
      simp only [hperform i ⟨hw, hop⟩]
      cases ({ m with pc := m.pc + 2 } : Machine).perform i with
      | error fault => simp only [Except.map, hsite]
      | ok next => simp only [Except.map, hcount]

/-- A cycle respects the frame of its instruction, the fetch and the count apart. -/
theorem frame_of_cycle (h : m.cycle = .ok (op, n)) :
    ∃ word, Frame ⟨op, word⟩ { m with pc := m.pc + 2, cycles := m.cycles + 1 } n := by
  obtain ⟨word, next, -, -, hn, rfl⟩ := cycle_eq_ok_iff.mp h
  have hf := frame_of_perform hn
  exact ⟨word, { hf with cycles := congrArg (· + 1) hf.cycles }⟩

/-- A failed cycle reports the state it started from, and the word exactly if it was read. -/
theorem report_of_cycle {report : Report} (h : m.cycle = .error report) :
    (∃ fault, m.fetch = .error fault ∧ report = ⟨fault, m.site none⟩) ∨
      ∃ word fetched fault, m.fetch = .ok (word, fetched) ∧
        (Instruction.ofWord word >>= fetched.perform) = .error fault ∧
        report = ⟨fault, m.site (some word)⟩ := by
  unfold cycle at h
  split at h
  · next fault hf =>
    cases h
    exact Or.inl ⟨fault, hf, rfl⟩
  · next word fetched hf =>
    right
    split at h
    · next fault hi =>
      cases h
      exact ⟨word, fetched, fault, hf, by rw [hi]; rfl, rfl⟩
    · next i hi =>
      split at h
      · next fault hn =>
        cases h
        exact ⟨word, fetched, fault, hf, by rw [hi]; exact hn, rfl⟩
      · cases h

/-- A cycle that ends at the address of its own instruction took a jump, a call or a return, or
began a key wait. -/
theorem op_of_pc_eq (h : m.cycle = .ok (op, n)) (hpc : n.pc = m.pc) :
    op = .jump ∨ op = .jumpOffset ∨ op = .call ∨ op = .ret ∨ op = .awaitKey := by
  obtain ⟨word, next, hw, -, hn, rfl⟩ := cycle_eq_ok_iff.mp h
  obtain ⟨hadd, hle⟩ := toNat_pc_add_two hw
  have hframe := (frame_of_perform hn).pc
  have hnat : next.pc.toNat = m.pc.toNat := congrArg UInt16.toNat hpc
  cases op with
  | skip condition =>
    cases hn
    rw [toNat_pc_skipIf _ _ (by simp only [memorySize] at hle ⊢; omega)] at hnat
    simp only [hadd] at hnat
    omega
  | ret | jump | call | jumpOffset | awaitKey => simp
  | _ =>
    -- The others leave the program counter where the fetch has put it, past the instruction.
    have he := hframe rfl
    rw [he] at hnat
    simp only at hnat
    omega

end Machine

end Chip8
