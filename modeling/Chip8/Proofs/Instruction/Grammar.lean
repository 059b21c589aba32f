import Chip8.Proofs.Instruction.Pattern

/-!
# What decodes

The decoder accepts exactly the words that fit a pattern. No word fits two patterns, save the two that
have a meaning of their own among the routine calls. The operands are the digits of the word, so that
they determine it.
-/

namespace Chip8

namespace Op

variable {op op' : Op} {word : Nat}

/-- The first operation has the word that fits the patterns of both. -/
def Overrides (op op' : Op) : Prop := (op = .clearScreen ∨ op = .ret) ∧ op' = .machineCall

/-- A word decodes to an operation exactly if it fits its pattern and that of none that overrides
it. -/
theorem ofWord?_eq_some_iff_not_overridden :
    ofWord? word = some op ↔
      Fits op.pattern word ∧ ∀ op' : Op, op'.Overrides op → ¬ Fits op'.pattern word := by
  rw [ofWord?_eq_some_iff, and_congr_right_iff]
  intro _
  constructor
  · rintro h op' ⟨rfl | rfl, rfl⟩
    · exact fits_clearScreen_iff.not.mpr (h rfl).1
    · exact fits_ret_iff.not.mpr (h rfl).2
  · rintro h rfl
    exact ⟨fits_clearScreen_iff.not.mp (h _ ⟨Or.inl rfl, rfl⟩),
      fits_ret_iff.not.mp (h _ ⟨Or.inr rfl, rfl⟩)⟩

/-- The operation of a word overrides every other one whose pattern the word fits. -/
theorem eq_or_overrides (hop : ofWord? word = some op) (h : Fits op'.pattern word) :
    op = op' ∨ op.Overrides op' := by
  by_cases hcall : op' = .machineCall
  · subst hcall
    by_cases hclear : word = 0x00E0
    · subst hclear
      cases hop
      exact Or.inr ⟨Or.inl rfl, rfl⟩
    · by_cases hret : word = 0x00EE
      · subst hret
        cases hop
        exact Or.inr ⟨Or.inr rfl, rfl⟩
      · have hplain := ofWord?_of_fits h fun _ => ⟨hclear, hret⟩
        exact Or.inl (Option.some.inj (hop.symm.trans hplain))
  · exact Or.inl (eq_of_fits op' hop h hcall)

/-- Two operations whose patterns the same word fits are one, unless one of them overrides the
other. -/
theorem eq_or_overrides_of_fits (h : Fits op.pattern word) (h' : Fits op'.pattern word) :
    op = op' ∨ op.Overrides op' ∨ op'.Overrides op := by
  obtain ⟨meaning, hmeaning⟩ : ∃ meaning, ofWord? word = some meaning := by
    refine Option.ne_none_iff_exists'.mp fun hnone => ?_
    exact ofWord?_eq_none_iff.mp hnone op h
  rcases eq_or_overrides hmeaning h with rfl | hover
  · rcases eq_or_overrides hmeaning h' with rfl | hover'
    · exact Or.inl rfl
    · exact Or.inr (Or.inl hover')
  · rcases eq_or_overrides hmeaning h' with rfl | hover'
    · exact Or.inr (Or.inr hover)
    · exact Or.inl (hover.2.trans hover'.2.symm)

end Op

/-- The low sixteen bits of a number. -/
theorem toNat_ofInt (w : Int) : (UInt16.ofInt w).toNat = (w % 65536).toNat := by
  simp only [UInt16.ofInt, UInt16.toNat_ofNat']
  omega

/-- A word that decodes becomes an instruction with itself as operands. -/
theorem Instruction.ofWord_eq_ok_iff {word : UInt16} {i : Instruction} :
    ofWord word = .ok i ↔ Op.ofWord? word.toNat = some i.op ∧ i.word = word := by
  obtain ⟨op, w⟩ := i
  unfold ofWord
  split
  · next o ho => simp only [ho, Except.ok.injEq, Instruction.mk.injEq, Option.some.injEq, eq_comm]
  · next ho => simp only [ho, reduceCtorEq, false_and]

/-- A number below `65536` whose operation is known decodes to an instruction with that word. -/
theorem decode_natCast {n : Nat} {op : Op} (hn : n < 65536) (hop : Op.ofWord? n = some op) :
    ∃ i, decode n = .ok i ∧ i.op = op ∧ i.word.toNat = n := by
  have hword : (UInt16.ofInt n).toNat = n := by
    rw [toNat_ofInt]
    omega
  refine ⟨⟨op, UInt16.ofInt n⟩, ?_, rfl, hword⟩
  exact Instruction.ofWord_eq_ok_iff.mpr ⟨by rw [hword]; exact hop, rfl⟩

/-- A number of four digits whose operation is known decodes to an instruction with the last three as
its operands. -/
theorem decode_digits {w : Nat} {op : Op} {f n : Fin 16} {x y : Fin registerCount}
    (hw : w = 4096 * f.val + 256 * x.val + 16 * y.val + n.val)
    (hop : Op.ofWord? w = some op) :
    ∃ i, decode w = .ok i ∧ i.op = op ∧ i.x = x ∧ i.y = y ∧ i.n = n := by
  have hx := x.isLt
  have hy := y.isLt
  simp only [registerCount] at hx hy
  obtain ⟨i, hi, hop, hword⟩ := decode_natCast (by omega) hop
  refine ⟨i, hi, hop, Fin.ext ?_, Fin.ext ?_, Fin.ext ?_⟩
  · rw [Instruction.x_val]
    omega
  · rw [Instruction.y_val]
    omega
  · rw [Instruction.n_val]
    omega

/-- A word of the last family decodes by its low byte and keeps its operand. -/
theorem decode_misc {n b : Nat} {op : Op} {x : Fin registerCount}
    (hn : n = 0xF000 + 256 * x.val + b) (hb : b < 256) (hop : Op.ofMiscByte? b = some op) :
    ∃ i, decode n = .ok i ∧ i.op = op ∧ i.x = x := by
  have hx := x.isLt
  simp only [registerCount] at hx
  have hfamily : n / 4096 = 15 := by omega
  have hbyte : n % 256 = b := by omega
  have hword : Op.ofWord? n = some op := by
    simp only [Op.ofWord?, hfamily, hbyte, hop]
  have hdigits : n = 4096 * 15 + 256 * x.val + 16 * (b / 16) + b % 16 := by omega
  obtain ⟨i, hi, hop, hx, -⟩ := decode_digits (f := 15) (y := ⟨b / 16, Nat.div_lt_of_lt_mul hb⟩)
    (n := ⟨b % 16, Nat.mod_lt b (by decide)⟩) hdigits hword
  exact ⟨i, hi, hop, hx⟩

/-- A word that fits no pattern is reported. -/
theorem Instruction.ofWord_eq_error_iff {word : UInt16} {fault : Fault} :
    ofWord word = .error fault ↔
      Op.ofWord? word.toNat = none ∧ fault = .unknownOpcode word.toNat .unrecognised := by
  unfold ofWord
  split
  · next ho => simp only [ho, reduceCtorEq, false_and]
  · next ho => simp only [ho, Except.error.injEq, true_and, eq_comm]

/-- The fields of an instruction are the last four hexadecimal digits of a number. -/
structure Instruction.Spells (i : Instruction) (w : Int) : Prop where
  word : (i.word.toNat : Int) = w % 65536
  digits : i.word.toNat = 4096 * i.family.val + 256 * i.x.val + 16 * i.y.val + i.n.val
  bounds : i.family.val < 16 ∧ i.x.val < 16 ∧ i.y.val < 16 ∧ i.n.val < 16
  nn : i.nn.toNat = 16 * i.y.val + i.n.val
  nnn : i.nnn.toNat = 256 * i.x.val + i.nn.toNat

/-- The fields of an instruction that was decoded are the digits of its number. -/
theorem spells_of_decode {w : Int} {i : Instruction} (h : decode w = .ok i) : i.Spells w := by
  obtain ⟨-, hword⟩ := Instruction.ofWord_eq_ok_iff.mp h
  refine ⟨?_, ?_, ⟨i.family.isLt, i.x.isLt, i.y.isLt, i.n.isLt⟩, ?_, ?_⟩
  · rw [hword, toNat_ofInt]
    omega
  · simp only [Instruction.family_val, Instruction.x_val, Instruction.y_val, Instruction.n_val]
    omega
  · simp only [Instruction.toNat_nn, Instruction.y_val, Instruction.n_val]
    omega
  · simp only [Instruction.toNat_nnn, Instruction.toNat_nn, Instruction.x_val]
    omega

/-- Decoding a number finds the operation whose pattern its last four digits fit. It fails exactly if
they fit none, and they fit two only where one overrides the other. The fields of what it finds are
the digits, and the same digits mean the same number up to multiples of `65536`. -/
theorem decode_grammar (w : Int) :
    (∀ op : Op, (∃ i, decode w = .ok i ∧ i.op = op) ↔
      Op.Fits op.pattern (w % 65536).toNat ∧
        ∀ op' : Op, op'.Overrides op → ¬ Op.Fits op'.pattern (w % 65536).toNat) ∧
    (∀ fault, decode w = .error fault ↔
      (∀ op : Op, ¬ Op.Fits op.pattern (w % 65536).toNat) ∧
        fault = .unknownOpcode (w % 65536) .unrecognised) ∧
    (∀ op op' : Op, Op.Fits op.pattern (w % 65536).toNat → Op.Fits op'.pattern (w % 65536).toNat →
      op = op' ∨ op.Overrides op' ∨ op'.Overrides op) ∧
    (∀ i, decode w = .ok i → i.Spells w) ∧
    ∀ (w' : Int) (i i' : Instruction), decode w = .ok i → decode w' = .ok i' →
      (i.family = i'.family ∧ i.x = i'.x ∧ i.y = i'.y ∧ i.n = i'.n ↔ w % 65536 = w' % 65536) := by
  refine ⟨?_, ?_, ?_, ?_, ?_⟩
  · intro op
    rw [← Op.ofWord?_eq_some_iff_not_overridden, ← toNat_ofInt]
    constructor
    · rintro ⟨i, hi, rfl⟩
      exact (Instruction.ofWord_eq_ok_iff.mp hi).1
    · intro hop
      exact ⟨⟨op, UInt16.ofInt w⟩, Instruction.ofWord_eq_ok_iff.mpr ⟨hop, rfl⟩, rfl⟩
  · intro fault
    have hword : ((UInt16.ofInt w).toNat : Int) = w % 65536 := by
      rw [toNat_ofInt]
      omega
    rw [← Op.ofWord?_eq_none_iff, ← hword, Int.toNat_natCast]
    exact Instruction.ofWord_eq_error_iff
  · intro op op' h h'
    exact Op.eq_or_overrides_of_fits h h'
  · intro i h
    exact spells_of_decode h
  · intro w' i i' h h'
    have hspells := spells_of_decode h
    have hspells' := spells_of_decode h'
    rw [← hspells.word, ← hspells'.word, hspells.digits, hspells'.digits]
    constructor
    · rintro ⟨hfamily, hx, hy, hn⟩
      rw [hfamily, hx, hy, hn]
    · intro hsame
      obtain ⟨-, hx, hy, hn⟩ := hspells.bounds
      obtain ⟨-, hx', hy', hn'⟩ := hspells'.bounds
      refine ⟨Fin.ext ?_, Fin.ext ?_, Fin.ext ?_, Fin.ext ?_⟩
      all_goals omega

/-- A negative number decodes to the fields of the number with the same last four digits. -/
theorem decode_negative :
    ∃ i i', decode (-0x2F5D) = .ok i ∧ decode 0xD0A3 = .ok i' ∧ i.op = .draw ∧
      i.Spells (-0x2F5D) ∧ i.family = i'.family ∧ i.x = i'.x ∧ i.y = i'.y ∧ i.n = i'.n := by
  obtain ⟨hops, -, -, hspells, hfields⟩ := decode_grammar (-0x2F5D)
  obtain ⟨i, hi, hop⟩ := (hops .draw).mpr
    ⟨by simp [Op.Fits], fun op' hover => absurd hover.2 (by decide)⟩
  have hword : Op.ofWord? 0xD0A3 = some .draw := rfl
  obtain ⟨i', hi', -⟩ := decode_natCast (by decide) hword
  exact ⟨i, i', hi, hi', hop, hspells i hi, (hfields 0xD0A3 i i' hi hi').mpr (by decide)⟩

end Chip8
