import Mathlib.Data.List.Forall2
import Chip8.Instruction.Decode

/-!
# Patterns of instruction words

A word has the form of an operation if each of its four hexadecimal digits is one that the symbol in
its place of the pattern stands for. Decoding finds the operation whose pattern a word fits. Only the
words of two operations fit another pattern as well, that of a routine call.
-/

namespace Chip8.Op

variable {op : Op} {word : Nat}

/-- The digit that a symbol of a pattern stands for. The letters of operands stand for any digit. -/
@[simp]
def symbolValue? : Char → Option Nat
  | '0' => some 0x0
  | '1' => some 0x1
  | '2' => some 0x2
  | '3' => some 0x3
  | '4' => some 0x4
  | '5' => some 0x5
  | '6' => some 0x6
  | '7' => some 0x7
  | '8' => some 0x8
  | '9' => some 0x9
  | 'A' => some 0xA
  | 'B' => some 0xB
  | 'C' => some 0xC
  | 'D' => some 0xD
  | 'E' => some 0xE
  | 'F' => some 0xF
  | _ => none

/-- A digit may stand in the place of a symbol. -/
@[simp]
def Admits (symbol : Char) (digit : Nat) : Prop := ∀ value ∈ symbolValue? symbol, digit = value

/-- The four hexadecimal digits of a word. -/
@[simp]
def digits (word : Nat) : List Nat := [word / 4096, word / 256 % 16, word / 16 % 16, word % 16]

/-- Every digit of a word may stand in its place of a pattern. -/
def Fits (pattern : String) (word : Nat) : Prop := List.Forall₂ Admits pattern.toList (digits word)

attribute [simp] pattern Condition.pattern Alu.pattern

private theorem mod_byte (word : Nat) : word % 256 = 16 * (word / 16 % 16) + word % 16 := by omega

theorem fits_clearScreen_iff : Fits clearScreen.pattern word ↔ word = 0x00E0 := by
  simp [Fits]
  omega

theorem fits_ret_iff : Fits ret.pattern word ↔ word = 0x00EE := by
  simp [Fits]
  omega

/-- A word that fits a pattern decodes to its operation. -/
theorem ofWord?_of_fits (h : Fits op.pattern word)
    (hplain : op = .machineCall → word ≠ 0x00E0 ∧ word ≠ 0x00EE) : ofWord? word = some op := by
  cases op with
  | machineCall =>
    obtain ⟨hclear, hret⟩ := hplain rfl
    have hfamily : word / 4096 = 0 := by simpa [Fits] using h
    simp [ofWord?, ofSystemWord, hfamily, hclear, hret]
  | clearScreen =>
    rw [fits_clearScreen_iff.mp h]
    rfl
  | ret =>
    rw [fits_ret_iff.mp h]
    rfl
  | skip condition => cases condition <;> simp_all [Fits, ofWord?, ofKeyByte?, mod_byte]
  | alu operation => cases operation <;> simp_all [Fits, ofWord?, Alu.ofDigit?]
  | _ => simp_all [Fits, ofWord?, ofMiscByte?, mod_byte]

/-- The digit of an operation on two registers is the last one of its pattern. -/
theorem fits_of_ofDigit? {operation : Alu} (hfamily : word / 4096 = 8)
    (h : Alu.ofDigit? (word % 16) = some operation) : Fits operation.pattern word := by
  unfold Alu.ofDigit? at h
  split at h
  case h_10 => cases h
  all_goals
    next hdigit =>
      cases h
      simp [Fits, hfamily, hdigit]

/-- The byte of a key test is the last two digits of its pattern. -/
theorem fits_of_ofKeyByte? (hfamily : word / 4096 = 14)
    (h : ofKeyByte? (word % 256) = some op) : Fits op.pattern word := by
  unfold ofKeyByte? at h
  split at h
  case h_3 => cases h
  all_goals
    next hbyte =>
      cases h
      simp [Fits, hfamily]
      omega

/-- The byte of an operation of the last family is the last two digits of its pattern. -/
theorem fits_of_ofMiscByte? (hfamily : word / 4096 = 15)
    (h : ofMiscByte? (word % 256) = some op) : Fits op.pattern word := by
  unfold ofMiscByte? at h
  split at h
  case h_10 => cases h
  all_goals
    next hbyte =>
      cases h
      simp [Fits, hfamily]
      omega

/-- A word that decodes to an operation fits its pattern. -/
theorem fits_of_ofWord? (h : ofWord? word = some op) : Fits op.pattern word := by
  unfold ofWord? at h
  split at h
  case h_1 hfamily =>
    have hsystem := Option.some.inj h
    unfold ofSystemWord at hsystem
    split at hsystem
    · next hword =>
      subst hword hsystem
      simp [Fits]
    · split at hsystem
      · next hword =>
        subst hword hsystem
        simp [Fits]
      · subst hsystem
        simp [Fits, hfamily]
  case h_9 hfamily =>
    obtain ⟨operation, hdigit, rfl⟩ := Option.map_eq_some_iff.mp h
    exact fits_of_ofDigit? hfamily hdigit
  case h_6 hfamily | h_10 hfamily =>
    split at h
    · next hdigit =>
      cases h
      simp [Fits, hfamily, hdigit]
    · cases h
  case h_15 hfamily => exact fits_of_ofKeyByte? hfamily h
  case h_16 hfamily => exact fits_of_ofMiscByte? hfamily h
  case h_17 => cases h
  all_goals
    next hfamily =>
      cases h
      simp [Fits, hfamily]

/-- Only the words of two other operations fit the pattern of a routine call without being one. -/
theorem ne_of_ofWord?_machineCall (h : ofWord? word = some .machineCall) :
    word ≠ 0x00E0 ∧ word ≠ 0x00EE := by
  constructor
  · rintro rfl
    cases h
  · rintro rfl
    cases h

/-- A word decodes to an operation exactly if it fits its pattern, the two words apart that fit the
pattern of a routine call and have a meaning of their own. -/
theorem ofWord?_eq_some_iff :
    ofWord? word = some op ↔
      Fits op.pattern word ∧ (op = .machineCall → word ≠ 0x00E0 ∧ word ≠ 0x00EE) := by
  constructor
  · intro h
    refine ⟨fits_of_ofWord? h, ?_⟩
    rintro rfl
    exact ne_of_ofWord?_machineCall h
  · rintro ⟨hfits, hplain⟩
    exact ofWord?_of_fits hfits hplain

/-- A word that decodes to one operation fits the pattern of no other, that of a routine call
apart. -/
theorem eq_of_fits (op' : Op) (hop : ofWord? word = some op) (h : Fits op'.pattern word)
    (hne : op' ≠ .machineCall) : op = op' :=
  Option.some.inj (hop.symm.trans (ofWord?_of_fits h fun he => absurd he hne))

/-- A word that decodes has sixteen bits. -/
theorem lt_of_ofWord? (h : ofWord? word = some op) : word < 65536 := by
  unfold ofWord? at h
  split at h
  case h_17 => cases h
  all_goals omega

/-- A word that decodes to nothing fits no pattern at all. -/
theorem ofWord?_eq_none_iff : ofWord? word = none ↔ ∀ op : Op, ¬ Fits op.pattern word := by
  constructor
  · intro h op hfits
    by_cases hspecial : word = 0x00E0 ∨ word = 0x00EE
    · rcases hspecial with rfl | rfl
      · cases h
      · cases h
    · have hdecodes := ofWord?_of_fits hfits fun _ => not_or.mp hspecial
      rw [h] at hdecodes
      cases hdecodes
  · intro h
    cases hop : ofWord? word with
    | none => rfl
    | some op => exact absurd (fits_of_ofWord? hop) (h op)

end Chip8.Op
