import Chip8.Memory
import Chip8.Proofs.Except

/-!
# Checked accesses to memory

What it takes for an access to succeed. A check passes exactly if its bounds hold, so each access
succeeds exactly under the bounds of its check. A write that succeeds is a patch in the part of
memory that programs own.
-/

namespace Chip8

namespace Memory

variable {m k : Memory} {address length : Int} {values : List UInt8} {fault : Fault}

/-- A run passes its check if it ends inside memory. -/
theorem checkRange_eq_ok_iff :
    checkRange address length = .ok () ↔ address + length ≤ memorySize := by
  unfold checkRange
  by_cases h : address + length > memorySize
  · simp only [h, ite_true, reduceCtorEq, false_iff]
    exact Int.not_le.mpr h
  · simp only [h, ite_false, true_iff]
    exact Int.not_lt.mp h

/-- A run may be written if it ends inside memory and, unless it is empty, starts in the part that
programs own. -/
theorem checkWritable_eq_ok_iff :
    checkWritable address length = .ok () ↔
      address + length ≤ memorySize ∧ (length ≠ 0 → (programStart : Int) ≤ address) := by
  unfold checkWritable
  rw [check_bind_eq_ok_iff, checkRange_eq_ok_iff]
  apply and_congr_right
  intro _
  by_cases h : length ≠ 0 ∧ address < programStart
  · simp only [if_pos h, reduceCtorEq, false_iff]
    intro hstart
    exact absurd (hstart h.1) (Int.not_le.mpr h.2)
  · simp only [if_neg h, pure, Except.pure, true_iff]
    intro hlength
    exact Int.not_lt.mp fun hlow => h ⟨hlength, hlow⟩

/-- A run fails its check exactly if it goes past the end of memory. -/
theorem checkRange_eq_error_iff :
    checkRange address length = .error fault ↔
      memorySize < address + length ∧ fault = .outOfBounds (max address memorySize) .outside := by
  unfold checkRange
  by_cases h : address + length > memorySize
  · simp only [if_pos h, Except.error.injEq, eq_comm (b := fault)]
    exact (and_iff_right h).symm
  · simp only [if_neg h, reduceCtorEq, false_iff]
    exact fun hout => h hout.1

/-- A run may not be written if it goes past the end of memory or else, unless it is empty, if it
starts below the part that programs own. -/
theorem checkWritable_eq_error_iff :
    checkWritable address length = .error fault ↔
      (memorySize < address + length ∧ fault = .outOfBounds (max address memorySize) .outside) ∨
      (address + length ≤ memorySize ∧ length ≠ 0 ∧ address < programStart ∧
        fault = .outOfBounds address .reserved) := by
  unfold checkWritable
  rw [bind_eq_error_iff, checkRange_eq_error_iff]
  apply or_congr_right
  constructor
  · rintro ⟨⟨⟩, hr, h⟩
    rw [checkRange_eq_ok_iff] at hr
    split at h
    · next hlow =>
      cases h
      exact ⟨hr, hlow.1, hlow.2, rfl⟩
    · cases h
  · rintro ⟨hend, hne, hlow, rfl⟩
    refine ⟨(), checkRange_eq_ok_iff.mpr hend, ?_⟩
    rw [if_pos ⟨hne, hlow⟩]

/-- A word is refused exactly if it goes past the end of memory. -/
theorem readWord_eq_error_iff :
    m.readWord address = .error fault ↔
      memorySize < address + 2 ∧ fault = .outOfBounds (max address memorySize) .outside := by
  rw [readWord, bind_pure_eq_error_iff, checkRange_eq_error_iff]

/-- A run is refused for reading exactly if it goes past the end of memory. -/
theorem readBytes_eq_error_iff :
    m.readBytes address length = .error fault ↔
      memorySize < address + length ∧ fault = .outOfBounds (max address memorySize) .outside := by
  rw [readBytes, bind_pure_eq_error_iff, checkRange_eq_error_iff]

/-- A run is refused for writing exactly if it fails the check of its place. -/
theorem writeBytes_eq_error_iff :
    m.writeBytes address values = .error fault ↔
      checkWritable address values.length = .error fault := by
  rw [writeBytes, bind_pure_eq_error_iff]

/-- A word is read only if both of its bytes lie before the end of memory. -/
theorem add_two_le_of_readWord {word : UInt16} (h : m.readWord address = .ok word) :
    address + 2 ≤ memorySize := by
  exact checkRange_eq_ok_iff.mp (check_bind_eq_ok_iff.mp h).1

/-- The value of a word made of two bytes. -/
theorem toNat_word (high low : UInt8) :
    (high.toUInt16 * 256 + low.toUInt16).toNat = 256 * high.toNat + low.toNat := by
  have hhigh := high.toNat_lt
  have hlow := low.toNat_lt
  simp only [UInt16.toNat_add, UInt16.toNat_mul, UInt8.toNat_toUInt16, UInt16.reduceToNat]
  omega

/-- The word at an address, its high byte first. -/
def wordAt (m : Memory) (a : Nat) (h : a + 1 < memorySize) : Nat :=
  256 * (m.get ⟨a, Nat.lt_of_succ_lt h⟩).toNat + (m.get ⟨a + 1, h⟩).toNat

/-- A word that is read is the one at its address. -/
theorem toNat_readWord {a : Nat} {word : UInt16} (hword : m.readWord a = .ok word) :
    ∃ h : a + 1 < memorySize, word.toNat = m.wordAt a h := by
  have hend : a + 2 ≤ memorySize := by
    have hle := add_two_le_of_readWord hword
    omega
  rw [readWord_natCast m hend] at hword
  cases hword
  exact ⟨hend, toNat_word _ _⟩

/-- A write succeeds exactly if its run may be written, and is a patch then. -/
theorem writeBytes_eq_ok_iff :
    m.writeBytes address values = .ok k ↔
      (address + values.length ≤ memorySize ∧ (values ≠ [] → (programStart : Int) ≤ address)) ∧
        k = m.patch address.toNat values := by
  have hempty : (values.length : Int) ≠ 0 ↔ values ≠ [] := by
    simp only [ne_eq, Int.natCast_eq_zero, List.length_eq_zero_iff]
  unfold writeBytes
  rw [check_bind_eq_ok_iff, checkWritable_eq_ok_iff, hempty]
  simp only [pure, Except.pure, Except.ok.injEq, eq_comm (a := k)]

/-- The bytes at consecutive addresses. -/
def run (m : Memory) (start length : Nat) : List UInt8 :=
  (List.range length).map fun k => m.get (slot (start + k : Nat))

@[simp] theorem length_run (m : Memory) (start length : Nat) :
    (m.run start length).length = length := by
  simp [run]

theorem getElem?_run (m : Memory) {start length k : Nat} (h : k < length) :
    (m.run start length)[k]? = some (m.get (slot (start + k : Nat))) := by
  simp [run, h]

/-- A memory shows bytes at an address and the ones after it, all of them inside memory. -/
def Shows (m : Memory) (address : Int) (values : List UInt8) : Prop :=
  ∀ i (hi : i < values.length), ∃ p : Fin memorySize, (p : Int) = address + i ∧ m.get p = values[i]

/-- A memory shows its own run of bytes. -/
theorem shows_run (m : Memory) {start length : Nat} (h : start + length ≤ memorySize) :
    m.Shows start (m.run start length) := by
  intro i hi
  rw [length_run] at hi
  have hlt : start + i < memorySize := by omega
  refine ⟨⟨start + i, hlt⟩, Int.natCast_add start i, ?_⟩
  simp only [run, List.getElem_map, List.getElem_range, slot_of_lt hlt]

/-- The bytes between two positions are a run. -/
theorem toList_extract (m : Memory) {start stop : Nat} (h : stop ≤ memorySize) :
    (m.bytes.toArray.extract start stop).toList = m.run start (stop - start) := by
  apply List.ext_getElem
  · rw [length_run, Array.length_toList, Array.size_extract, Vector.size_toArray, Nat.min_eq_left h]
  · intro k hk hrun
    rw [length_run] at hrun
    have hlt : start + k < memorySize := by omega
    simp only [Array.getElem_toList, Array.getElem_extract, run, List.getElem_map,
      List.getElem_range, slot_of_lt hlt, get]
    rfl

/-- A run of bytes is read exactly if it ends inside memory. -/
theorem readBytes_eq_ok_iff {start count : Nat} :
    m.readBytes start count = .ok values ↔
      start + count ≤ memorySize ∧ values = m.run start count := by
  rw [readBytes, check_bind_eq_ok_iff, checkRange_eq_ok_iff, ← Int.natCast_add, Int.ofNat_le]
  refine and_congr_right fun hend => ?_
  have hstart : start ≤ memorySize := Nat.le_of_add_right_le hend
  rw [boundary_natCast hstart, boundary_natCast hend, toList_extract m hend,
    Nat.add_sub_cancel_left]
  simp only [pure, Except.pure, Except.ok.injEq, eq_comm (b := values)]

/-- A word depends on its two bytes alone, and whether it can be read on its address alone. -/
theorem readWord_congr {a : Nat}
    (h : ∀ i : Fin memorySize, i.val = a ∨ i.val = a + 1 → k.get i = m.get i) :
    k.readWord a = m.readWord a := by
  rcases Nat.lt_or_ge memorySize (a + 2) with hout | hend
  · have hlong : (memorySize : Int) < (a : Int) + 2 := by omega
    have hr := checkRange_eq_error_iff.mpr ⟨hlong, rfl⟩
    simp only [readWord, hr, bind, Except.bind]
  · rw [readWord_natCast k hend, readWord_natCast m hend, h _ (Or.inl rfl), h _ (Or.inr rfl)]

/-- A run of bytes depends on these bytes alone, and whether it can be read on its place alone. -/
theorem readBytes_congr {start count : Nat}
    (h : ∀ i : Fin memorySize, start ≤ i.val → i.val < start + count → k.get i = m.get i) :
    k.readBytes start count = m.readBytes start count := by
  rcases Nat.lt_or_ge memorySize (start + count) with hout | hend
  · have hlong : (memorySize : Int) < (start : Int) + (count : Int) := by omega
    have hr := checkRange_eq_error_iff.mpr ⟨hlong, rfl⟩
    simp only [readBytes, hr, bind, Except.bind]
  · have hrun : k.run start count = m.run start count := by
      refine List.map_congr_left fun j hj => ?_
      have hlt : start + j < start + count := Nat.add_lt_add_left (List.mem_range.mp hj) start
      rw [slot_of_lt (Nat.lt_of_lt_of_le hlt hend)]
      exact h _ (Nat.le_add_right start j) hlt
    rw [readBytes_eq_ok_iff.mpr ⟨hend, rfl⟩, readBytes_eq_ok_iff.mpr ⟨hend, rfl⟩, hrun]

/-- Whether a run may be written depends on its place alone. -/
theorem writeBytes_congr (m k : Memory) (address : Int) (values : List UInt8) :
    k.writeBytes address values =
      (m.writeBytes address values).map fun _ => k.patch address.toNat values := by
  unfold writeBytes
  cases checkWritable address values.length with
  | error fault => rfl
  | ok => rfl

/-- A patch leaves alone what lies before and after it. -/
theorem get_patch_of_outside (m : Memory) {a : Nat} {i : Fin memorySize}
    (h : i.val < a ∨ a + values.length ≤ i.val) : (m.patch a values).get i = m.get i := by
  rw [get_patch]
  by_cases hle : a ≤ i.val
  · have hend : values.length ≤ i.val - a := by omega
    rw [if_pos hle, List.getElem?_eq_none hend, Option.getD_none]
  · rw [if_neg hle]

/-- The bytes inside a patch do not depend on what they replace. -/
theorem get_patch_of_inside {a : Nat} {i : Fin memorySize}
    (h : a ≤ i.val ∧ i.val < a + values.length) :
    (k.patch a values).get i = (m.patch a values).get i := by
  have hlt : i.val - a < values.length := by omega
  rw [get_patch, get_patch, if_pos h.1, if_pos h.1, List.getElem?_eq_getElem hlt,
    Option.getD_some, Option.getD_some]

/-- Two memories in which the same bytes are put differ where they did so outside these bytes. -/
theorem get_patch_ne_iff {a : Nat} {i : Fin memorySize} :
    (k.patch a values).get i ≠ (m.patch a values).get i ↔
      k.get i ≠ m.get i ∧ ¬ (a ≤ i.val ∧ i.val < a + values.length) := by
  by_cases hin : a ≤ i.val ∧ i.val < a + values.length
  · rw [get_patch_of_inside (m := m) hin]
    exact iff_of_false (fun hne => hne rfl) fun h => h.2 hin
  · have hout : i.val < a ∨ a + values.length ≤ i.val := by omega
    rw [get_patch_of_outside k hout, get_patch_of_outside m hout]
    exact (and_iff_left hin).symm

/-- Two patches one after the other are one patch. -/
theorem patch_append (m : Memory) (a : Nat) (first second : List UInt8) :
    m.patch a (first ++ second) = (m.patch a first).patch (a + first.length) second := by
  induction first generalizing m a with
  | nil => rfl
  | cons value rest ih =>
    rw [List.cons_append, patch, patch, ih, List.length_cons, Nat.add_assoc, Nat.add_comm 1]

/-- A run is its first part and what follows it. -/
theorem run_add (m : Memory) (start first second : Nat) :
    m.run start (first + second) = m.run start first ++ m.run (start + first) second := by
  simp only [run, List.range_add, List.map_append, List.map_map, Function.comp_def, Nat.add_assoc]

/-- A patch inside memory can be read back. -/
theorem run_patch (m : Memory) {a : Nat} (h : a + values.length ≤ memorySize) :
    (m.patch a values).run a values.length = values := by
  apply List.ext_getElem
  · exact length_run _ _ _
  · intro k hk hvalues
    have hlt : a + k < memorySize := by omega
    simp only [run, List.getElem_map, List.getElem_range, slot_of_lt hlt, get_patch,
      Nat.le_add_right, ite_true, Nat.add_sub_cancel_left, List.getElem?_eq_getElem hvalues,
      Option.getD_some]

end Memory

end Chip8
