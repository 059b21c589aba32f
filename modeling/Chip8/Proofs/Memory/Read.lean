import Chip8.Proofs.Memory

/-!
# Reads at both ends of memory

A read is meant to answer with the bytes at the addresses it was asked for, or to be refused if one
of them lies outside memory. Its check looks at the end of the run alone, so it keeps to that
exactly for runs that start at zero or above and for those that go past the end. A run that starts
below zero and does not go past the end is answered with bytes counted back from the end of memory.
-/

namespace Chip8.Memory

variable {m : Memory} {address : Int} {count : Nat} {outcome : Except Fault (List UInt8)}

/-- An address of memory. -/
def Inside (address : Int) : Prop := 0 ≤ address ∧ address < memorySize

/-- A read of a number of bytes keeps the bounds of memory: it answers with the bytes at its
addresses if all of them are inside, and is refused as out of bounds if one of them is not. -/
structure KeepsBounds (m : Memory) (address : Int) (count : Nat)
    (outcome : Except Fault (List UInt8)) : Prop where
  answers : (∀ i < count, Inside (address + i)) →
    ∃ values, outcome = .ok values ∧ values.length = count ∧ m.Shows address values
  refuses : ∀ i < count, ¬ Inside (address + i) →
    ∃ place issue, outcome = .error (.outOfBounds place issue)

/-- A run is inside memory if its first and its last address are. -/
theorem forall_inside_iff (hcount : 1 ≤ count) :
    (∀ i < count, Inside (address + i)) ↔ 0 ≤ address ∧ address + count ≤ memorySize := by
  unfold Inside
  constructor
  · intro h
    have hfirst := (h 0 hcount).1
    have hlast := (h (count - 1) (by omega)).2
    omega
  · intro h i hi
    omega

/-- A read that is refused exactly if its run goes past the end, and is right otherwise if it starts
at zero or above, keeps the bounds unless it starts below zero and does not go past the end. -/
theorem keepsBounds_iff (hcount : 1 ≤ count)
    (hpast : memorySize < address + count →
      ∃ place issue, outcome = .error (.outOfBounds place issue))
    (hend : address + count ≤ memorySize → ∃ values, outcome = .ok values)
    (hright : 0 ≤ address → address + count ≤ memorySize →
      ∃ values, outcome = .ok values ∧ values.length = count ∧ m.Shows address values) :
    m.KeepsBounds address count outcome ↔ 0 ≤ address ∨ memorySize < address + count := by
  constructor
  · intro h
    by_cases hnonneg : 0 ≤ address
    · exact Or.inl hnonneg
    · have houtside : ¬ Inside (address + (0 : Nat)) := fun hin => by
        have hfirst := hin.1
        omega
      obtain ⟨place, issue, herror⟩ := h.refuses 0 hcount houtside
      refine Or.inr (Int.not_le.mp fun hle => ?_)
      obtain ⟨values, hok⟩ := hend hle
      rw [hok] at herror
      cases herror
  · intro h
    constructor
    · intro hin
      obtain ⟨hnonneg, hle⟩ := (forall_inside_iff hcount).mp hin
      exact hright hnonneg hle
    · intro i hi houtside
      refine hpast (Int.not_le.mp fun hle => houtside ?_)
      have hnonneg : 0 ≤ address := h.resolve_right (Int.not_lt.mpr hle)
      exact (forall_inside_iff hcount).mpr ⟨hnonneg, hle⟩ i hi

/-- The two bytes of a word, its high byte first. -/
def bytesOfWord (word : UInt16) : List UInt8 :=
  [UInt8.ofNat (word.toNat / 256), UInt8.ofNat (word.toNat % 256)]

/-- A word made of two bytes has these bytes. -/
theorem bytesOfWord_pair (high low : UInt8) :
    bytesOfWord (high.toUInt16 * 256 + low.toUInt16) = [high, low] := by
  have hlow := low.toNat_lt
  rw [bytesOfWord, toNat_word, Nat.mul_add_div (by decide), Nat.div_eq_of_lt hlow, Nat.add_zero,
    Nat.mul_add_mod, Nat.mod_eq_of_lt hlow, UInt8.ofNat_toNat, UInt8.ofNat_toNat]

/-- A byte is read if its address lies before the end of memory. -/
theorem readByte_eq_ok (m : Memory) (h : address + 1 ≤ memorySize) :
    m.readByte address = .ok (m.get (slot address)) := by
  rw [readByte, checkRange_eq_ok_iff.mpr h]
  rfl

/-- A byte is refused exactly if its address lies past the end of memory. -/
theorem readByte_eq_error_iff {fault : Fault} :
    m.readByte address = .error fault ↔
      memorySize < address + 1 ∧ fault = .outOfBounds (max address memorySize) .outside := by
  rw [readByte, bind_pure_eq_error_iff, checkRange_eq_error_iff]

/-- A word that ends inside memory is made of the bytes at its two places. -/
theorem readWord_eq_ok (m : Memory) (h : address + 2 ≤ memorySize) :
    m.readWord address =
      .ok ((m.get (slot address)).toUInt16 * 256 + (m.get (slot (address + 1))).toUInt16) := by
  rw [readWord, checkRange_eq_ok_iff.mpr h]
  rfl

/-- A run that ends inside memory is answered, wherever it starts. -/
theorem readBytes_eq_ok (m : Memory) (h : address + count ≤ memorySize) :
    ∃ values, m.readBytes address count = .ok values := by
  rw [readBytes, checkRange_eq_ok_iff.mpr h]
  exact ⟨_, rfl⟩

/-- A run that starts below zero is read from as far before the end of memory on. It comes out whole
if it stops short of zero, and otherwise too short by as many bytes as memory has: empty unless it
was longer than that. -/
theorem readBytes_of_neg (m : Memory) (hlow : -(memorySize : Int) ≤ address) (hneg : address < 0)
    (hend : address + count ≤ memorySize) :
    m.readBytes address count =
      .ok (m.run (address + memorySize).toNat
        (if address + count < 0 then count else count - memorySize)) := by
  have hstart : boundary address = (address + memorySize).toNat := by
    rw [boundary, if_pos hneg]
  have hstop : boundary (address + count) ≤ memorySize ∧
      boundary (address + count) - boundary address =
        if address + count < 0 then count else count - memorySize := by
    rw [hstart, boundary]
    split
    · constructor
      · omega
      · omega
    · constructor
      · exact Nat.min_le_right _ _
      · omega
  rw [readBytes, checkRange_eq_ok_iff.mpr hend, ← hstop.2, ← hstart, ← toList_extract m hstop.1]
  rfl

/-- A negative address is counted back from the end of memory. -/
theorem slot_of_neg (hlow : -(memorySize : Int) ≤ address) (hneg : address < 0) :
    (slot address : Int) = address + memorySize := by
  simp only [slot, memorySize] at hlow ⊢
  omega

/-- What the reads answer from an address below zero: places counted back from the end of memory,
the second byte of a word at the start of memory if the first is the last byte there is, and a run
of bytes that breaks off where memory ends. -/
structure CountsBack (m : Memory) (address : Int) (count : Nat) : Prop where
  byte : m.readByte address = .ok (m.get (slot address))
  place : (slot address : Int) = address + memorySize
  word : m.readWord address =
    .ok ((m.get (slot address)).toUInt16 * 256 + (m.get (slot (address + 1))).toUInt16)
  second : (slot (address + 1) : Int) = if address = -1 then 0 else address + 1 + memorySize
  run : address + count ≤ memorySize →
    m.readBytes address count = .ok (m.run (address + memorySize).toNat
      (if address + count < 0 then count else count - memorySize))

/-- Reads from below zero are counted back from the end of memory. -/
theorem countsBack_of_neg (m : Memory) (count : Nat) (hlow : -(memorySize : Int) ≤ address)
    (hneg : address < 0) : m.CountsBack address count := by
  have hfar : address + 2 ≤ memorySize := by
    simp only [memorySize]
    omega
  constructor
  · exact readByte_eq_ok m (by omega)
  · exact slot_of_neg hlow hneg
  · exact readWord_eq_ok m hfar
  · split
    · next hlast =>
      subst hlast
      rfl
    · exact slot_of_neg (by omega) (by omega)
  · exact readBytes_of_neg m hlow hneg

/-- A run of bytes is read as it should be unless it starts below zero and does not go past the
end. -/
theorem keepsBounds_readBytes_iff (m : Memory) (hcount : 1 ≤ count) :
    m.KeepsBounds address count (m.readBytes address count) ↔
      0 ≤ address ∨ memorySize < address + count := by
  refine keepsBounds_iff hcount ?_ (readBytes_eq_ok m) ?_
  · exact fun hpast => ⟨_, _, readBytes_eq_error_iff.mpr ⟨hpast, rfl⟩⟩
  · intro hnonneg hend
    obtain ⟨start, rfl⟩ := Int.eq_ofNat_of_zero_le hnonneg
    have hle : start + count ≤ memorySize := by omega
    exact ⟨_, readBytes_eq_ok_iff.mpr ⟨hle, rfl⟩, length_run .., shows_run m hle⟩

/-- A byte is read as it should be unless its address is below zero. -/
theorem keepsBounds_readByte_iff (m : Memory) :
    m.KeepsBounds address 1 ((m.readByte address).map fun value => [value]) ↔ 0 ≤ address := by
  have hiff : m.KeepsBounds address 1 ((m.readByte address).map fun value => [value]) ↔
      0 ≤ address ∨ memorySize < address + 1 := by
    refine keepsBounds_iff (Nat.le_refl 1) ?_ ?_ ?_
    · intro hpast
      rw [readByte_eq_error_iff.mpr ⟨hpast, rfl⟩]
      exact ⟨_, _, rfl⟩
    · intro hend
      rw [readByte_eq_ok m hend]
      exact ⟨_, rfl⟩
    · intro hnonneg hend
      rw [readByte_eq_ok m hend]
      obtain ⟨start, rfl⟩ := Int.eq_ofNat_of_zero_le hnonneg
      have hshows : m.Shows start (m.run start 1) := shows_run m (by omega)
      exact ⟨_, rfl, rfl, hshows⟩
  rw [hiff]
  omega

/-- A word is read as it should be unless its address is below zero. -/
theorem keepsBounds_readWord_iff (m : Memory) :
    m.KeepsBounds address 2 ((m.readWord address).map bytesOfWord) ↔ 0 ≤ address := by
  have hiff : m.KeepsBounds address 2 ((m.readWord address).map bytesOfWord) ↔
      0 ≤ address ∨ memorySize < address + 2 := by
    refine keepsBounds_iff (by decide) ?_ ?_ ?_
    · intro hpast
      rw [readWord_eq_error_iff.mpr ⟨hpast, rfl⟩]
      exact ⟨_, _, rfl⟩
    · intro hend
      rw [readWord_eq_ok m hend]
      exact ⟨_, rfl⟩
    · intro hnonneg hend
      rw [readWord_eq_ok m hend]
      obtain ⟨start, rfl⟩ := Int.eq_ofNat_of_zero_le hnonneg
      have hshows : m.Shows start (m.run start 2) := shows_run m (by omega)
      exact ⟨_, congrArg Except.ok (bytesOfWord_pair _ _), rfl, hshows⟩
  rw [hiff]
  simp only [memorySize]
  omega

/-- Which reads from an address down to minus the size of memory keep the bounds: those of a byte
and a word from zero up, and those of a run of bytes from zero up or past the end. All others are
answered with bytes counted back from the end of memory, where they should have been refused. -/
theorem reads_keep_bounds_iff (m : Memory) (address : Int) (count : Nat)
    (hlow : -(memorySize : Int) ≤ address) (hcount : 1 ≤ count) :
    (m.KeepsBounds address 1 ((m.readByte address).map fun value => [value]) ↔ 0 ≤ address) ∧
    (m.KeepsBounds address 2 ((m.readWord address).map bytesOfWord) ↔ 0 ≤ address) ∧
    (m.KeepsBounds address count (m.readBytes address count) ↔
      0 ≤ address ∨ memorySize < address + count) ∧
    (address < 0 → m.CountsBack address count) := by
  refine ⟨keepsBounds_readByte_iff m, keepsBounds_readWord_iff m,
    keepsBounds_readBytes_iff m hcount, ?_⟩
  exact countsBack_of_neg m count hlow

/-- The byte before address zero is the last one of memory. -/
theorem reads_escape_below_zero :
    (zero.put 4095 0xAB).readByte (-1) = .ok 0xAB ∧
    ¬ (zero.put 4095 0xAB).KeepsBounds (-1) 1
      (((zero.put 4095 0xAB).readByte (-1)).map fun value => [value]) := by
  obtain ⟨hbyte, -, -, hback⟩ :=
    reads_keep_bounds_iff (zero.put 4095 0xAB) (-1) 1 (by decide) (Nat.le_refl 1)
  constructor
  · rw [(hback (by decide)).byte, get_put]
    rfl
  · rw [hbyte]
    decide

end Chip8.Memory
