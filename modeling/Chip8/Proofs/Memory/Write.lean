import Chip8.Proofs.Memory

/-!
# Writes to memory

When a run of bytes may be written, what a memory holds afterwards, and how writes compose: a write
of two runs is the write of the first and then of the second, and a run can be written byte by byte.
The checks of these writes agree at both ends of the part of memory that programs own.
-/

namespace Chip8.Memory

variable {m k : Memory} {address : Int} {values first second : List UInt8} {value : UInt8}
variable {fault : Fault}

/-- Write bytes one after the other. -/
def writeEach (m : Memory) (address : Int) : List UInt8 → Except Fault Memory
  | [] => .ok m
  | value :: rest => do (← m.writeByte address value).writeEach (address + 1) rest

/-- A run may be written if it ends inside memory and is empty or starts in the part that programs
own. -/
theorem exists_writeBytes_iff :
    (∃ k, m.writeBytes address values = .ok k) ↔
      address + values.length ≤ memorySize ∧ (values = [] ∨ (programStart : Int) ≤ address) := by
  simp only [writeBytes_eq_ok_iff, exists_and_left, exists_eq, and_true, ne_eq,
    Decidable.or_iff_not_imp_left]

/-- A run that goes past the end of memory is refused with the first address that does, and a run
that is not empty and starts too low otherwise with its own address. -/
theorem writeBytes_refused_iff :
    m.writeBytes address values = .error fault ↔
      (memorySize < address + values.length ∧
        fault = .outOfBounds (max address memorySize) .outside) ∨
      (address + values.length ≤ memorySize ∧ values ≠ [] ∧ address < programStart ∧
        fault = .outOfBounds address .reserved) := by
  rw [writeBytes_eq_error_iff, checkWritable_eq_error_iff]
  simp only [ne_eq, Int.natCast_eq_zero, List.length_eq_zero_iff]

/-- A patch shows its bytes. -/
theorem shows_patch {a : Nat} (h : a + values.length ≤ memorySize) :
    (m.patch a values).Shows a values := by
  have hshows := (m.patch a values).shows_run h
  rw [run_patch m h] at hshows
  exact hshows

/-- What a host can rely on after it has written bytes. -/
structure Written (before : Memory) (address : Int) (values : List UInt8) (after : Memory) :
    Prop where
  /-- The bytes stand at their addresses. -/
  shows : after.Shows address values
  /-- Every other byte is as it was. -/
  others : ∀ p : Fin memorySize, (∀ i < values.length, (p : Int) ≠ address + i) →
    after.get p = before.get p
  /-- The bytes can be read back. -/
  read : values ≠ [] → after.readBytes address values.length = .ok values
  /-- Every word is made of the two bytes at its address. -/
  word : ∀ a (h : a + 1 < memorySize), ∃ word, after.readWord a = .ok word ∧
    word.toNat = after.wordAt a h

/-- A word inside memory can be read. -/
theorem exists_readWord (m : Memory) {a : Nat} (h : a + 1 < memorySize) :
    ∃ word, m.readWord a = .ok word ∧ word.toNat = m.wordAt a h := by
  have hword := readWord_natCast m (a := a) (by omega)
  obtain ⟨_, hvalue⟩ := toNat_readWord hword
  exact ⟨_, hword, hvalue⟩

/-- A write that succeeds has written its bytes and nothing else. -/
theorem written_of_writeBytes (h : m.writeBytes address values = .ok k) :
    m.Written address values k := by
  obtain ⟨⟨hend, hstart⟩, rfl⟩ := writeBytes_eq_ok_iff.mp h
  cases values with
  | nil => exact ⟨nofun, fun _ _ => rfl, fun hne => absurd rfl hne, fun _ h => exists_readWord _ h⟩
  | cons value rest =>
    have hlow := hstart (List.cons_ne_nil value rest)
    obtain ⟨a, rfl⟩ := Int.eq_ofNat_of_zero_le (a := address) (by omega)
    have hinside : a + (value :: rest).length ≤ memorySize := by omega
    refine ⟨shows_patch hinside, fun p hp => ?_, fun _ => ?_, fun _ h => exists_readWord _ h⟩
    · by_cases hin : a ≤ p.val ∧ p.val < a + (value :: rest).length
      · exact absurd (by omega) (hp (p.val - a) (by omega))
      · exact get_patch_of_outside m (by omega)
    · exact readBytes_eq_ok_iff.mpr ⟨hinside, (run_patch m hinside).symm⟩

/-- An empty run is written if it starts inside memory or at its end, and changes nothing. -/
theorem writeBytes_nil_eq_ok_iff :
    m.writeBytes address [] = .ok k ↔ address ≤ memorySize ∧ k = m := by
  rw [writeBytes_eq_ok_iff]
  simp only [List.length_nil, Int.natCast_zero, Int.add_zero, ne_eq, not_true_eq_false,
    false_implies, and_true, patch_nil]

/-- The place behind a run that starts inside memory. -/
theorem toNat_add_length (hlow : (programStart : Int) ≤ address) (values : List UInt8) :
    (address + values.length).toNat = address.toNat + values.length := by
  omega

/-- A write of two runs is the write of the first and then that of the second behind it. -/
theorem writeBytes_append :
    m.writeBytes address (first ++ second) = .ok k ↔
      ∃ between, m.writeBytes address first = .ok between ∧
        between.writeBytes (address + first.length) second = .ok k := by
  by_cases hne : first = []
  · -- An empty run writes nothing, and its check is weaker than that of the run behind it.
    subst hne
    have hstart : m.writeBytes address second = .ok k → address ≤ memorySize := fun h => by
      have hend := (writeBytes_eq_ok_iff.mp h).1.1
      omega
    simp only [writeBytes_nil_eq_ok_iff, and_assoc, exists_and_left, exists_eq_left,
      List.nil_append, List.length_nil, Int.natCast_zero, Int.add_zero, iff_and_self]
    exact hstart
  · constructor
    · intro h
      obtain ⟨⟨hend, hstart⟩, rfl⟩ := writeBytes_eq_ok_iff.mp h
      have hlow := hstart (List.append_ne_nil_of_left_ne_nil hne second)
      rw [List.length_append] at hend
      refine ⟨m.patch address.toNat first, ?_, ?_⟩
      · exact writeBytes_eq_ok_iff.mpr ⟨⟨by omega, fun _ => hlow⟩, rfl⟩
      · rw [writeBytes_eq_ok_iff, patch_append, toNat_add_length hlow]
        exact ⟨⟨by omega, fun _ => by omega⟩, rfl⟩
    · rintro ⟨between, hfirst, hsecond⟩
      obtain ⟨⟨-, hstart⟩, rfl⟩ := writeBytes_eq_ok_iff.mp hfirst
      obtain ⟨⟨hend, -⟩, rfl⟩ := writeBytes_eq_ok_iff.mp hsecond
      have hlow := hstart hne
      refine writeBytes_eq_ok_iff.mpr ⟨⟨?_, fun _ => hlow⟩, ?_⟩
      · rw [List.length_append]
        omega
      · rw [patch_append, toNat_add_length hlow]

/-- A single byte is written as a run of one. -/
theorem writeByte_eq_writeBytes (m : Memory) (address : Int) (value : UInt8) :
    m.writeByte address value = m.writeBytes address [value] := rfl

/-- A run is written like its bytes one after the other; only an empty one still has to start inside
memory. -/
theorem writeBytes_eq_ok_iff_writeEach :
    m.writeBytes address values = .ok k ↔
      address ≤ memorySize ∧ m.writeEach address values = .ok k := by
  induction values generalizing m address with
  | nil =>
    rw [writeBytes_nil_eq_ok_iff, writeEach, Except.ok.injEq, eq_comm (a := k)]
  | cons value rest ih =>
    rw [writeEach, ← List.singleton_append, writeBytes_append, bind_eq_ok_iff]
    constructor
    · rintro ⟨between, hfirst, hrest⟩
      have hend := (writeBytes_eq_ok_iff.mp hfirst).1.1
      rw [List.length_singleton] at hend hrest
      exact ⟨by omega, between, hfirst, (ih.mp hrest).2⟩
    · rintro ⟨-, between, hfirst, hrest⟩
      rw [writeByte_eq_writeBytes] at hfirst
      have hend := (writeBytes_eq_ok_iff.mp hfirst).1.1
      rw [List.length_singleton] at hend
      exact ⟨between, hfirst, ih.mpr ⟨hend, hrest⟩⟩

/-- A run may be written exactly if it ends inside memory and is empty or starts in the part that
programs own, and is refused with the first address that is wrong otherwise. A write that succeeds
changes the bytes of its run to the given ones and no others. Runs can be written in parts, one
behind the other, and byte by byte. -/
theorem writeBytes_laws (m : Memory) (address : Int) (values : List UInt8) :
    ((∃ k, m.writeBytes address values = .ok k) ↔
      address + values.length ≤ memorySize ∧ (values = [] ∨ (programStart : Int) ≤ address)) ∧
    (∀ fault, m.writeBytes address values = .error fault ↔
      (memorySize < address + values.length ∧
        fault = .outOfBounds (max address memorySize) .outside) ∨
      (address + values.length ≤ memorySize ∧ values ≠ [] ∧ address < programStart ∧
        fault = .outOfBounds address .reserved)) ∧
    (∀ k, m.writeBytes address values = .ok k → m.Written address values k) ∧
    (∀ more k, m.writeBytes address (values ++ more) = .ok k ↔
      ∃ between, m.writeBytes address values = .ok between ∧
        between.writeBytes (address + values.length) more = .ok k) ∧
    ∀ k, m.writeBytes address values = .ok k ↔
      address ≤ memorySize ∧ m.writeEach address values = .ok k := by
  refine ⟨exists_writeBytes_iff, ?_, ?_, ?_, ?_⟩
  · intro fault
    exact writeBytes_refused_iff
  · intro k h
    exact written_of_writeBytes h
  · intro more k
    exact writeBytes_append
  · intro k
    exact writeBytes_eq_ok_iff_writeEach

end Chip8.Memory
