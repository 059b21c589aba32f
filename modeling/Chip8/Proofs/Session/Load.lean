import Chip8.Proofs.Session.Step

/-!
# What a load does

A program is accepted exactly if it fits. An accepted program replaces the machine by a fresh one
that holds it and clears the failure; a refused one leaves everything but the journal alone.
-/

namespace Chip8

/-- A program is copied into memory exactly if it fits, and changes nothing but memory. -/
theorem Machine.loadProgram?_of_le (m : Machine) {rom : List UInt8}
    (h : rom.length ≤ romCapacity) :
    m.loadProgram? rom = some { m with memory := m.memory.patch programStart rom } := by
  simp only [loadProgram?, Memory.loadProgram?, if_pos h, Option.map_some]

/-- A program that does not fit is not copied. -/
theorem Machine.loadProgram?_of_lt (m : Machine) {rom : List UInt8}
    (h : romCapacity < rom.length) : m.loadProgram? rom = none := by
  simp only [loadProgram?, Memory.loadProgram?, if_neg (Nat.not_le.mpr h), Option.map_none]

namespace Session

variable {rom : List UInt8}

/-- The fresh machine of a session with a program in its place. -/
def loadedMachine (s : Session) (rom : List UInt8) : Machine :=
  { s.freshMachine with memory := Machine.blankMemory.patch programStart rom }

/-- A program that fits is accepted. -/
theorem load_of_le (s : Session) (h : rom.length ≤ romCapacity) :
    ∃ journal, s.load rom =
      (.ok (), { s with machine := s.loadedMachine rom, failure := none, rom, journal }) := by
  have hmachine : s.freshMachine.loadProgram? rom = some (s.loadedMachine rom) :=
    s.freshMachine.loadProgram?_of_le h
  unfold load
  rw [hmachine]
  exact ⟨_, rfl⟩

/-- A program that does not fit is refused and changes only the journal. -/
theorem load_of_lt (s : Session) (h : romCapacity < rom.length) :
    ∃ journal, s.load rom = (.error (.oversized rom), { s with journal }) := by
  unfold load
  rw [s.freshMachine.loadProgram?_of_lt h]
  exact ⟨_, rfl⟩

/-- A load that is refused changes only the journal. -/
theorem load_of_refused {failure : Failure} (s : Session) (h : (s.load rom).1 = .error failure) :
    ∃ journal, s.load rom = (.error (.oversized rom), { s with journal }) := by
  rcases Nat.lt_or_ge romCapacity rom.length with hlong | hfits
  · exact s.load_of_lt hlong
  · obtain ⟨journal, he⟩ := s.load_of_le hfits
    rw [he] at h
    cases h

/-- The journal that a load finds matters to the journal alone. -/
theorem load_journal (s : Session) (entries : Journal) (rom : List UInt8) :
    ∃ journal, { s with journal := entries }.load rom =
      ((s.load rom).1, { (s.load rom).2 with journal }) := by
  rcases Nat.lt_or_ge romCapacity rom.length with h | h
  · obtain ⟨journal, he⟩ := s.load_of_lt h
    obtain ⟨journal', he'⟩ := load_of_lt { s with journal := entries } h
    exact ⟨journal', by rw [he, he']⟩
  · obtain ⟨journal, he⟩ := s.load_of_le h
    obtain ⟨journal', he'⟩ := load_of_le { s with journal := entries } h
    exact ⟨journal', by rw [he, he']; rfl⟩

end Session

end Chip8
