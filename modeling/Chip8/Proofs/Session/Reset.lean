import Chip8.Proofs.Session.History
import Chip8.Proofs.Session.Load
import Chip8.Proofs.Session.Storage

/-!
# Starting over

A session remembers the program that was accepted last, and nothing but an accepted load replaces
it. So a reset is always carried out, and it leaves the session as if it had just been created with
that program, its journal apart. A load is refused exactly if its program does not fit, and what it
leaves is what it found.
-/

namespace Chip8

/-- The program that a request has made the accepted one, if its answer says that it was a load that
was carried out. -/
def Request.accepted? (request : Request) (answer : Except Failure Answer) : Option (List UInt8) :=
  match request, answer with
  | .load rom, .ok _ => some rom
  | _, _ => none

/-- A request that does not start over makes no program the accepted one. -/
theorem Request.accepted?_of_not_restarts {request : Request} (hr : request.restarts = false)
    (answer : Except Failure Answer) : request.accepted? answer = none := by
  cases request with
  | load rom => cases hr
  | _ => rfl

namespace Session

variable {s : Session} {dialect : Dialect} {seed : Random.Block} {rom current : List UInt8}

/-- The program that a new session has accepted, the empty one if it was given none or has refused
the one it was given. -/
def acceptedFirst (rom : Option (List UInt8)) (answer : Except Failure Unit) : List UInt8 :=
  match rom, answer with
  | some rom, .ok () => rom
  | _, _ => []

/-- The program that was accepted last after a history, by the answers that the host got. Before the
history it was `current`. -/
def lastAccepted (s : Session) (current : List UInt8) : List Request → List UInt8
  | [] => current
  | request :: rest =>
    (s.perform request).session.lastAccepted
      ((request.accepted? (s.perform request).answer).getD current) rest

/-- A session of a dialect and a seed whose accepted program is a given one that fits. -/
structure Remembers (dialect : Dialect) (seed : Random.Block) (rom : List UInt8) (s : Session) :
    Prop where
  configured : s.dialect = dialect
  seeded : s.seed = seed
  rom_eq : s.rom = rom
  fits : rom.length ≤ romCapacity

/-- No step forgets the accepted program. -/
theorem Remembers.step (hs : s.Remembers dialect seed rom) :
    s.step.2.Remembers dialect seed rom := by
  rcases s.step_cases with ⟨report, -, he⟩ | ⟨-, -, he⟩ | ⟨key, journal, -, -, -, he⟩ |
    ⟨op, machine, journal, -, -, -, he⟩ | ⟨report, journal, -, -, -, he⟩
  all_goals
    rw [he]
    exact ⟨hs.configured, hs.seeded, hs.rom_eq, hs.fits⟩

theorem kept_remembers (dialect : Dialect) (seed : Random.Block) (rom : List UInt8) :
    Kept (Remembers dialect seed rom) where
  journal _ _ hs := ⟨hs.configured, hs.seeded, hs.rom_eq, hs.fits⟩
  step _ hs := hs.step
  tick _ hs := ⟨hs.configured, hs.seeded, hs.rom_eq, hs.fits⟩
  key s number isDown hs := by
    rcases s.setKey_cases number isDown with ⟨-, he⟩ | ⟨key, -, he⟩
    all_goals
      rw [he]
      exact ⟨hs.configured, hs.seeded, hs.rom_eq, hs.fits⟩

/-- A load is carried out exactly if its program fits. -/
theorem load_answer (s : Session) (program : List UInt8) :
    (s.load program).1 =
      if program.length ≤ romCapacity then .ok () else .error (.oversized program) := by
  rcases Nat.lt_or_ge romCapacity program.length with h | h
  · obtain ⟨journal, he⟩ := s.load_of_lt h
    rw [he, if_neg (Nat.not_le.mpr h)]
  · obtain ⟨journal, he⟩ := s.load_of_le h
    rw [he, if_pos h]

/-- A load makes its program the accepted one exactly if it fits. -/
theorem Remembers.load (hs : s.Remembers dialect seed current) (program : List UInt8) :
    (s.load program).2.Remembers dialect seed
      (if program.length ≤ romCapacity then program else current) := by
  rcases Nat.lt_or_ge romCapacity program.length with h | h
  · obtain ⟨journal, he⟩ := s.load_of_lt h
    rw [he, if_neg (Nat.not_le.mpr h)]
    exact ⟨hs.configured, hs.seeded, hs.rom_eq, hs.fits⟩
  · obtain ⟨journal, he⟩ := s.load_of_le h
    rw [he, if_pos h]
    exact ⟨hs.configured, hs.seeded, rfl, h⟩

/-- A reset is carried out, and makes a fresh machine with the accepted program in its place. -/
theorem Remembers.reset_eq (hs : s.Remembers dialect seed rom) :
    ∃ journal, s.reset =
      (.ok (), { s with machine := s.loadedMachine rom, failure := none, journal }) := by
  obtain ⟨-, -, rfl, hfits⟩ := hs
  obtain ⟨entries, hreset⟩ := s.reset_eq
  obtain ⟨journal, he⟩ := load_of_le { s with journal := entries } hfits
  exact ⟨journal, hreset.trans he⟩

/-- The journal that a reset finds matters to the journal alone. -/
theorem reset_journal (s : Session) (entries : Journal) :
    ∃ journal, { s with journal := entries }.reset =
      (s.reset.1, { s.reset.2 with journal }) := by
  obtain ⟨noted, hreset⟩ := s.reset_eq
  obtain ⟨noted', hreset'⟩ := reset_eq { s with journal := entries }
  obtain ⟨journal, he⟩ := s.load_journal noted s.rom
  obtain ⟨journal', he'⟩ := s.load_journal noted' s.rom
  refine ⟨journal', ?_⟩
  rw [hreset, he]
  exact hreset'.trans he'

/-- What a session remembers after a request is what the answer to the request says. -/
theorem Remembers.perform (hs : s.Remembers dialect seed current) (request : Request) :
    (s.perform request).session.Remembers dialect seed
      ((request.accepted? (s.perform request).answer).getD current) := by
  cases hr : request.restarts with
  | false =>
    rw [Request.accepted?_of_not_restarts hr]
    exact (kept_remembers dialect seed current).perform hs hr
  | true =>
    cases request with
    | load program =>
      have hload := hs.load program
      simp only [Session.perform, respond, s.load_answer program]
      by_cases hfits : program.length ≤ romCapacity
      · rw [if_pos hfits] at hload ⊢
        exact hload
      · rw [if_neg hfits] at hload ⊢
        exact hload
    | reset =>
      obtain ⟨journal, he⟩ := hs.reset_eq
      change s.reset.2.Remembers dialect seed current
      rw [he]
      exact ⟨hs.configured, hs.seeded, hs.rom_eq, hs.fits⟩
    | _ => cases hr

/-- What a session remembers after a history is what the answers along it say. -/
theorem Remembers.after (hs : s.Remembers dialect seed current) (history : List Request) :
    (s.after history).Remembers dialect seed (s.lastAccepted current history) := by
  induction history generalizing s current with
  | nil => exact hs
  | cons request rest ih => exact ih (hs.perform request)

/-- A new session remembers the program that it has accepted. -/
theorem remembers_create (rom : Option (List UInt8)) (dialect : Dialect) (seed : Random.Block)
    (journal : Journal) :
    (create rom dialect seed journal).2.Remembers dialect seed
      (acceptedFirst rom (create rom dialect seed journal).1) := by
  have hvacant : (vacant dialect seed journal).Remembers dialect seed [] :=
    ⟨rfl, rfl, rfl, Nat.zero_le _⟩
  cases rom with
  | none => exact hvacant
  | some rom =>
    have hload := hvacant.load rom
    simp only [create, load_answer]
    by_cases hfits : rom.length ≤ romCapacity
    · rw [if_pos hfits] at hload ⊢
      exact hload
    · rw [if_neg hfits] at hload ⊢
      exact hload

/-- What a host can rely on in a session that has started over with a program. -/
structure StartedOver (dialect : Dialect) (seed : Random.Block) (rom : List UInt8) (s : Session) :
    Prop where
  /-- It is a new session with the program, the journal apart. -/
  eq_create : ∀ journal, (create (some rom) dialect seed journal).1 = .ok () ∧
    s = { (create (some rom) dialect seed journal).2 with journal := s.journal }
  /-- It can step. -/
  status : s.status = .ready
  /-- It has not failed. -/
  failure : s.failure = none
  /-- All of its machine but memory is as at the start. -/
  machine : s.machine = { Machine.initial seed dialect with memory := s.machine.memory }
  /-- Memory holds the program behind the font, and zeros elsewhere. -/
  memory : ∀ k : Fin memorySize, s.machine.memory.get k =
    if 0x200 ≤ k.val then rom[k.val - 0x200]?.getD 0
    else if 0x050 ≤ k.val ∧ k.val < 0x0A0 then Font.rows[k.val - 0x050]?.getD 0 else 0

/-- A reset starts over with the program that a session remembers. -/
theorem Remembers.startedOver (hs : s.Remembers dialect seed rom) :
    s.reset.1 = .ok () ∧ s.reset.2.StartedOver dialect seed rom := by
  obtain ⟨journal, he⟩ := hs.reset_eq
  obtain ⟨rfl, rfl, hrom, hfits⟩ := hs
  rw [he]
  refine ⟨rfl, fun entries => ?_, rfl, rfl, rfl, fun k => ?_⟩
  · obtain ⟨noted, hcreate⟩ := (vacant s.dialect s.seed entries).load_of_le hfits
    rw [create, hcreate, ← hrom]
    exact ⟨rfl, rfl⟩
  · change (Machine.blankMemory.patch programStart rom).get k = _
    rw [Memory.get_patch, Machine.get_blankMemory]
    by_cases hk : 0x200 ≤ k.val
    · have hfont : ¬ (0x050 ≤ k.val ∧ k.val < 0x0A0) := by omega
      rw [if_pos hk, if_neg hfont, if_pos hk]
    · rw [if_neg hk, if_neg hk]

/-- Whatever a host has asked of a session, a reset is carried out and starts over with the program
that was accepted last. A load is refused exactly if its program has more than 3584 bytes. A refused
load leaves the session as it is, its journal apart, and so does not change what a reset starts over
with. -/
theorem reset_after_create (rom : Option (List UInt8)) (dialect : Dialect) (seed : Random.Block)
    (journal : Journal) (history : List Request) :
    (((create rom dialect seed journal).2.after history).reset.1 = .ok () ∧
      ((create rom dialect seed journal).2.after history).reset.2.StartedOver dialect seed
        ((create rom dialect seed journal).2.lastAccepted
          (acceptedFirst rom (create rom dialect seed journal).1) history)) ∧
      ∀ (s : Session) (program : List UInt8),
        (s.load program).1 = (if program.length ≤ 3584 then .ok ()
          else .error (.romTooLarge program.length 3584)) ∧
        (3584 < program.length → ∃ entries, (s.load program).2 = { s with journal := entries } ∧
          ∃ entries', (s.load program).2.reset =
            (s.reset.1, { s.reset.2 with journal := entries' })) := by
  constructor
  · have hremembers := (remembers_create rom dialect seed journal).after history
    exact hremembers.startedOver
  · intro s program
    refine ⟨s.load_answer program, ?_⟩
    intro hlong
    obtain ⟨entries, he⟩ := s.load_of_lt hlong
    rw [he]
    exact ⟨entries, rfl, s.reset_journal entries⟩

/-- A program that is one byte too long does not replace the one before it. -/
theorem reset_after_refused_load :
    ∃ s, s = (create (some [0x60, 0x05]) .cosmac ⟨0, 0⟩ (.start "chip8" .warning)).2.after
        [.step, .load (List.replicate 3585 0)] ∧
      (s.load (List.replicate 3585 0)).1 = .error (.romTooLarge 3585 3584) ∧
      s.reset.1 = .ok () ∧ s.reset.2.StartedOver .cosmac ⟨0, 0⟩ [0x60, 0x05] := by
  obtain ⟨⟨hreset, hstarted⟩, hload⟩ := reset_after_create (some [0x60, 0x05]) .cosmac ⟨0, 0⟩
    (.start "chip8" .warning) [.step, .load (List.replicate 3585 0)]
  have hrefused (t : Session) := (hload t (List.replicate 3585 0)).1
  simp only [List.length_replicate, show ¬ 3585 ≤ 3584 by decide, ite_false] at hrefused
  have hkept (t : Session) (current : List UInt8) :
      t.lastAccepted current [.step, .load (List.replicate 3585 0)] = current := by
    simp only [lastAccepted, perform, respond, hrefused]
    rfl
  have hfirst : (create (some [0x60, 0x05]) .cosmac ⟨0, 0⟩ (.start "chip8" .warning)).1 = .ok () :=
    (hload _ [0x60, 0x05]).1
  rw [hkept, hfirst] at hstarted
  exact ⟨_, rfl, hrefused _, hreset, hstarted⟩

end Session

end Chip8
