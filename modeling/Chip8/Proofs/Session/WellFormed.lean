import Chip8.Proofs.Machine.Sound
import Chip8.Proofs.Session.History

/-!
# Every session is well formed

Whatever a host asks of a session, its machine stays sound, it does not wait once it has failed,
and it keeps the dialect it was created with. These three facts are inductive together; the
bounds that a host can rely on follow from them.
-/

namespace Chip8

/-- The number of the key that a wait has latched, and minus one if there is none. -/
def KeyWait.pending (w : KeyWait) : Int :=
  match w.latched with
  | none => -1
  | some key => key.val

namespace Session

variable {s : Session} {dialect : Dialect}

/-- The inductive invariant of the sessions of one dialect. -/
structure Coherent (dialect : Dialect) (s : Session) : Prop where
  sound : s.machine.Sound
  idle_of_failure : s.failure ≠ none → s.machine.wait.active = false
  configured : s.dialect = dialect
  machine_dialect : s.machine.dialect = dialect

/-- A step keeps a session coherent, whichever of its cases applies. -/
theorem Coherent.step (hs : Coherent dialect s) : Coherent dialect s.step.2 := by
  rcases s.step_cases with ⟨report, -, he⟩ | ⟨-, -, he⟩ | ⟨key, journal, hf, ha, hk, he⟩ |
    ⟨op, machine, journal, hf, ha, hc, he⟩ | ⟨report, journal, -, ha, -, he⟩
  · rw [he]
    exact hs
  · rw [he]
    exact hs
  · rw [he]
    refine ⟨hs.sound.resume ha hk, fun h => absurd hf h, hs.configured, ?_⟩
    simp only [Machine.resume_of_latched ha hk]
    exact hs.machine_dialect
  · rw [he]
    obtain ⟨word, hframe⟩ := Machine.frame_of_cycle hc
    exact ⟨hs.sound.cycle ha hc, fun h => absurd hf h, hs.configured,
      hframe.dialect.trans hs.machine_dialect⟩
  · rw [he]
    exact ⟨hs.sound, fun _ => ha, hs.configured, hs.machine_dialect⟩

/-- A load keeps a session coherent: an accepted program runs in a fresh machine. -/
theorem Coherent.load (hs : Coherent dialect s) (rom : List UInt8) :
    Coherent dialect (s.load rom).2 := by
  rcases s.load_cases rom with ⟨-, journal, he⟩ | ⟨machine, journal, hm, he⟩
  · rw [he]
    exact ⟨hs.sound, hs.idle_of_failure, hs.configured, hs.machine_dialect⟩
  · rw [he]
    have hsound := (Machine.sound_initial s.seed s.dialect).loadProgram? rfl hm
    refine ⟨hsound, fun h => absurd rfl h, hs.configured, ?_⟩
    rw [Machine.loadProgram?_eq_some hm]
    exact hs.configured

theorem kept_coherent (dialect : Dialect) : Kept (Coherent dialect) where
  journal _ _ hs := ⟨hs.sound, hs.idle_of_failure, hs.configured, hs.machine_dialect⟩
  step _ hs := hs.step
  tick _ hs := ⟨hs.sound.tick, hs.idle_of_failure, hs.configured, hs.machine_dialect⟩
  key s number isDown hs := by
    rcases s.setKey_cases number isDown with ⟨-, he⟩ | ⟨key, -, he⟩
    · rw [he]
      exact hs
    · rw [he]
      refine ⟨hs.sound.setKey key isDown, fun hf => ?_, hs.configured, hs.machine_dialect⟩
      simp only [Machine.active_setKey]
      exact hs.idle_of_failure hf

/-- Every session that a host can arrive at is coherent. -/
theorem coherent_after_create (rom : Option (List UInt8)) (dialect : Dialect)
    (seed : Random.Block) (journal : Journal) (history : List Request) :
    Coherent dialect ((create rom dialect seed journal).2.after history) := by
  have hvacant : Coherent dialect (vacant dialect seed journal) :=
    ⟨Machine.sound_initial seed dialect, fun h => absurd rfl h, rfl, rfl⟩
  refine (kept_coherent dialect).after (fun _ rom hs => hs.load rom) ?_ history
  cases rom with
  | none => exact hvacant
  | some rom => exact hvacant.load rom

/-- A session that a host can arrive at. -/
def Reachable (s : Session) : Prop :=
  ∃ rom dialect seed journal history, s = (create rom dialect seed journal).2.after history

/-- A host that goes on with a session it arrived at arrives at further ones. -/
theorem Reachable.after (hs : s.Reachable) (history : List Request) :
    (s.after history).Reachable := by
  obtain ⟨rom, dialect, seed, journal, earlier, rfl⟩ := hs
  refine ⟨rom, dialect, seed, journal, earlier ++ history, ?_⟩
  simp only [Session.after, List.foldl_append]

theorem Reachable.sound (hs : s.Reachable) : s.machine.Sound := by
  obtain ⟨rom, dialect, seed, journal, history, rfl⟩ := hs
  exact (coherent_after_create rom dialect seed journal history).sound

/-- What a host can rely on in a session of a dialect. -/
structure WellFormed (dialect : Dialect) (s : Session) : Prop where
  /-- At most sixteen subroutines are active. -/
  depth_le : s.machine.stack.depth ≤ 16
  /-- Every slot of the stack holds an address, in use or not. -/
  slot_le : ∀ k, (s.machine.stack.slot k).toNat ≤ 0xFFF
  /-- Slots out of use are clear. -/
  slot_eq_zero : ∀ k : Fin stackFrames, s.machine.stack.depth ≤ k → s.machine.stack.slot k = 0
  /-- The index is an address. -/
  index_le : s.machine.index.toNat ≤ 0xFFF
  /-- The program counter is at most a skip past the end of memory. -/
  pc_le : s.machine.pc.toNat ≤ 0x1002
  /-- A wait is on behalf of one of the sixteen registers. -/
  register_le : s.machine.wait.register.val ≤ 15
  /-- A latched key is one of the sixteen keys. -/
  pending_bounds : -1 ≤ s.machine.wait.pending ∧ s.machine.wait.pending ≤ 15
  /-- Only a wait latches a key. -/
  active_of_pending : 0 ≤ s.machine.wait.pending → s.machine.wait.active = true
  /-- A machine that waits stands on the instruction that waits. -/
  parked : s.machine.wait.active = true →
    s.machine.pc.toNat ≤ 0xFFE ∧ ∃ word : UInt16,
      s.machine.memory.readWord s.machine.pc.toNat = .ok word ∧
        word.toNat = 0xF00A + 256 * s.machine.wait.register.val
  /-- A session that has failed does not wait. -/
  idle_of_failure : s.failure ≠ none → s.machine.wait.active = false
  /-- The machine runs the dialect that was asked for. -/
  machine_dialect : s.machine.dialect = dialect

/-- The inductive invariant implies everything that a host can rely on. -/
theorem Coherent.wellFormed (hs : Coherent dialect s) : s.WellFormed dialect where
  depth_le := s.machine.stack.depth_le
  slot_le := hs.sound.stack.slot_le
  slot_eq_zero := hs.sound.stack.clear
  index_le := hs.sound.index_le
  pc_le := hs.sound.pc_le
  register_le := Nat.le_of_lt_succ s.machine.wait.register.isLt
  pending_bounds := by
    unfold KeyWait.pending
    split
    · decide
    · next key _ =>
      have hlt := key.isLt
      simp only [keyCount] at hlt
      omega
  active_of_pending h := by
    refine hs.sound.active_of_latched fun hnone => ?_
    simp only [KeyWait.pending, hnone] at h
    omega
  parked ha := by
    obtain ⟨word, hw, he⟩ := hs.sound.parked ha
    obtain ⟨-, hle⟩ := Machine.toNat_pc_add_two hw
    refine ⟨?_, word, hw, he⟩
    simp only [memorySize] at hle
    omega
  idle_of_failure := hs.idle_of_failure
  machine_dialect := hs.machine_dialect

/-- A session is well formed from its creation on, after every request and whether or not the
requests before it were carried out. -/
theorem wellFormed_after_create (rom : Option (List UInt8)) (dialect : Dialect)
    (seed : Random.Block) (journal : Journal) (history : List Request) :
    ((create rom dialect seed journal).2.after history).WellFormed dialect :=
  (coherent_after_create rom dialect seed journal history).wellFormed

end Session

end Chip8
