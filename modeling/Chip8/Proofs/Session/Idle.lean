import Chip8.Proofs.Machine.Sound
import Chip8.Proofs.Machine.Stay
import Chip8.Proofs.Session.Create
import Chip8.Proofs.Session.Run

/-!
# Idle runs

A run ends early when a step leaves the program counter where it was. The session has then
arrived at a fixed point exactly if that step took a jump. A call or a return to its own address
ends a run as well, but its next steps go on changing the call stack until one of them fails.
-/

namespace Chip8.Session

variable {s t : Session} {op : Op} {machine : Machine}

/-- A session at a fixed point: every number of further steps succeeds, and together they change
nothing in the machine but the count of cycles. -/
def Parked (s : Session) : Prop :=
  ∀ n, (∃ touched, (s.stepped n).step.1 = .ok touched) ∧
    ∃ cycles, (s.stepped n).machine = { s.machine with cycles }

/-- A session whose next cycle only counts, whatever the count is, is at a fixed point. -/
theorem parked_of_cycle (hf : s.failure = none) (ha : s.machine.wait.active = false)
    (hc : ∀ count, { s.machine with cycles := count }.cycle =
      .ok (op, { s.machine with cycles := count + 1 })) : s.Parked := by
  have hstep : ∀ u : Session, u.failure = none →
      (∃ cycles, u.machine = { s.machine with cycles }) →
      ∃ journal cycles, u.step = (.ok op.touchesScreen,
        { u with machine := { s.machine with cycles }, journal }) := by
    rintro u hu ⟨cycles, hm⟩
    obtain ⟨journal, he⟩ := step_of_cycle_ok hu (by rw [hm]; exact ha) (by rw [hm]; exact hc cycles)
    exact ⟨journal, cycles + 1, he⟩
  -- The count is the only part of the machine that the invariant leaves open.
  have hrun : ∀ n, (s.stepped n).failure = none ∧
      ∃ cycles, (s.stepped n).machine = { s.machine with cycles } := by
    intro n
    induction n with
    | zero => exact ⟨hf, s.machine.cycles, rfl⟩
    | succ n ih =>
      obtain ⟨journal, cycles, he⟩ := hstep _ ih.1 ih.2
      rw [stepped_succ, he]
      exact ⟨ih.1, cycles, rfl⟩
  intro n
  obtain ⟨journal, cycles, he⟩ := hstep _ (hrun n).1 (hrun n).2
  exact ⟨⟨op.touchesScreen, by rw [he]⟩, (hrun n).2⟩

/-- A session that has just made a call or a return to its own address is not at a fixed point. -/
theorem not_parked_of_cycle (hf : s.failure = none) (ha : s.machine.wait.active = false)
    {before : Machine} (hc : before.cycle = .ok (op, s.machine)) (hop : op = .call ∨ op = .ret)
    (hpc : s.machine.pc = before.pc) : ¬ s.Parked := by
  intro hparked
  obtain ⟨touched, hok⟩ := (hparked 0).1
  obtain ⟨cycles, hm⟩ := (hparked 1).2
  change s.step.1 = .ok touched at hok
  change s.step.2.machine = _ at hm
  obtain ⟨op', next, journal, hnext, he⟩ := cycle_of_step_ok hf ha hok
  -- Memory and program counter are as before the last cycle, so it is the same operation again.
  have hmemory := (Machine.stack_ne_of_cycle hc hop).1
  obtain rfl : op' = op := Machine.op_eq_of_cycle hc hnext hmemory hpc
  refine (Machine.stack_ne_of_cycle hnext hop).2 ?_
  have hstack := congrArg Machine.stack hm
  rw [he] at hstack
  exact hstack

/-- After a cycle that stayed, a session is at a fixed point exactly if the cycle took a jump. -/
theorem parked_iff_of_cycle (hf : s.failure = none) (ha : s.machine.wait.active = false)
    {before : Machine} (hc : before.cycle = .ok (op, s.machine))
    (hop : op = .jump ∨ op = .jumpOffset ∨ op = .call ∨ op = .ret)
    (hpc : s.machine.pc = before.pc) : s.Parked ↔ op = .jump ∨ op = .jumpOffset := by
  constructor
  · intro hparked
    rcases hop with h | h | h
    · exact Or.inl h
    · exact Or.inr h
    · exact absurd hparked (not_parked_of_cycle hf ha hc h hpc)
  · intro hjump
    have hcount := Machine.cycle_of_jump_stays hc hjump hpc
    have hfirst := hcount before.cycles
    rw [hc] at hfirst
    obtain ⟨-, hm⟩ := Prod.mk.inj (Except.ok.inj hfirst)
    have hagain : ∀ count, { s.machine with cycles := count }.cycle =
        .ok (op, { s.machine with cycles := count + 1 }) := by
      rw [hm]
      exact hcount
    exact parked_of_cycle hf ha hagain

/-- A step that stays runs a cycle of a jump, a call or a return. -/
theorem cycle_of_stayed {touched : Bool} (hok : s.step = (.ok touched, t))
    (hs : stayed s t = true) :
    ∃ op, s.machine.cycle = .ok (op, t.machine) ∧
      (op = .jump ∨ op = .jumpOffset ∨ op = .call ∨ op = .ret) ∧
      t.failure = none ∧ t.machine.wait.active = false ∧ t.machine.pc = s.machine.pc := by
  simp only [stayed, Bool.and_eq_true, Bool.not_eq_true', beq_iff_eq] at hs
  obtain ⟨⟨hbefore, hafter⟩, hpc⟩ := hs
  rcases s.step_cases with ⟨report, -, he⟩ | ⟨-, hb, -⟩ | ⟨key, journal, -, ha, -⟩ |
    ⟨op, machine, journal, hf, -, hc, he⟩ | ⟨report, journal, -, -, -, he⟩
  · rw [hok] at he
    cases he
  · simp [blocked, KeyWait.blocked, hbefore] at hb
  · simp [hbefore] at ha
  · rw [hok] at he
    obtain ⟨-, rfl⟩ := Prod.mk.inj he
    refine ⟨op, hc, ?_, hf, hafter, hpc⟩
    rcases Machine.op_of_pc_eq hc hpc with h | h | h | h | rfl
    · exact Or.inl h
    · exact Or.inr (Or.inl h)
    · exact Or.inr (Or.inr (Or.inl h))
    · exact Or.inr (Or.inr (Or.inr h))
    · -- A key wait stays as well, but then the machine waits.
      obtain ⟨x, -, rfl⟩ := Machine.awaitKey_of_cycle hc
      cases hafter
  · rw [hok] at he
    cases he

/-- A run whose last step stayed has just taken a jump, a call or a return, and has arrived at a
fixed point exactly if it was a jump. -/
theorem parked_iff_of_run {limit : Int} {withBar : Bool} {count : Nat}
    (hr : (s.run limit withBar).result = .ok (count + 1))
    (hs : stayed (s.stepped count) (s.stepped (count + 1)) = true) :
    ∃ op, (s.stepped count).machine.cycle = .ok (op, (s.run limit withBar).session.machine) ∧
      (op = .jump ∨ op = .jumpOffset ∨ op = .call ∨ op = .ret) ∧
      ((s.run limit withBar).session.Parked ↔ op = .jump ∨ op = .jumpOffset) := by
  obtain ⟨made, journal, htotal, -, hall, hsession⟩ := runFrom_eq_ok hr
  obtain rfl : made = count + 1 := by omega
  obtain ⟨touched, hfirst⟩ := hall count (Nat.lt_succ_self count)
  have hok : (s.stepped count).step = (.ok touched, s.stepped (count + 1)) := by
    rw [stepped_succ]
    exact Prod.ext hfirst rfl
  obtain ⟨op, hc, hop, hf, ha, hpc⟩ := cycle_of_stayed hok hs
  change (s.run limit withBar).session = _ at hsession
  rw [hsession]
  exact ⟨op, hc, hop, parked_iff_of_cycle hf ha hc hop hpc⟩

/-- A program that calls its own first instruction ends a run after one step, not at a fixed
point. -/
theorem not_parked_of_call_to_itself :
    ∃ s, s = (create (some [0x22, 0x00]) .cosmac ⟨0, 0⟩ (.start "chip8" .warning)).2 ∧
      (s.run 3 false).result = .ok 1 ∧ stayed (s.stepped 0) (s.stepped 1) = true ∧
      ¬ (s.run 3 false).session.Parked := by
  obtain ⟨s, hs⟩ : ∃ s, s = (create (some [0x22, 0x00]) .cosmac ⟨0, 0⟩
    (.start "chip8" .warning)).2 := ⟨_, rfl⟩
  have hf : s.failure = none := hs ▸ failure_create _
  have hword : s.machine.memory.readWord s.machine.pc.toNat = .ok 0x2200 :=
    hs ▸ readWord_create (by decide)
  obtain ⟨hpc, hstack, ha⟩ : s.machine.pc = 0x200 ∧ s.machine.stack = .empty ∧
      s.machine.wait.active = false := by
    rw [hs, machine_create (by decide)]
    exact ⟨rfl, rfl, rfl⟩
  obtain ⟨stack, hpush⟩ : ∃ stack, s.machine.stack.push (s.machine.pc + 2) = .ok stack := by
    rw [hstack]
    exact ⟨_, rfl⟩
  have hc := Machine.cycle_eq_ok_iff.mpr
    ⟨0x2200, _, hword, rfl, Machine.call_eq_ok_iff.mpr ⟨stack, hpush, rfl⟩, rfl⟩
  obtain ⟨journal, he⟩ := step_of_cycle_ok hf ha hc
  have hok : s.step = (.ok false, s.step.2) := by
    refine Prod.ext ?_ rfl
    rw [he]
    rfl
  have hstayed : stayed s s.step.2 = true := by
    simp only [he, stayed, ha, hpc]
    rfl
  have hb : s.blocked = false := KeyWait.blocked_of_not_active ha
  have hend : s.runFrom none 0 3 = _ := runFrom_of_stayed hb hok hstayed
  have hrun : (s.run 3 false).result = .ok 1 := congrArg Run.result hend
  obtain ⟨op, hop, -, hiff⟩ := parked_iff_of_run hrun hstayed
  change s.machine.cycle = _ at hop
  rw [hc] at hop
  obtain ⟨rfl, -⟩ := Prod.mk.inj (Except.ok.inj hop)
  refine ⟨s, hs, hrun, hstayed, ?_⟩
  rw [hiff]
  decide

end Chip8.Session
