import Chip8.Proofs.Machine.Cycle
import Chip8.Proofs.Session.Load
import Chip8.Proofs.Session.Run

/-!
# Trails

A run or a frame makes many steps, so more happens along a history than it has requests. The trail
of a history lists what happens one event at a time: every step, tick, key event and load, each with
the session that it meets. It leads from the session at its start to the one at its end, so what each
of these events keeps holds whenever one of them happens and in the end.
-/

namespace Chip8

/-- One thing that happens to a session. -/
inductive Event where
  /-- It makes a step. -/
  | step
  /-- Its timers are counted down. -/
  | tick
  /-- A key goes down or up. -/
  | key (number : Int) (isDown : Bool)
  /-- It is asked to start over with a program. -/
  | load (rom : List UInt8)
  deriving DecidableEq, Repr

/-- Whether an event starts over with a program. -/
def Event.restarts : Event → Bool
  | load _ => true
  | _ => false

namespace Session

variable {s : Session} {i : Instruction} {P : Session → Prop}

/-- The next step of a session carries out an instruction, with success. -/
def Executes (s : Session) (i : Instruction) : Prop :=
  s.status = .ready ∧ s.machine.StandsAt i ∧ ∃ touched, s.step.1 = .ok touched

instance (s : Session) (i : Instruction) : Decidable (s.Executes i) :=
  decidable_of_iff (s.status = .ready ∧ s.machine.StandsAt i ∧
      ∃ touched, s.step.1.toOption = some touched) (by simp only [toOption_eq_some_iff]; rfl)

/-- A step that carries out an instruction is a cycle of the machine. -/
theorem Executes.step_eq (h : s.Executes i) :
    ∃ next journal, { s.machine with pc := s.machine.pc + 2 }.perform i = .ok next ∧
      s.step = (.ok i.op.touchesScreen,
        { s with machine := { next with cycles := next.cycles + 1 }, journal }) := by
  obtain ⟨hready, hat, touched, hok⟩ := h
  obtain ⟨hf, ha⟩ := status_eq_ready_iff.mp hready
  obtain ⟨op, machine, journal, hc, he⟩ := cycle_of_step_ok hf ha hok
  obtain ⟨word, next, hw, hop, hn, rfl⟩ := Machine.cycle_eq_ok_iff.mp hc
  obtain rfl : i = ⟨op, word⟩ := hat.unique ⟨hw, hop⟩
  exact ⟨next, journal, hn, he⟩

/-- A cycle that succeeds in a session that is ready carries out an instruction. -/
theorem executes_of_cycle {op : Op} {machine : Machine} (hf : s.failure = none)
    (ha : s.machine.wait.active = false) (hc : s.machine.cycle = .ok (op, machine)) :
    ∃ word next, s.Executes ⟨op, word⟩ ∧
      { s.machine with pc := s.machine.pc + 2 }.perform ⟨op, word⟩ = .ok next ∧
      machine = { next with cycles := next.cycles + 1 } := by
  obtain ⟨word, next, hw, hop, hn, he⟩ := Machine.cycle_eq_ok_iff.mp hc
  obtain ⟨journal, hs⟩ := step_of_cycle_ok hf ha hc
  have hready : s.status = .ready := status_eq_ready_iff.mpr ⟨hf, ha⟩
  exact ⟨word, next, ⟨hready, ⟨hw, hop⟩, op.touchesScreen, by rw [hs]⟩, hn, he⟩

/-- A step that carries out no instruction leaves the machine alone or completes a key wait. -/
theorem machine_step_of_not_executes (h : ∀ i, ¬ s.Executes i) :
    ∃ registers pc wait, s.step.2.machine = { s.machine with registers, pc, wait } := by
  rcases s.machine_step_cases with he | ⟨key, -, -, he⟩ | ⟨op, hf, ha, hc⟩
  · exact ⟨_, _, _, he⟩
  · rw [he]
    exact s.machine.resume_eq
  · obtain ⟨word, next, hexecutes, -, -⟩ := executes_of_cycle hf ha hc
    exact absurd hexecutes (h _)

/-- The instruction that the next step of a session carries out with success, if there is one. -/
def executed? (s : Session) : Option Instruction :=
  s.machine.standing?.filter fun i => decide (s.Executes i)

theorem executed?_eq_some_iff : s.executed? = some i ↔ s.Executes i := by
  rw [executed?, Option.filter_eq_some_iff, decide_eq_true_iff, Machine.standing?_eq_some_iff,
    and_iff_right_iff_imp]
  exact fun h => h.2.1

theorem executed?_eq_none_iff : s.executed? = none ↔ ∀ i, ¬ s.Executes i := by
  simp only [Option.eq_none_iff_forall_ne_some, ne_eq, executed?_eq_some_iff]

/-- The session after an event. -/
def next (s : Session) : Event → Session
  | .step => s.step.2
  | .tick => s.tick
  | .key number isDown => (s.setKey number isDown).2
  | .load rom => (s.load rom).2

/-- What a request makes happen, one event at a time. -/
def events (s : Session) : Request → List (Session × Event)
  | .step => [(s, .step)]
  | .run limit _ => (s.turns stayed limit.toNat).map fun u => (u, .step)
  | .frame count => (s, .tick) :: (s.tick.turns neverStops count.toNat).map fun u => (u, .step)
  | .tick => [(s, .tick)]
  | .key number isDown => [(s, .key number isDown)]
  | .load rom => [(s, .load rom)]
  | .reset => [(s, .load s.rom)]

/-- What a history makes happen, one event at a time. -/
def trail (s : Session) : List Request → List (Session × Event)
  | [] => []
  | request :: rest => s.events request ++ (s.perform request).session.trail rest

/-- The instructions that the steps of a trail carry out with success, each with the machine that it
finds. -/
def carriedOut (trail : List (Session × Event)) : List (Machine × Instruction) :=
  trail.filterMap fun e =>
    if e.2 = .step then e.1.executed?.map fun i => (e.1.machine, i) else none

/-- What is carried out along a trail begins with what its first event carries out. -/
theorem carriedOut_cons (s : Session) (event : Event) (rest : List (Session × Event)) :
    carriedOut ((s, event) :: rest) = carriedOut [(s, event)] ++ carriedOut rest := by
  rw [carriedOut, ← List.singleton_append, List.filterMap_append]
  rfl

theorem carriedOut_of_executes (h : s.Executes i) :
    carriedOut [(s, .step)] = [(s.machine, i)] := by
  simp [carriedOut, executed?_eq_some_iff.mpr h]

theorem carriedOut_of_not_executes (h : ∀ i, ¬ s.Executes i) : carriedOut [(s, .step)] = [] := by
  simp [carriedOut, executed?_eq_none_iff.mpr h]

/-- A trail that leads from one session to another. Each event happens to the session that the one
before it has left, entries of the journal apart. -/
inductive Leads : Session → List (Session × Event) → Session → Prop where
  | nil {s : Session} : Leads s [] s
  | cons {s t : Session} {event : Event} {rest : List (Session × Event)} (journal : Journal)
      (h : Leads { s.next event with journal } rest t) : Leads s ((s, event) :: rest) t

theorem Leads.append {t u : Session} {before later : List (Session × Event)}
    (h : Leads s before t) (h' : Leads t later u) : Leads s (before ++ later) u := by
  induction h with
  | nil => exact h'
  | cons journal _ ih => exact .cons journal (ih h')

/-- The turns of a run lead to its end, where an entry may be added to the journal. -/
theorem leads_turns_run (s : Session) (bar : Option (Bar Empty)) (executed budget : Nat) :
    Leads s ((s.turns stayed budget).map fun u => (u, .step))
      (s.runFrom bar executed budget).session := by
  induction s, budget using loop_induction generalizing bar executed with
  | stuck s budget hstuck =>
    rw [turns_of_stuck hstuck, runFrom_of_stuck hstuck]
    exact .nil
  | failed s budget failure hb hs =>
    rw [turns_of_step_error hb hs, runFrom_of_step_error hb hs]
    exact .cons s.step.2.journal .nil
  | went s budget touched hb hs ih =>
    rw [turns_of_step_ok hb hs]
    cases hm : stayed s s.step.2 with
    | true =>
      rw [runFrom_of_stayed hb hs hm]
      exact .cons (s.step.2.noteIdle s.machine.pc (executed + 1)).journal .nil
    | false =>
      rw [runFrom_of_moved hb hs hm]
      exact .cons s.step.2.journal (ih (bar.map (·.move 1)) (executed + 1))

/-- The turns of a frame lead to its end. -/
theorem leads_turns_frame (s : Session) (changed : Bool) (budget : Nat) :
    Leads s ((s.turns neverStops budget).map fun u => (u, .step))
      (s.stepUpTo changed budget).2 := by
  induction s, budget using loop_induction generalizing changed with
  | stuck s budget hstuck =>
    rw [turns_of_stuck hstuck, stepUpTo_of_stuck hstuck]
    exact .nil
  | failed s budget failure hb hs =>
    rw [turns_of_step_error hb hs, stepUpTo_of_step_error hb hs]
    exact .cons s.step.2.journal .nil
  | went s budget touched hb hs ih =>
    rw [turns_of_step_ok hb hs, stepUpTo_of_step_ok hb hs]
    exact .cons s.step.2.journal (ih (changed || touched))

/-- The events of a request lead to the session after it. -/
theorem leads_events (s : Session) (request : Request) :
    Leads s (s.events request) (s.perform request).session := by
  have hsingle (event : Event) (journal : Journal) :
      Leads s [(s, event)] { s.next event with journal } := .cons journal .nil
  cases request with
  | step => exact hsingle .step s.step.2.journal
  | run limit withBar => exact s.leads_turns_run _ 0 limit.toNat
  | frame count => exact .cons s.journal (s.tick.leads_turns_frame false count.toNat)
  | tick => exact hsingle .tick s.journal
  | key number isDown => exact hsingle (.key number isDown) (s.setKey number isDown).2.journal
  | load rom => exact hsingle (.load rom) (s.load rom).2.journal
  | reset =>
    obtain ⟨entries, hreset⟩ := s.reset_eq
    obtain ⟨journal, he⟩ := s.load_journal entries s.rom
    change Leads s _ s.reset.2
    rw [hreset, he]
    exact hsingle (.load s.rom) journal

/-- The trail of a history leads to the session after it. -/
theorem leads_trail (s : Session) (history : List Request) :
    Leads s (s.trail history) (s.after history) := by
  induction history generalizing s with
  | nil => exact .nil
  | cons request rest ih => exact (s.leads_events request).append (ih _)

/-- What the events of a trail keep holds whenever one happens and in the end. -/
theorem Leads.holds_along {t : Session} {trail : List (Session × Event)} (ht : Leads s trail t)
    (hjournal : ∀ u journal, P u → P { u with journal }) (h : P s)
    (hevent : ∀ u event, (u, event) ∈ trail → P u → P (u.next event)) :
    (∀ u event, (u, event) ∈ trail → P u) ∧ P t := by
  induction ht with
  | nil => exact ⟨fun u event hu => absurd hu List.not_mem_nil, h⟩
  | @cons s t event rest journal _ ih =>
    have hnext : P { s.next event with journal } :=
      hjournal _ journal (hevent s event List.mem_cons_self h)
    obtain ⟨hlater, hlast⟩ := ih hnext fun u event hu =>
      hevent u event (List.mem_cons_of_mem _ hu)
    refine ⟨fun u event hu => ?_, hlast⟩
    rcases List.mem_cons.mp hu with he | hu
    · obtain ⟨rfl, rfl⟩ := Prod.mk.inj he
      exact h
    · exact hlater u event hu

/-- What the events of a history keep holds whenever one happens and after the history. -/
theorem holds_along_trail {history : List Request}
    (hjournal : ∀ u journal, P u → P { u with journal }) (h : P s)
    (hevent : ∀ u event, (u, event) ∈ s.trail history → P u → P (u.next event)) :
    (∀ u event, (u, event) ∈ s.trail history → P u) ∧ P (s.after history) :=
  (s.leads_trail history).holds_along hjournal h hevent

end Session

end Chip8
