import Chip8.Proofs.Session.History

/-!
# Loops of steps

The first turn of a run and of a frame, by what the step in it does, and what a run that succeeds
has done altogether: a number of successive steps that all succeeded. The bar of a run and the
number of steps it starts to count from influence neither the machine nor how the run ends.
-/

namespace Chip8.Session

variable {s t : Session} {bar : Option (Bar Empty)} {executed budget : Nat}
variable {stops : Session → Session → Bool}

/-- A blocked session makes no step of a run. -/
theorem runFrom_of_blocked (hb : s.blocked = true) :
    s.runFrom bar executed budget = ⟨.ok executed, s, bar⟩ := by
  cases budget with
  | zero => rfl
  | succ budget => simp only [runFrom, hb, ite_true]

/-- A blocked session makes no step of a frame. -/
theorem stepUpTo_of_blocked {changed : Bool} (hb : s.blocked = true) :
    s.stepUpTo changed budget = (.ok changed, s) := by
  cases budget with
  | zero => rfl
  | succ budget => simp only [stepUpTo, hb, ite_true]

/-- A loop makes no step if its budget is used up or a key is awaited. -/
def Stuck (s : Session) (budget : Nat) : Prop := budget = 0 ∨ s.blocked = true

theorem runFrom_of_stuck (h : s.Stuck budget) :
    s.runFrom bar executed budget = ⟨.ok executed, s, bar⟩ := by
  rcases h with rfl | hb
  · rfl
  · exact runFrom_of_blocked hb

theorem stepUpTo_of_stuck {changed : Bool} (h : s.Stuck budget) :
    s.stepUpTo changed budget = (.ok changed, s) := by
  rcases h with rfl | hb
  · rfl
  · exact stepUpTo_of_blocked hb

/-- A step that fails ends a run. -/
theorem runFrom_of_step_error {failure : Failure} (hb : s.blocked = false)
    (he : s.step = (.error failure, t)) :
    s.runFrom bar executed (budget + 1) = ⟨.error failure, t, bar⟩ := by
  simp only [runFrom, hb, he, Bool.false_eq_true, ite_false]

/-- A step that fails ends a frame. -/
theorem stepUpTo_of_step_error {changed : Bool} {failure : Failure} (hb : s.blocked = false)
    (he : s.step = (.error failure, t)) :
    s.stepUpTo changed (budget + 1) = (.error failure, t) := by
  simp only [stepUpTo, hb, he, Bool.false_eq_true, ite_false]

/-- A run goes on after a step that succeeds and does not stay. -/
theorem runFrom_of_moved {touched : Bool} (hb : s.blocked = false)
    (he : s.step = (.ok touched, t)) (hm : stayed s t = false) :
    s.runFrom bar executed (budget + 1) =
      t.runFrom (bar.map (·.move 1)) (executed + 1) budget := by
  simp only [runFrom, hb, he, hm, Bool.false_eq_true, ite_false]

/-- A run ends with a step that stays. -/
theorem runFrom_of_stayed {touched : Bool} (hb : s.blocked = false)
    (he : s.step = (.ok touched, t)) (hm : stayed s t = true) :
    s.runFrom bar executed (budget + 1) =
      ⟨.ok (executed + 1), t.noteIdle s.machine.pc (executed + 1), bar.map (·.move 1)⟩ := by
  simp only [runFrom, hb, he, hm, Bool.false_eq_true, ite_false, ite_true]

/-- A frame goes on after a step that succeeds. -/
theorem stepUpTo_of_step_ok {changed touched : Bool} (hb : s.blocked = false)
    (he : s.step = (.ok touched, t)) :
    s.stepUpTo changed (budget + 1) = t.stepUpTo (changed || touched) budget := by
  simp only [stepUpTo, hb, he, Bool.false_eq_true, ite_false]

/-- A blocked session takes no turn. -/
theorem turns_of_blocked (hb : s.blocked = true) : s.turns stops budget = [] := by
  cases budget with
  | zero => rfl
  | succ budget => simp only [turns, hb, ite_true]

theorem turns_of_stuck (h : s.Stuck budget) : s.turns stops budget = [] := by
  rcases h with rfl | hb
  · rfl
  · exact turns_of_blocked hb

/-- A step that fails is the last turn. -/
theorem turns_of_step_error {failure : Failure} (hb : s.blocked = false)
    (he : s.step = (.error failure, t)) : s.turns stops (budget + 1) = [s] := by
  simp only [turns, hb, he, Bool.false_eq_true, ite_false]

/-- A step that succeeds is the last turn only if the loop stops after it. -/
theorem turns_of_step_ok {touched : Bool} (hb : s.blocked = false)
    (he : s.step = (.ok touched, t)) :
    s.turns stops (budget + 1) = s :: if stops s t then [] else t.turns stops budget := by
  simp only [turns, hb, he, Bool.false_eq_true, ite_false]

/-- A session that is not blocked takes the first turn itself. -/
theorem turns_of_not_blocked (stops : Session → Session → Bool) (budget : Nat)
    (hb : s.blocked = false) :
    ∃ rest, s.turns stops (budget + 1) = s :: rest := by
  rcases hs : s.step with ⟨failure | touched, t⟩
  · exact ⟨_, turns_of_step_error hb hs⟩
  · exact ⟨_, turns_of_step_ok hb hs⟩

/-- A positive limit leaves room for a first turn. -/
theorem exists_toNat_eq_succ {limit : Int} (h : 0 < limit) :
    ∃ budget, limit.toNat = budget + 1 ∧ (limit - 1).toNat = budget :=
  ⟨(limit - 1).toNat, by omega, rfl⟩

/-- Induction on the steps of a loop. It makes no step, or the first one fails, or the first one
succeeds and the rest follows. -/
theorem loop_induction {motive : Session → Nat → Prop}
    (stuck : ∀ s budget, s.Stuck budget → motive s budget)
    (failed : ∀ s budget failure, s.blocked = false → s.step = (.error failure, s.step.2) →
      motive s (budget + 1))
    (went : ∀ s budget touched, s.blocked = false → s.step = (.ok touched, s.step.2) →
      motive s.step.2 budget → motive s (budget + 1))
    (s : Session) (budget : Nat) : motive s budget := by
  induction budget generalizing s with
  | zero => exact stuck s 0 (Or.inl rfl)
  | succ budget ih =>
    cases hb : s.blocked with
    | true => exact stuck s _ (Or.inr hb)
    | false =>
      rcases hs : s.step with ⟨failure | touched, t⟩
      · exact failed s budget failure hb (by rw [hs])
      · exact went s budget touched hb (by rw [hs]) (ih s.step.2)

/-- A run that succeeds has made as many successive steps as it answers, and all of them
succeeded. -/
theorem runFrom_eq_ok {total : Nat} (h : (s.runFrom bar executed budget).result = .ok total) :
    ∃ count journal, total = executed + count ∧ count ≤ budget ∧
      (∀ i < count, ∃ touched, (s.stepped i).step.1 = .ok touched) ∧
      (s.runFrom bar executed budget).session = { s.stepped count with journal } := by
  induction s, budget using loop_induction generalizing bar executed with
  | stuck s budget hstuck =>
    rw [runFrom_of_stuck hstuck] at h ⊢
    cases h
    exact ⟨0, s.journal, rfl, Nat.zero_le _, nofun, rfl⟩
  | failed s budget failure hb hs =>
    rw [runFrom_of_step_error hb hs] at h
    cases h
  | went s budget touched hb hs ih =>
    have hfirst : s.step.1 = .ok touched := congrArg Prod.fst hs
    cases hm : stayed s s.step.2 with
    | true =>
      rw [runFrom_of_stayed hb hs hm] at h ⊢
      cases h
      refine ⟨1, (s.step.2.noteIdle s.machine.pc (executed + 1)).journal, rfl,
        Nat.succ_le_succ (Nat.zero_le _), fun i hi => ⟨touched, ?_⟩, rfl⟩
      rw [Nat.lt_one_iff.mp hi]
      exact hfirst
    | false =>
      rw [runFrom_of_moved hb hs hm] at h ⊢
      obtain ⟨count, journal, htotal, hle, hall, hsession⟩ := ih h
      refine ⟨count + 1, journal, by omega, by omega, fun i hi => ?_, hsession⟩
      cases i with
      | zero => exact ⟨touched, hfirst⟩
      | succ i => exact hall i (by omega)

/-- A run that starts to count later answers so much more. It does the same to the machine,
whether or not a bar shows it. -/
theorem runFrom_add (s : Session) (bar bar' : Option (Bar Empty)) (executed extra budget : Nat) :
    (s.runFrom bar' (executed + extra) budget).result =
        (s.runFrom bar executed budget).result.map (· + extra) ∧
      ∃ journal, (s.runFrom bar' (executed + extra) budget).session =
        { (s.runFrom bar executed budget).session with journal } := by
  -- Both runs take the same turns, since no turn looks at the bar or at the count.
  induction s, budget using loop_induction generalizing bar bar' executed with
  | stuck s budget hstuck =>
    rw [runFrom_of_stuck hstuck, runFrom_of_stuck hstuck]
    exact ⟨rfl, s.journal, rfl⟩
  | failed s budget failure hb hs =>
    rw [runFrom_of_step_error hb hs, runFrom_of_step_error hb hs]
    exact ⟨rfl, s.step.2.journal, rfl⟩
  | went s budget touched hb hs ih =>
    have hcount : executed + extra + 1 = executed + 1 + extra := by omega
    cases hm : stayed s s.step.2 with
    | true =>
      rw [runFrom_of_stayed hb hs hm, runFrom_of_stayed hb hs hm, hcount]
      exact ⟨rfl, (s.step.2.noteIdle s.machine.pc (executed + 1 + extra)).journal, rfl⟩
    | false =>
      rw [runFrom_of_moved hb hs hm, runFrom_of_moved hb hs hm, hcount]
      exact ih (bar.map (·.move 1)) (bar'.map (·.move 1)) (executed + 1)

end Chip8.Session
