import Chip8.Proofs.Session.Create
import Chip8.Proofs.Session.Run
import Chip8.Proofs.Session.WellFormed
import Mathlib.Order.Bounds.Basic

/-!
# Runs as batches of steps

A run stops at the first number of steps at which its limit is reached, a key is awaited or the
last step has idled, and it has then made exactly so many successive steps. The first of these
that fails ends it. A run that did not end because a step idled can be continued by another one
as if there had been no end in between.
-/

namespace Chip8.Session

variable {s t : Session} {bar bar' : Option (Bar Empty)} {executed budget count i : Nat}
variable {limit : Int} {failure : Failure}

/-- The next step idles: no key wait is on before or after it, and the program counter stays where
it was. -/
def Idles (s : Session) : Prop :=
  s.machine.wait.active = false ∧ s.step.2.machine.wait.active = false ∧
    s.step.2.machine.pc = s.machine.pc

/-- A run of at most `limit` steps has a reason to stop after `count` of them. -/
def StopsAt (s : Session) (limit : Int) (count : Nat) : Prop :=
  limit ≤ count ∨ (s.stepped count).blocked = true ∨
    ∃ earlier, count = earlier + 1 ∧ (s.stepped earlier).Idles

/-- The first steps all succeed. -/
def Succeeds (s : Session) (count : Nat) : Prop :=
  ∀ i < count, ∃ touched, (s.stepped i).step.1 = .ok touched

theorem stayed_iff_idles : stayed s s.step.2 = true ↔ s.Idles := by
  simp only [stayed, Idles, Bool.and_eq_true, Bool.not_eq_true', beq_iff_eq, and_assoc]

/-- What a run finds after its first step is what a run from there finds, unless that step was the
last and idled. -/
theorem stopsAt_succ :
    s.StopsAt (budget + 1 : Nat) (count + 1) ↔
      s.step.2.StopsAt budget count ∨ (count = 0 ∧ s.Idles) := by
  have hlimit : ((budget + 1 : Nat) : Int) ≤ (count + 1 : Nat) ↔ (budget : Int) ≤ count := by omega
  unfold StopsAt
  rw [hlimit]
  constructor
  · rintro (h | h | ⟨earlier, hcount, h⟩)
    · exact Or.inl (Or.inl h)
    · exact Or.inl (Or.inr (Or.inl h))
    · obtain rfl : count = earlier := Nat.succ.inj hcount
      cases count with
      | zero => exact Or.inr ⟨rfl, h⟩
      | succ earlier => exact Or.inl (Or.inr (Or.inr ⟨earlier, rfl, h⟩))
  · rintro ((h | h | ⟨earlier, rfl, h⟩) | ⟨rfl, h⟩)
    · exact Or.inl h
    · exact Or.inr (Or.inl h)
    · exact Or.inr (Or.inr ⟨earlier + 1, rfl, h⟩)
    · exact Or.inr (Or.inr ⟨0, rfl, h⟩)

/-- A session that is neither at its limit nor blocked does not stop at once. -/
theorem not_stopsAt_zero (hb : s.blocked = false) : ¬ s.StopsAt (budget + 1 : Nat) 0 := by
  rintro (h | h | ⟨earlier, h, -⟩)
  · omega
  · rw [stepped, hb] at h
    cases h
  · omega

/-- Only a limit above zero keeps a run going. -/
theorem stopsAt_toNat : s.StopsAt limit.toNat count ↔ s.StopsAt limit count := by
  unfold StopsAt
  rw [show (limit.toNat : Int) ≤ count ↔ limit ≤ count by omega]

/-- A step that fails in a session that has not failed before leaves the machine alone, and then no
key wait is on. -/
theorem idles_of_step_error (hf : s.failure = none) (he : s.step.1 = .error failure) :
    s.Idles ∧ s.step.2.machine = s.machine ∧ ∃ report, s.step.2.failure = some report := by
  rcases s.step_cases with ⟨report, hfailed, -⟩ | ⟨-, -, hs⟩ | ⟨key, journal, -, -, -, hs⟩ |
    ⟨op, machine, journal, -, -, -, hs⟩ | ⟨report, journal, -, ha, -, hs⟩
  · rw [hf] at hfailed
    cases hfailed
  · rw [hs] at he
    cases he
  · rw [hs] at he
    cases he
  · rw [hs] at he
    cases he
  · have hmachine : s.step.2.machine = s.machine := by rw [hs]
    refine ⟨⟨ha, ?_, ?_⟩, hmachine, report, by rw [hs]⟩
    · rw [hmachine]
      exact ha
    · rw [hmachine]

/-- A step that succeeds does not end the session. -/
theorem failure_of_step_ok {touched : Bool} (hok : s.step.1 = .ok touched) :
    s.step.2.failure = none := by
  rcases s.step_cases with ⟨report, -, hs⟩ | ⟨hf, -, hs⟩ | ⟨key, journal, hf, -, -, hs⟩ |
    ⟨op, machine, journal, hf, -, -, hs⟩ | ⟨report, journal, -, -, -, hs⟩
  · rw [hs] at hok
    cases hok
  · rw [hs]
    exact hf
  · rw [hs]
    exact hf
  · rw [hs]
    exact hf
  · rw [hs] at hok
    cases hok

/-- Only a cycle is counted, and a key wait that is on after a step has just begun. -/
theorem cycles_of_step_ok {touched : Bool} (hb : s.blocked = false)
    (hok : s.step.1 = .ok touched) :
    s.step.2.machine.cycles = s.machine.cycles + (if s.machine.wait.active then 0 else 1) ∧
      (s.step.2.machine.wait.active = true → s.step.2.blocked = true) := by
  rcases s.step_cases with ⟨report, -, hs⟩ | ⟨-, hblocked, -⟩ | ⟨key, journal, -, ha, hk, hs⟩ |
    ⟨op, machine, journal, -, ha, hc, hs⟩ | ⟨report, journal, -, -, -, hs⟩
  · rw [hs] at hok
    cases hok
  · rw [hb] at hblocked
    cases hblocked
  · rw [hs, Machine.resume_of_latched ha hk, ha]
    exact ⟨(Int.add_zero _).symm, nofun⟩
  · obtain ⟨word, hframe⟩ := Machine.frame_of_cycle hc
    rw [hs, ha]
    refine ⟨hframe.cycles, fun hactive => ?_⟩
    by_cases hop : op = .awaitKey
    · subst hop
      obtain ⟨x, -, rfl⟩ := Machine.awaitKey_of_cycle hc
      exact KeyWait.blocked_start x
    · have hwait : machine.wait = s.machine.wait := hframe.wait hop
      rw [hwait, ha] at hactive
      cases hactive
  · rw [hs] at hok
    cases hok

/-- A run takes the least number of turns after which it has a reason to stop. -/
theorem isLeast_turns (hf : s.failure = none) (budget : Nat) :
    IsLeast {count | s.StopsAt budget count} (s.turns stayed budget).length := by
  induction s, budget using loop_induction with
  | stuck s budget hstuck =>
    rw [turns_of_stuck hstuck]
    refine ⟨?_, fun count _ => Nat.zero_le count⟩
    rcases hstuck with rfl | hb
    · exact Or.inl le_rfl
    · exact Or.inr (Or.inl hb)
  | failed s budget failure hb hs =>
    rw [turns_of_step_error hb hs]
    obtain ⟨hidles, -⟩ := idles_of_step_error hf (congrArg Prod.fst hs)
    refine ⟨stopsAt_succ.mpr (Or.inr ⟨rfl, hidles⟩), fun count hcount => ?_⟩
    exact Nat.one_le_iff_ne_zero.mpr fun h0 => not_stopsAt_zero hb (h0 ▸ hcount)
  | went s budget touched hb hs ih =>
    obtain ⟨hstop, hleast⟩ := ih (failure_of_step_ok (congrArg Prod.fst hs))
    rw [turns_of_step_ok hb hs]
    cases hm : stayed s s.step.2 with
    | true =>
      refine ⟨stopsAt_succ.mpr (Or.inr ⟨rfl, stayed_iff_idles.mp hm⟩), fun count hcount => ?_⟩
      exact Nat.one_le_iff_ne_zero.mpr fun h0 => not_stopsAt_zero hb (h0 ▸ hcount)
    | false =>
      have hmoved : ¬ s.Idles := fun h => by
        rw [stayed_iff_idles.mpr h] at hm
        cases hm
      refine ⟨stopsAt_succ.mpr (Or.inl hstop), fun count hcount => ?_⟩
      cases count with
      | zero => exact absurd hcount (not_stopsAt_zero hb)
      | succ count =>
        rcases stopsAt_succ.mp hcount with h | ⟨-, h⟩
        · exact Nat.succ_le_succ (hleast h)
        · exact absurd h hmoved

/-- A run whose turns all succeed answers their number. -/
theorem runFrom_of_succeeds (h : s.Succeeds (s.turns stayed budget).length) :
    (s.runFrom bar executed budget).result = .ok (executed + (s.turns stayed budget).length) := by
  induction s, budget using loop_induction generalizing bar executed with
  | stuck s budget hstuck =>
    rw [runFrom_of_stuck hstuck, turns_of_stuck hstuck]
    rfl
  | failed s budget failure hb hs =>
    rw [turns_of_step_error hb hs] at h
    obtain ⟨touched, hok⟩ := h 0 Nat.one_pos
    rw [stepped, hs] at hok
    cases hok
  | went s budget touched hb hs ih =>
    cases hm : stayed s s.step.2 with
    | true =>
      rw [runFrom_of_stayed hb hs hm, turns_of_step_ok hb hs, hm]
      rfl
    | false =>
      rw [turns_of_step_ok hb hs, hm] at h
      rw [runFrom_of_moved hb hs hm, turns_of_step_ok hb hs, hm,
        ih fun i hi => h (i + 1) (Nat.succ_lt_succ hi)]
      congr 1
      exact Nat.succ_add_eq_add_succ _ _

/-- A turn that fails is the last one, and the run fails with it. -/
theorem runFrom_of_fails (hi : i < (s.turns stayed budget).length)
    (he : (s.stepped i).step.1 = .error failure) :
    (s.turns stayed budget).length = i + 1 ∧
      (s.runFrom bar executed budget).result = .error failure ∧
      (s.runFrom bar executed budget).session = s.stepped (i + 1) := by
  induction s, budget using loop_induction generalizing bar executed i with
  | stuck s budget hstuck =>
    rw [turns_of_stuck hstuck] at hi
    cases hi
  | failed s budget first hb hs =>
    rw [turns_of_step_error hb hs] at hi ⊢
    obtain rfl : i = 0 := Nat.lt_one_iff.mp hi
    rw [stepped, hs] at he
    rw [runFrom_of_step_error hb hs]
    cases he
    exact ⟨rfl, rfl, rfl⟩
  | went s budget touched hb hs ih =>
    rw [turns_of_step_ok hb hs] at hi ⊢
    cases i with
    | zero =>
      rw [stepped, hs] at he
      cases he
    | succ i =>
      cases hm : stayed s s.step.2 with
      | true =>
        rw [hm] at hi
        exact absurd (Nat.succ_lt_succ_iff.mp hi) (Nat.not_lt_zero i)
      | false =>
        rw [hm] at hi
        rw [runFrom_of_moved hb hs hm]
        obtain ⟨hlength, hresult, hsession⟩ := ih (Nat.succ_lt_succ_iff.mp hi) he
        exact ⟨congrArg Nat.succ hlength, hresult, hsession⟩

/-- What a run has done that stops after `count` steps at the latest. -/
structure Makes (s : Session) (count : Nat) (finished : Run) : Prop where
  /-- If all the steps succeed, the run answers their number and leaves what they leave, apart from
  an entry in the journal. -/
  completes : s.Succeeds count → finished.result = .ok count ∧
    ∃ journal, finished.session = { s.stepped count with journal }
  /-- If one of them fails, those before it succeed, the run fails with it, and the machine is as
  those before it leave it. -/
  fails : ∀ i < count, ∀ failure, (s.stepped i).step.1 = .error failure →
    s.Succeeds i ∧ finished.result = .error failure ∧
      finished.session = s.stepped (i + 1) ∧ finished.session.machine = (s.stepped i).machine
  /-- Only the first step can complete a key wait. -/
  inactive : ∀ i, 0 < i → i < count → (s.stepped i).machine.wait.active = false
  /-- If all the steps succeed, the run counts every step but one that completes a key wait. -/
  cycles : s.Succeeds count → finished.session.machine.cycles =
    s.machine.cycles +
      (if 1 ≤ count ∧ s.machine.wait.latched ≠ none then (count : Int) - 1 else count)

theorem Succeeds.of_le (h : s.Succeeds count) (hi : i ≤ count) : s.Succeeds i :=
  fun j hj => h j (Nat.lt_of_lt_of_le hj hi)

/-- Steps that succeed do not end a session. -/
theorem Succeeds.failure_eq_none (h : s.Succeeds count) (hf : s.failure = none) :
    (s.stepped count).failure = none := by
  cases count with
  | zero => exact hf
  | succ count =>
    obtain ⟨touched, hok⟩ := h count (Nat.lt_succ_self count)
    rw [stepped_succ]
    exact failure_of_step_ok hok

/-- Before a run has a reason to stop, no step but the last one can have failed. -/
theorem succeeds_of_not_stopsAt (hf : s.failure = none) (h : ∀ i < count, ¬ s.StopsAt limit i)
    (hi : i < count) : s.Succeeds i := by
  induction i with
  | zero => exact nofun
  | succ i ih =>
    have hbefore := ih (Nat.lt_of_succ_lt hi)
    intro j hj
    rcases Nat.lt_succ_iff_lt_or_eq.mp hj with hlt | rfl
    · exact hbefore j hlt
    · rcases hs : (s.stepped j).step.1 with failure | touched
      · have hidles := (idles_of_step_error (hbefore.failure_eq_none hf) hs).1
        exact absurd (Or.inr (Or.inr ⟨j, rfl, hidles⟩)) (h (j + 1) hi)
      · exact ⟨touched, rfl⟩

/-- While a run has no reason to stop, no key wait is on after its first step. -/
theorem inactive_of_not_stopsAt (hf : s.failure = none) (h : ∀ i < count, ¬ s.StopsAt limit i)
    (hpos : 0 < i) (hi : i < count) : (s.stepped i).machine.wait.active = false := by
  obtain ⟨i, rfl⟩ : ∃ j, i = j + 1 := ⟨i - 1, by omega⟩
  have hblocked : ∀ j < count, (s.stepped j).blocked = false := fun j hj =>
    Bool.eq_false_iff.mpr fun hb => h j hj (Or.inr (Or.inl hb))
  obtain ⟨touched, hok⟩ := succeeds_of_not_stopsAt hf h hi i (Nat.lt_succ_self i)
  obtain ⟨-, hwait⟩ := cycles_of_step_ok (hblocked i (Nat.lt_of_succ_lt hi)) hok
  rw [← stepped_succ] at hwait
  refine Bool.eq_false_iff.mpr fun ha => ?_
  rw [hblocked (i + 1) hi] at hwait
  exact Bool.false_ne_true (hwait ha)

/-- Every step of a run is counted but one that completes a key wait, which can only be the first. -/
theorem cycles_stepped (hf : s.failure = none) (h : ∀ i < count, ¬ s.StopsAt limit i)
    (hok : s.Succeeds count) :
    (s.stepped count).machine.cycles = s.machine.cycles +
      (if 1 ≤ count ∧ s.machine.wait.active = true then (count : Int) - 1 else count) := by
  induction count with
  | zero => simp [stepped]
  | succ count ih =>
    have hbefore := ih (fun i hi => h i (Nat.lt_succ_of_lt hi)) (hok.of_le (Nat.le_succ count))
    have hb : (s.stepped count).blocked = false := Bool.eq_false_iff.mpr fun hb =>
      h count (Nat.lt_succ_self count) (Or.inr (Or.inl hb))
    obtain ⟨touched, hlast⟩ := hok count (Nat.lt_succ_self count)
    obtain ⟨hcycles, -⟩ := cycles_of_step_ok hb hlast
    rw [stepped_succ, hcycles, hbefore]
    cases count with
    | zero =>
      cases ha : s.machine.wait.active with
      | true => simp [stepped, ha]
      | false => simp [stepped, ha]
    | succ count =>
      have ha := inactive_of_not_stopsAt hf h (Nat.succ_pos count) (Nat.lt_succ_self _)
      rw [ha]
      cases s.machine.wait.active with
      | true => simp; omega
      | false => simp; omega

/-- A key has come for the wait of a session that is not blocked. -/
theorem latched_iff_active (hs : s.machine.Sound) (hb : s.blocked = false) :
    s.machine.wait.latched ≠ none ↔ s.machine.wait.active = true := by
  refine ⟨hs.active_of_latched, fun ha hnone => ?_⟩
  simp [blocked, KeyWait.blocked, ha, hnone] at hb

/-- A run makes the least number of steps after which it has a reason to stop. -/
theorem makes_run (hs : s.machine.Sound) (hf : s.failure = none) (limit : Int) (withBar : Bool) :
    ∃ count, IsLeast {i | s.StopsAt limit i} count ∧ s.Makes count (s.run limit withBar) := by
  obtain ⟨hstop, hleast⟩ := isLeast_turns hf limit.toNat
  have hbefore : ∀ i < (s.turns stayed limit.toNat).length, ¬ s.StopsAt limit i := fun i hi h =>
    Nat.not_le.mpr hi (hleast (stopsAt_toNat.mpr h))
  obtain ⟨journal, hsession⟩ := s.runFrom_session
    (if withBar then some (.start limit none []) else none) 0 limit.toNat
  refine ⟨_, ⟨stopsAt_toNat.mp hstop, fun i h => hleast (stopsAt_toNat.mpr h)⟩,
    ⟨fun hok => ⟨?_, journal, hsession⟩, ?_, ?_, ?_⟩⟩
  · rw [run, runFrom_of_succeeds hok, Nat.zero_add]
  · intro i hi failure he
    have hsucceeds := succeeds_of_not_stopsAt hf hbefore hi
    obtain ⟨-, hresult, hend⟩ := runFrom_of_fails hi he
    have hmachine := (idles_of_step_error (hsucceeds.failure_eq_none hf) he).2.1
    refine ⟨hsucceeds, hresult, hend, ?_⟩
    rw [← hmachine, ← stepped_succ]
    exact congrArg machine hend
  · intro i hpos hi
    exact inactive_of_not_stopsAt hf hbefore hpos hi
  · intro hok
    have hcycles : (s.run limit withBar).session.machine.cycles =
        (s.stepped (s.turns stayed limit.toNat).length).machine.cycles :=
      congrArg (fun t => t.machine.cycles) hsession
    rw [hcycles, cycles_stepped hf hbefore hok]
    by_cases hpos : 1 ≤ (s.turns stayed limit.toNat).length
    · have hb : s.blocked = false := Bool.eq_false_iff.mpr fun hb =>
        hbefore 0 hpos (Or.inr (Or.inl hb))
      simp only [latched_iff_active hs hb]
    · simp only [hpos, false_and, ite_false]

/-- The last step of a run that succeeded has idled. -/
def IdlesLast (s : Session) (finished : Run) : Prop :=
  ∃ count, finished.result = .ok (count + 1) ∧ (s.stepped count).Idles

/-- A run with a larger budget ends as one with a smaller budget that fails, and goes on where that
one has ended otherwise, unless its last step idled. -/
theorem runFrom_split (bar : Option (Bar Empty)) (more : Nat)
    (hidle : ∀ count, (s.runFrom bar executed budget).result = .ok (executed + (count + 1)) →
      ¬ (s.stepped count).Idles) :
    (∀ failure, (s.runFrom bar executed budget).result = .error failure →
      s.runFrom bar executed (budget + more) = s.runFrom bar executed budget) ∧
    ∀ total, (s.runFrom bar executed budget).result = .ok total →
      s.runFrom bar executed (budget + more) =
        (s.runFrom bar executed budget).session.runFrom (s.runFrom bar executed budget).bar total
          more := by
  induction s, budget using loop_induction generalizing bar executed with
  | stuck s budget hstuck =>
    rw [runFrom_of_stuck hstuck]
    refine ⟨nofun, fun total htotal => ?_⟩
    obtain rfl : executed = total := Except.ok.inj htotal
    rcases hstuck with rfl | hb
    · rw [Nat.zero_add]
    · rw [runFrom_of_blocked hb, runFrom_of_blocked hb]
  | failed s budget first hb hs =>
    rw [Nat.add_right_comm, runFrom_of_step_error hb hs, runFrom_of_step_error hb hs]
    exact ⟨fun _ _ => rfl, nofun⟩
  | went s budget touched hb hs ih =>
    rw [Nat.add_right_comm]
    cases hm : stayed s s.step.2 with
    | true =>
      rw [runFrom_of_stayed hb hs hm] at hidle
      exact absurd (stayed_iff_idles.mp hm) (hidle 0 rfl)
    | false =>
      rw [runFrom_of_moved hb hs hm] at hidle ⊢
      rw [runFrom_of_moved hb hs hm]
      refine ih _ fun count hcount => hidle (count + 1) ?_
      rw [hcount]
      congr 1
      omega

/-- A run of a session that has failed does nothing. -/
theorem runFrom_of_failure {report : Report} (h : s.failure = some report) :
    (s.runFrom bar executed budget).session = s := by
  cases budget with
  | zero => rfl
  | succ budget =>
    cases hb : s.blocked with
    | true => rw [runFrom_of_blocked hb]
    | false => rw [runFrom_of_step_error hb (step_of_failure h)]

/-- A run that fails ends the session. -/
theorem failure_of_runFrom_error (hf : s.failure = none)
    (h : (s.runFrom bar executed budget).result = .error failure) :
    ∃ report, (s.runFrom bar executed budget).session.failure = some report := by
  induction s, budget using loop_induction generalizing bar executed with
  | stuck s budget hstuck =>
    rw [runFrom_of_stuck hstuck] at h
    cases h
  | failed s budget first hb hs =>
    rw [runFrom_of_step_error hb hs]
    exact (idles_of_step_error hf (congrArg Prod.fst hs)).2.2
  | went s budget touched hb hs ih =>
    cases hm : stayed s s.step.2 with
    | true =>
      rw [runFrom_of_stayed hb hs hm] at h
      cases h
    | false =>
      rw [runFrom_of_moved hb hs hm] at h ⊢
      exact ih (failure_of_step_ok (congrArg Prod.fst hs)) h

/-- Two runs of at most `first` and `second` steps amount to one of at most so many together, unless
the first ended because its last step idled. -/
theorem run_add (hf : s.failure = none) {first second : Int} (hfirst : 0 ≤ first)
    (hsecond : 0 ≤ second) (withBar₁ withBar₂ withBar : Bool)
    (hidle : ¬ s.IdlesLast (s.run first withBar₁)) :
    (s.run (first + second) withBar).result =
        (do
          let made ← (s.run first withBar₁).result
          let more ← ((s.run first withBar₁).session.run second withBar₂).result
          return made + more) ∧
      ∃ journal, ((s.run first withBar₁).session.run second withBar₂).session =
        { (s.run (first + second) withBar).session with journal } := by
  simp only [IdlesLast, run, Int.toNat_add hfirst hsecond] at hidle ⊢
  generalize (if withBar₁ then some (Bar.start first none []) else none) = bar at hidle ⊢
  generalize (if withBar₂ then some (Bar.start second none []) else none) = bar'
  generalize (if withBar then some (Bar.start (first + second) none []) else none) = bar''
  obtain ⟨hresult, entry, hsession⟩ := s.runFrom_add bar bar'' 0 0 (first.toNat + second.toNat)
  obtain ⟨herror, hok⟩ := runFrom_split bar second.toNat fun count hcount h =>
    hidle ⟨count, by rw [hcount, Nat.zero_add], h⟩
  rw [hresult, hsession]
  cases hr : (s.runFrom bar 0 first.toNat).result with
  | error failure =>
    obtain ⟨report, hreport⟩ := failure_of_runFrom_error hf hr
    rw [herror failure hr, runFrom_of_failure hreport, hr]
    exact ⟨rfl, _, rfl⟩
  | ok made =>
    have hlater := (s.runFrom bar 0 first.toNat).session.runFrom_add bar'
      (s.runFrom bar 0 first.toNat).bar 0 made second.toNat
    rw [Nat.zero_add] at hlater
    obtain ⟨hmore, entry', hlast⟩ := hlater
    rw [hok made hr, hmore, hlast]
    refine ⟨?_, _, rfl⟩
    cases ((s.runFrom bar 0 first.toNat).session.runFrom bar' 0 second.toNat).result with
    | error failure => rfl
    | ok more => exact congrArg Except.ok (Nat.add_comm more made)

/-- A run makes the least number of steps at which its limit is reached, a key is awaited or the last
step has idled, and it does what so many successive steps do, up to the first that fails. A run whose
last step has not idled is continued by another one as if it had not ended. -/
theorem run_makes_least_and_splits (hs : s.Reachable) (hf : s.failure = none) :
    (∀ (limit : Int) (withBar : Bool),
      ∃ count, IsLeast {i | s.StopsAt limit i} count ∧ s.Makes count (s.run limit withBar)) ∧
    ∀ first second : Int, 0 ≤ first → 0 ≤ second → ∀ withBar₁ withBar₂ withBar : Bool,
      ¬ s.IdlesLast (s.run first withBar₁) →
      (s.run (first + second) withBar).result =
          (do
            let made ← (s.run first withBar₁).result
            let more ← ((s.run first withBar₁).session.run second withBar₂).result
            return made + more) ∧
        ∃ journal, ((s.run first withBar₁).session.run second withBar₂).session =
          { (s.run (first + second) withBar).session with journal } := by
  constructor
  · intro limit withBar
    exact makes_run hs.sound hf limit withBar
  · intro first second hfirst hsecond withBar₁ withBar₂ withBar hidle
    exact run_add hf hfirst hsecond withBar₁ withBar₂ withBar hidle

/-- A program that sets a register and then jumps back to its start can be run one step first and
three steps then. -/
theorem run_one_then_three :
    ∃ s, s = (create (some [0x60, 0x2A, 0x12, 0x00]) .cosmac ⟨0, 0⟩ (.start "chip8" .warning)).2 ∧
      s.Reachable ∧ s.failure = none ∧ (s.run 1 false).result = .ok 1 ∧
      ¬ s.IdlesLast (s.run 1 false) ∧
      (∃ count, IsLeast {i | s.StopsAt 1 i} count ∧ s.Makes count (s.run 1 false)) ∧
      ∃ journal, ((s.run 1 false).session.run 3 false).session =
        { (s.run (1 + 3) false).session with journal } := by
  obtain ⟨s, hs⟩ : ∃ s, s = (create (some [0x60, 0x2A, 0x12, 0x00]) .cosmac ⟨0, 0⟩
    (.start "chip8" .warning)).2 := ⟨_, rfl⟩
  have hf : s.failure = none := hs ▸ failure_create _
  have hreachable : s.Reachable := ⟨_, _, _, _, [], hs⟩
  have hword : s.machine.memory.readWord s.machine.pc.toNat = .ok 0x602A :=
    hs ▸ readWord_create (by decide)
  obtain ⟨hpc, ha⟩ : s.machine.pc = 0x200 ∧ s.machine.wait.active = false := by
    rw [hs, machine_create (by decide)]
    exact ⟨rfl, rfl⟩
  have hc := Machine.cycle_eq_ok_iff.mpr ⟨0x602A, _, hword, rfl, rfl, rfl⟩
  obtain ⟨journal, he⟩ := step_of_cycle_ok hf ha hc
  have hmoved : ¬ s.Idles := by
    rintro ⟨-, -, hstays⟩
    rw [he] at hstays
    change s.machine.pc + 2 = s.machine.pc at hstays
    rw [hpc] at hstays
    exact absurd hstays (by decide)
  have hok : s.step = (.ok false, s.step.2) := Prod.ext (by rw [he]; rfl) rfl
  have hb : s.blocked = false := KeyWait.blocked_of_not_active ha
  have hrun : (s.run 1 false).result = .ok 1 := by
    have hstayed : stayed s s.step.2 = false :=
      Bool.eq_false_iff.mpr fun h => hmoved (stayed_iff_idles.mp h)
    have hfirst : s.runFrom none 0 1 = s.step.2.runFrom none 1 0 :=
      runFrom_of_moved hb hok hstayed
    exact congrArg Run.result hfirst
  have hidle : ¬ s.IdlesLast (s.run 1 false) := by
    rintro ⟨count, hcount, hidles⟩
    rw [hrun] at hcount
    obtain rfl : count = 0 := Nat.succ.inj (Except.ok.inj hcount).symm
    exact hmoved hidles
  obtain ⟨hmakes, hsplits⟩ := run_makes_least_and_splits hreachable hf
  obtain ⟨-, hsession⟩ := hsplits 1 3 (by decide) (by decide) false false false hidle
  exact ⟨s, hs, hreachable, hf, hrun, hidle, hmakes 1 false, hsession⟩

end Chip8.Session
