import Chip8.Proofs.Machine.Footprint
import Chip8.Proofs.Session.Batch
import Chip8.Proofs.Session.Trail
import Mathlib.Order.Nat

/-!
# Frames as batches of steps

A frame is a tick and then the least number of steps after which its budget is used up or a key is
awaited. It goes on while the program stays where it is, and the first step that fails ends it. What
it answers says whether one of its steps could have changed the screen, so that a host which redraws
only when it is told so shows what is on the screen.
-/

namespace Chip8

namespace Session

variable {s : Session} {changed : Bool} {budget count i : Nat} {limit : Int} {failure : Failure}

/-- A frame of at most `limit` steps has a reason to stop after `count` of them. -/
def Pauses (s : Session) (limit : Int) (count : Nat) : Prop :=
  limit ≤ count ∨ (s.stepped count).blocked = true

instance (s : Session) (limit : Int) : DecidablePred (s.Pauses limit) := fun count =>
  inferInstanceAs (Decidable (limit ≤ count ∨ (s.stepped count).blocked = true))

/-- Only a limit above zero keeps a frame going. -/
theorem pauses_toNat : s.Pauses limit.toNat count ↔ s.Pauses limit count := by
  unfold Pauses
  rw [show (limit.toNat : Int) ≤ count ↔ limit ≤ count by omega]

/-- What a frame finds after its first step is what a frame from there finds. -/
theorem pauses_succ : s.Pauses (budget + 1 : Nat) (count + 1) ↔ s.step.2.Pauses budget count := by
  unfold Pauses
  rw [show ((budget + 1 : Nat) : Int) ≤ (count + 1 : Nat) ↔ (budget : Int) ≤ count by omega]
  rfl

/-- Every frame stops. -/
theorem exists_isLeast_pauses (s : Session) (limit : Int) :
    ∃ count, IsLeast {i | s.Pauses limit i} count :=
  ⟨_, Nat.isLeast_find ⟨limit.toNat, Or.inl (Int.self_le_toNat limit)⟩⟩

/-- A frame that is stuck stops at once. -/
theorem eq_zero_of_stuck (h : s.Stuck budget) (hcount : IsLeast {i | s.Pauses budget i} count) :
    count = 0 := by
  have hzero : s.Pauses budget 0 := by
    rcases h with rfl | hb
    · exact Or.inl le_rfl
    · exact Or.inr hb
  exact Nat.le_zero.mp (hcount.2 hzero)

/-- A frame that is not blocked makes a step, and what is left of it is a frame. -/
theorem isLeast_pauses_succ (hb : s.blocked = false)
    (hcount : IsLeast {i | s.Pauses (budget + 1 : Nat) i} count) :
    ∃ rest, count = rest + 1 ∧ IsLeast {i | s.step.2.Pauses budget i} rest := by
  obtain ⟨hpauses, hleast⟩ := hcount
  cases count with
  | zero =>
    rcases hpauses with hlimit | hblocked
    · omega
    · rw [stepped, hb] at hblocked
      cases hblocked
  | succ rest =>
    refine ⟨rest, rfl, pauses_succ.mp hpauses, fun i hi => ?_⟩
    exact Nat.le_of_succ_le_succ (hleast (pauses_succ.mpr hi))

/-- The next step carries out an instruction that may change the screen. -/
def Repaints (s : Session) : Prop := ∃ i, s.Executes i ∧ (i.op = .clearScreen ∨ i.op = .draw)

/-- A step answers that the screen may have changed exactly if it carries out an instruction that
may change it. -/
theorem repaints_iff : s.Repaints ↔ s.step.1 = .ok true := by
  constructor
  · rintro ⟨i, hexecutes, hop⟩
    obtain ⟨next, journal, -, he⟩ := hexecutes.step_eq
    rw [he, Op.touchesScreen_iff.mpr hop]
  · intro h
    rcases s.step_cases with ⟨report, -, he⟩ | ⟨-, -, he⟩ | ⟨key, journal, -, -, -, he⟩ |
      ⟨op, machine, journal, hf, ha, hc, he⟩ | ⟨report, journal, -, -, -, he⟩
    · rw [he] at h
      cases h
    · rw [he] at h
      cases h
    · rw [he] at h
      cases h
    · rw [he] at h
      obtain ⟨word, next, hexecutes, -, -⟩ := executes_of_cycle hf ha hc
      exact ⟨_, hexecutes, Op.touchesScreen_iff.mp (Except.ok.inj h)⟩
    · rw [he] at h
      cases h

/-- What a frame has done that stops after `count` steps at the latest. -/
structure Plays (s : Session) (count : Nat) (finished : Except Failure Bool × Session) : Prop where
  /-- If all the steps succeed, the frame leaves what they leave and answers whether one of them has
  carried out an instruction that may change the screen. -/
  completes : s.Succeeds count → finished.2 = s.stepped count ∧
    ∃ touched, finished.1 = .ok touched ∧ (touched = true ↔ ∃ i < count, (s.stepped i).Repaints)
  /-- The first step that fails ends the frame, which fails with it and leaves the machine as the
  steps before it do. -/
  fails : ∀ i < count, s.Succeeds i → ∀ failure, (s.stepped i).step.1 = .error failure →
    finished.1 = .error failure ∧ finished.2 = s.stepped (i + 1) ∧
      finished.2.machine = (s.stepped i).machine

/-- A frame whose steps all succeed. -/
theorem stepUpTo_of_succeeds (changed : Bool) (hcount : IsLeast {i | s.Pauses budget i} count)
    (hok : s.Succeeds count) :
    ∃ touched, s.stepUpTo changed budget = (.ok touched, s.stepped count) ∧
      (touched = true ↔ changed = true ∨ ∃ i < count, (s.stepped i).Repaints) := by
  induction s, budget using loop_induction generalizing changed count with
  | stuck s budget hstuck =>
    obtain rfl := eq_zero_of_stuck hstuck hcount
    exact ⟨changed, stepUpTo_of_stuck hstuck, by simp⟩
  | failed s budget failure hb hs =>
    obtain ⟨rest, rfl, -⟩ := isLeast_pauses_succ hb hcount
    obtain ⟨touched, hfirst⟩ := hok 0 (Nat.succ_pos rest)
    rw [stepped, hs] at hfirst
    cases hfirst
  | went s budget first hb hs ih =>
    obtain ⟨rest, rfl, hrest⟩ := isLeast_pauses_succ hb hcount
    obtain ⟨touched, he, htouched⟩ := ih (changed || first) hrest
      fun i hi => hok (i + 1) (Nat.succ_lt_succ hi)
    refine ⟨touched, (stepUpTo_of_step_ok hb hs).trans he, ?_⟩
    have hfirst : first = true ↔ s.Repaints := by
      rw [repaints_iff, hs, Except.ok.injEq]
    rw [htouched, Bool.or_eq_true, hfirst, or_assoc]
    refine or_congr_right ⟨?_, ?_⟩
    · rintro (h | ⟨i, hi, h⟩)
      · exact ⟨0, Nat.succ_pos rest, h⟩
      · exact ⟨i + 1, Nat.succ_lt_succ hi, h⟩
    · rintro ⟨i, hi, h⟩
      cases i with
      | zero => exact Or.inl h
      | succ i => exact Or.inr ⟨i, Nat.lt_of_succ_lt_succ hi, h⟩

/-- The first step of a frame that fails ends it. -/
theorem stepUpTo_of_fails (changed : Bool) (hcount : IsLeast {i | s.Pauses budget i} count)
    (hi : i < count) (hok : s.Succeeds i) (he : (s.stepped i).step.1 = .error failure) :
    s.stepUpTo changed budget = (.error failure, s.stepped (i + 1)) := by
  induction s, budget using loop_induction generalizing changed count i with
  | stuck s budget hstuck =>
    rw [eq_zero_of_stuck hstuck hcount] at hi
    cases hi
  | failed s budget first hb hs =>
    cases i with
    | zero =>
      rw [stepped, hs] at he
      cases he
      exact stepUpTo_of_step_error hb hs
    | succ i =>
      obtain ⟨touched, hfirst⟩ := hok 0 (Nat.succ_pos i)
      rw [stepped, hs] at hfirst
      cases hfirst
  | went s budget first hb hs ih =>
    obtain ⟨rest, rfl, hrest⟩ := isLeast_pauses_succ hb hcount
    cases i with
    | zero =>
      rw [stepped, hs] at he
      cases he
    | succ i =>
      rw [stepUpTo_of_step_ok hb hs]
      exact ih _ hrest (Nat.lt_of_succ_lt_succ hi) (fun j hj => hok (j + 1) (Nat.succ_lt_succ hj)) he

/-- A step that fails leaves the machine alone. -/
theorem machine_of_step_error (he : s.step.1 = .error failure) : s.step.2.machine = s.machine := by
  cases hf : s.failure with
  | none => exact (idles_of_step_error hf he).2.1
  | some report => rw [step_of_failure hf]

/-- A frame makes the least number of steps after which it has a reason to stop. -/
theorem plays_frame (s : Session) (limit : Int) :
    ∃ count, IsLeast {i | s.tick.Pauses limit i} count ∧ s.tick.Plays count (s.frame limit) := by
  obtain ⟨count, hcount⟩ := s.tick.exists_isLeast_pauses limit
  have hbudget : IsLeast {i | s.tick.Pauses limit.toNat i} count := by
    simp only [pauses_toNat]
    exact hcount
  refine ⟨count, hcount, fun hok => ?_, fun i hi hok failure he => ?_⟩
  · obtain ⟨touched, hframe, htouched⟩ := stepUpTo_of_succeeds false hbudget hok
    rw [frame, hframe]
    exact ⟨rfl, touched, rfl, htouched.trans (by simp)⟩
  · have hframe := stepUpTo_of_fails false hbudget hi hok he
    rw [frame, hframe]
    refine ⟨rfl, rfl, ?_⟩
    rw [stepped_succ]
    exact machine_of_step_error he

/-- A step that reports no change leaves the screen as it was. -/
theorem screen_of_step (h : s.step.1 = .ok false) :
    s.step.2.machine.screen = s.machine.screen := by
  by_cases hexecutes : ∃ i, s.Executes i
  · obtain ⟨i, hi⟩ := hexecutes
    obtain ⟨next, journal, hnext, he⟩ := hi.step_eq
    rw [he] at h ⊢
    exact (Machine.frame_of_perform hnext).screen (Except.ok.inj h)
  · obtain ⟨registers, pc, wait, he⟩ := machine_step_of_not_executes (not_exists.mp hexecutes)
    rw [he]

/-- Steps that report no change leave the screen as it was. -/
theorem screen_stepUpTo (h : (s.stepUpTo changed budget).1 = .ok false) :
    changed = false ∧ (s.stepUpTo changed budget).2.machine.screen = s.machine.screen := by
  induction s, budget using loop_induction generalizing changed with
  | stuck s budget hstuck =>
    rw [stepUpTo_of_stuck hstuck] at h ⊢
    exact ⟨Except.ok.inj h, rfl⟩
  | failed s budget failure hb hs =>
    rw [stepUpTo_of_step_error hb hs] at h
    cases h
  | went s budget first hb hs ih =>
    rw [stepUpTo_of_step_ok hb hs] at h ⊢
    obtain ⟨hflags, hscreen⟩ := ih h
    obtain ⟨hchanged, hfirst⟩ := Bool.or_eq_false_iff.mp hflags
    refine ⟨hchanged, hscreen.trans (screen_of_step ?_)⟩
    rw [hs, hfirst]

/-- A frame that reports no change leaves the screen as it was. -/
theorem screen_frame (h : (s.frame limit).1 = .ok false) :
    (s.frame limit).2.machine.screen = s.machine.screen :=
  (screen_stepUpTo h).2

/-- A request that tells its host whether the screen may have changed, or cannot change it. -/
def Reports (s : Session) : Request → Prop
  | .step | .tick | .key _ _ => True
  | .frame count => ∃ touched, (s.frame count).1 = .ok touched
  | .run _ _ | .load _ | .reset => False

/-- Every request of a history tells its host about the screen. -/
def AllReport : Session → List Request → Prop
  | _, [] => True
  | s, request :: rest => s.Reports request ∧ (s.perform request).session.AllReport rest

/-- What a host shows after a request that redraws only when it is told that the screen may have
changed. -/
def redrawn (s : Session) (shown : Screen) (request : Request) : Screen :=
  match (s.perform request).answer with
  | .ok (.changed true) => (s.perform request).session.machine.screen
  | _ => shown

/-- What such a host shows after a history. -/
def picture (s : Session) (shown : Screen) : List Request → Screen
  | [] => shown
  | request :: rest => (s.perform request).session.picture (s.redrawn shown request) rest

/-- A host that shows the screen goes on to show it. -/
theorem redrawn_eq_screen {request : Request} (h : s.Reports request) :
    s.redrawn s.machine.screen request = (s.perform request).session.machine.screen := by
  cases request with
  | step =>
    rcases hs : s.step.1 with failure | touched
    · have hmachine := machine_of_step_error hs
      simp only [redrawn, perform, respond, hs, Except.map, hmachine]
    · cases touched with
      | true => simp only [redrawn, perform, respond, hs, Except.map]
      | false =>
        have hscreen := screen_of_step hs
        simp only [redrawn, perform, respond, hs, Except.map, hscreen]
  | frame count =>
    obtain ⟨touched, hs⟩ := h
    cases touched with
    | true => simp only [redrawn, perform, respond, hs, Except.map]
    | false =>
      have hscreen := screen_frame hs
      simp only [redrawn, perform, respond, hs, Except.map, hscreen]
  | tick => rfl
  | key number isDown =>
    have hscreen := s.screen_setKey number isDown
    cases hs : (s.setKey number isDown).1 with
    | error failure => simp only [redrawn, perform, respond, hs, Except.map, hscreen]
    | ok => simp only [redrawn, perform, respond, hs, Except.map, hscreen]
  | run | load | reset => exact h.elim

/-- A host that redraws only when it is told so shows the screen at all times. -/
theorem picture_eq_screen {history : List Request} (h : s.AllReport history) :
    s.picture s.machine.screen history = (s.after history).machine.screen := by
  induction history generalizing s with
  | nil => rfl
  | cons request rest ih =>
    obtain ⟨hreports, hrest⟩ := h
    rw [picture, redrawn_eq_screen hreports]
    exact ih hrest

/-- A frame is a tick and then the least number of steps after which its budget is used up or a key is
awaited, up to the first that fails, and it answers whether one of them may have changed the screen.
A step or a frame that answers no has left the screen as it was, so that a host which redraws only
when the answer is yes shows what is on the screen. -/
theorem frame_plays_steps (s : Session) :
    (∀ limit : Int, ∃ count, IsLeast {i | s.tick.Pauses limit i} count ∧
      s.tick.Plays count (s.frame limit)) ∧
    (s.step.1 = .ok false → s.step.2.machine.screen = s.machine.screen) ∧
    (∀ limit : Int, (s.frame limit).1 = .ok false →
      (s.frame limit).2.machine.screen = s.machine.screen) ∧
    ∀ history, s.AllReport history →
      s.picture s.machine.screen history = (s.after history).machine.screen := by
  refine ⟨s.plays_frame, ?_, ?_, ?_⟩
  · exact screen_of_step
  · intro limit h
    exact screen_frame h
  · intro history h
    exact picture_eq_screen h

/-- A frame of one step that clears the screen says that the screen may have changed. -/
theorem frame_of_one_clears :
    ∃ s, s = (create (some [0x00, 0xE0]) .cosmac ⟨0, 0⟩ (.start "chip8" .warning)).2 ∧
      IsLeast {i | s.tick.Pauses 1 i} 1 ∧ s.tick.Succeeds 1 ∧
      s.frame 1 = (.ok true, s.tick.stepped 1) := by
  obtain ⟨s, hs⟩ : ∃ s, s = (create (some [0x00, 0xE0]) .cosmac ⟨0, 0⟩
    (.start "chip8" .warning)).2 := ⟨_, rfl⟩
  have hf : s.tick.failure = none := hs ▸ failure_create _
  have ha : s.tick.machine.wait.active = false := by
    change s.machine.wait.active = false
    rw [hs, machine_create (by decide)]
    rfl
  have hword : s.tick.machine.memory.readWord s.tick.machine.pc.toNat = .ok 0x00E0 := by
    change s.machine.memory.readWord s.machine.pc.toNat = _
    rw [hs]
    exact readWord_create (by decide)
  have hc := Machine.cycle_eq_ok_iff.mpr ⟨0x00E0, _, hword, rfl, rfl, rfl⟩
  have hstep : s.tick.step.1 = .ok true := by
    obtain ⟨journal, he⟩ := step_of_cycle_ok hf ha hc
    rw [he]
    rfl
  have hok : s.tick.Succeeds 1 := by
    intro i hi
    obtain rfl := Nat.lt_one_iff.mp hi
    exact ⟨true, hstep⟩
  obtain ⟨hframes, -⟩ := frame_plays_steps s
  obtain ⟨count, hcount, hplays⟩ := hframes 1
  have hb : s.tick.blocked = false := KeyWait.blocked_of_not_active ha
  have hbudget : IsLeast {i | s.tick.Pauses (0 + 1 : Nat) i} count := hcount
  obtain ⟨rest, rfl, hrest⟩ := isLeast_pauses_succ hb hbudget
  obtain rfl := eq_zero_of_stuck (Or.inl rfl) hrest
  obtain ⟨hsession, touched, hanswer, htouched⟩ := hplays.completes hok
  have hrepaints : touched = true := htouched.mpr ⟨0, Nat.one_pos, repaints_iff.mpr hstep⟩
  refine ⟨s, hs, hcount, hok, Prod.ext ?_ hsession⟩
  rw [hanswer, hrepaints]

end Session

end Chip8
