import Chip8.Proofs.Session.Batch
import Mathlib.Algebra.Ring.Int.Defs

/-!
# Progress of runs

A run that moves a bar does what the same run does without one. Its bar is moved by one for every
step that returned and closed once, after all its moves, however the run ends: at its limit, at a
key wait, with a step that idles, with an instruction that fails or with the refusal to step at all.
-/

namespace Chip8

namespace Bar

variable {α : Type} {b : Bar α} {count : Nat}

/-- A bar after a number of steps that were shown one by one. -/
def shown (b : Bar α) : Nat → Bar α
  | 0 => b
  | count + 1 => (b.move 1).shown count

/-- A bar to which no step was shown is as it was. -/
theorem map_shown_zero (bar : Option (Bar α)) : bar.map (·.shown 0) = bar :=
  Option.map_id'

@[simp] theorem total_shown : (b.shown count).total = b.total := by
  induction count generalizing b with
  | zero => rfl
  | succ count ih => exact ih

/-- Steps that are shown one by one are as many moves by one. -/
theorem toList_events_shown :
    (b.shown count).events.toList = b.events.toList ++ List.replicate count (.moved 1) := by
  induction count generalizing b with
  | zero => exact (List.append_nil _).symm
  | succ count ih =>
    rw [shown, ih, move, Array.toList_push, List.append_assoc, List.singleton_append,
      List.replicate_succ]

/-- A bar is moved by as much altogether as steps were shown. -/
theorem sum_moves_shown : (b.shown count).moves.sum = b.moves.sum + count := by
  induction count generalizing b with
  | zero => exact (Int.add_zero _).symm
  | succ count ih =>
    rw [shown, ih, moves_move, List.sum_append, List.sum_singleton]
    omega

end Bar

namespace Session

variable {s t : Session} {executed budget count : Nat} {limit : Int} {failure : Failure}
variable {result : Except Failure Nat}

/-- A run of at most `limit` steps goes no further after `count` of them: it has a reason to stop,
or the next step fails. -/
def Finishes (s : Session) (limit : Int) (count : Nat) : Prop :=
  s.StopsAt limit count ∨ ∃ failure, (s.stepped count).step.1 = .error failure

/-- The ways in which a run of at most `limit` steps ends that had counted `executed` steps before
and makes `count` steps that return. -/
inductive Ends (s : Session) (limit : Int) (executed count : Nat) :
    Except Failure Nat → Session → Prop
  /-- The limit is reached. -/
  | atLimit (h : limit ≤ count) :
    Ends s limit executed count (.ok (executed + count)) (s.stepped count)
  /-- A key is awaited. -/
  | blocked (h : (s.stepped count).blocked = true) :
    Ends s limit executed count (.ok (executed + count)) (s.stepped count)
  /-- The last step has idled, which the journal notes. -/
  | idle {earlier : Nat} (hcount : count = earlier + 1) (h : (s.stepped earlier).Idles) :
    Ends s limit executed count (.ok (executed + count))
      ((s.stepped count).noteIdle (s.stepped earlier).machine.pc (executed + count))
  /-- The next instruction fails. -/
  | failed {report : Report} (h : (s.stepped count).step.1 = .error (.execution report)) :
    Ends s limit executed count (.error (.execution report)) (s.stepped (count + 1))
  /-- The session has failed before and refuses to step. -/
  | refused {report : Report} (h : (s.stepped count).failure = some report) :
    Ends s limit executed count (.error (.refusal report)) (s.stepped count)

/-- A step fails because the session has failed before, or with a report of the failed
instruction. -/
theorem failure_of_step_error (he : s.step.1 = .error failure) :
    (∃ report, s.failure = some report ∧ failure = .refusal report ∧ s.step.2 = s) ∨
      ∃ report, failure = .execution report := by
  rcases s.step_cases with ⟨report, hf, hs⟩ | ⟨-, -, hs⟩ | ⟨key, journal, -, -, -, hs⟩ |
    ⟨op, machine, journal, -, -, -, hs⟩ | ⟨report, journal, -, -, -, hs⟩
  all_goals rw [hs] at he
  · cases he
    exact Or.inl ⟨report, hf, rfl, by rw [hs]⟩
  · cases he
  · cases he
  · cases he
  · cases he
    exact Or.inr ⟨report, rfl⟩

/-- A run that ends with the step after the ones it makes fails as that step does. -/
theorem ends_of_step_error (he : (s.stepped count).step.1 = .error failure) :
    s.Ends limit executed count (.error failure) (s.stepped (count + 1)) := by
  rw [stepped_succ]
  rcases failure_of_step_error he with ⟨report, hf, rfl, hs⟩ | ⟨report, rfl⟩
  · rw [hs]
    exact .refused hf
  · rw [← stepped_succ]
    exact .failed he

/-- A run that makes a first step ends as the rest of it does. -/
theorem Ends.of_step (h : s.step.2.Ends budget (executed + 1) count result t) :
    s.Ends (budget + 1 : Nat) executed (count + 1) result t := by
  have hcount : executed + 1 + count = executed + (count + 1) := Nat.succ_add_eq_add_succ _ _
  have hend : ∀ count, s.step.2.stepped count = s.stepped (count + 1) := fun _ => rfl
  cases h with
  | atLimit h =>
    rw [hcount, hend]
    exact .atLimit (by omega)
  | blocked h =>
    rw [hcount, hend]
    exact .blocked h
  | idle hprevious h =>
    rw [hcount, hend, hend]
    exact .idle (congrArg Nat.succ hprevious) h
  | failed h =>
    rw [hend]
    exact .failed h
  | refused h =>
    rw [hend]
    exact .refused h

/-- A run that is not blocked goes on if its first step returns. -/
theorem not_finishes_zero {touched : Bool} (hb : s.blocked = false) (hs : s.step.1 = .ok touched) :
    ¬ s.Finishes (budget + 1 : Nat) 0 := by
  rintro (hstop | ⟨failure, he⟩)
  · exact not_stopsAt_zero hb hstop
  · rw [stepped, hs] at he
    cases he

/-- A run that neither is blocked nor ends with its first step finishes one step later than the rest
of it. -/
theorem isLeast_finishes_succ {touched : Bool} (hb : s.blocked = false)
    (hs : s.step.1 = .ok touched) (hmoved : ¬ s.Idles)
    (h : IsLeast {i | s.step.2.Finishes budget i} count) :
    IsLeast {i | s.Finishes (budget + 1 : Nat) i} (count + 1) := by
  obtain ⟨hfinishes, hleast⟩ := h
  constructor
  · exact hfinishes.imp_left fun hstop => stopsAt_succ.mpr (Or.inl hstop)
  · intro i hi
    cases i with
    | zero => exact absurd hi (not_finishes_zero hb hs)
    | succ i =>
      refine Nat.succ_le_succ (hleast ?_)
      rcases hi with hstop | he
      · rcases stopsAt_succ.mp hstop with hlater | ⟨-, hidles⟩
        · exact Or.inl hlater
        · exact absurd hidles hmoved
      · exact Or.inr he

/-- A run finishes in one of its ways with the least number of steps after which it goes no further.
Whether it has a bar makes no difference to that; a bar shows exactly these steps. -/
theorem runFrom_ends (s : Session) (executed budget : Nat) :
    ∃ count, IsLeast {i | s.Finishes budget i} count ∧
      ∃ result t, s.Ends budget executed count result t ∧
        ∀ bar, s.runFrom bar executed budget = ⟨result, t, bar.map (·.shown count)⟩ := by
  induction s, budget using loop_induction generalizing executed with
  | stuck s budget hstuck =>
    obtain ⟨hstop, hends⟩ : s.StopsAt budget 0 ∧ s.Ends budget executed 0 (.ok executed) s := by
      rcases hstuck with rfl | hb
      · exact ⟨Or.inl le_rfl, .atLimit le_rfl⟩
      · exact ⟨Or.inr (Or.inl hb), .blocked hb⟩
    refine ⟨0, ⟨Or.inl hstop, fun i _ => Nat.zero_le i⟩, _, _, hends, fun bar => ?_⟩
    rw [runFrom_of_stuck hstuck, Bar.map_shown_zero]
  | failed s budget failure hb hs =>
    have he : (s.stepped 0).step.1 = .error failure := congrArg Prod.fst hs
    refine ⟨0, ⟨Or.inr ⟨failure, he⟩, fun i _ => Nat.zero_le i⟩, _, _, ends_of_step_error he,
      fun bar => ?_⟩
    rw [runFrom_of_step_error hb hs, Bar.map_shown_zero]
    rfl
  | went s budget touched hb hs ih =>
    have hok : s.step.1 = .ok touched := congrArg Prod.fst hs
    cases hm : stayed s s.step.2 with
    | true =>
      have hidles := stayed_iff_idles.mp hm
      refine ⟨1, ⟨Or.inl (stopsAt_succ.mpr (Or.inr ⟨rfl, hidles⟩)), fun i hi => ?_⟩, _, _,
        .idle rfl hidles, fun bar => ?_⟩
      · exact Nat.one_le_iff_ne_zero.mpr fun h0 => not_finishes_zero hb hok (h0 ▸ hi)
      · rw [runFrom_of_stayed hb hs hm]
        rfl
    | false =>
      have hmoved : ¬ s.Idles := fun h => by
        rw [stayed_iff_idles.mpr h] at hm
        cases hm
      obtain ⟨count, hleast, result, t, hends, hrun⟩ := ih (executed + 1)
      refine ⟨count + 1, isLeast_finishes_succ hb hok hmoved hleast, result, t, hends.of_step,
        fun bar => ?_⟩
      rw [runFrom_of_moved hb hs hm, hrun, Option.map_map]
      rfl

/-- Only a limit above zero keeps a run going. -/
theorem finishes_toNat : s.Finishes limit.toNat count ↔ s.Finishes limit count :=
  or_congr_left stopsAt_toNat

/-- A run with a limit below zero ends like one with the limit zero. -/
theorem Ends.of_toNat (h : s.Ends limit.toNat executed count result t) :
    s.Ends limit executed count result t := by
  cases h with
  | atLimit h => exact .atLimit (by omega)
  | blocked h => exact .blocked h
  | idle hcount h => exact .idle hcount h
  | failed h => exact .failed h
  | refused h => exact .refused h

/-- A run that answers does so with the number of steps it has counted. -/
theorem Ends.answer {answer : Nat} (h : s.Ends limit executed count (.ok answer) t) :
    answer = executed + count := by
  cases h with
  | atLimit h => rfl
  | blocked h => rfl
  | idle hcount h => rfl

/-- Steps that come before the end of a run all return. -/
theorem succeeds_of_isLeast (h : IsLeast {i | s.Finishes limit i} count) : s.Succeeds count := by
  intro i hi
  rcases hs : (s.stepped i).step.1 with failure | touched
  · exact absurd (h.2 (Or.inr ⟨failure, hs⟩)) (Nat.not_le.mpr hi)
  · exact ⟨touched, rfl⟩

/-- A run that shows a bar ends as the run without one, with the same answer or failure and the same
session. It makes the least number of steps after which it goes no further, all of which return, and
its bar has the limit as its total, is moved by one for each of these steps and is closed once, at
the end. -/
theorem run_shows_progress (s : Session) (limit : Int) :
    ∃ count bar, IsLeast {i | s.Finishes limit i} count ∧ s.Succeeds count ∧
      s.Ends limit 0 count (s.run limit false).result (s.run limit false).session ∧
      (s.run limit false).bar = none ∧
      s.run limit true = { s.run limit false with bar := some bar } ∧
      bar.total = limit ∧
      bar.events.toList = List.replicate count (.moved 1) ++ [.closed] ∧
      bar.moves.sum = count ∧
      ∀ answer, (s.run limit false).result = .ok answer → bar.moves.sum = answer := by
  obtain ⟨count, hleast, result, t, hends, hrun⟩ := s.runFrom_ends 0 limit.toNat
  simp only [finishes_toNat] at hleast
  have hplain : s.run limit false = ⟨result, t, none⟩ := by simp [run, hrun]
  have hshown : s.run limit true =
      ⟨result, t, some ((Bar.start limit none []).shown count).close⟩ := by simp [run, hrun]
  have hsum : ((Bar.start limit none []).shown count : Bar Empty).close.moves.sum = count := by
    rw [Bar.moves_close, Bar.sum_moves_shown, Bar.moves_start, List.sum_nil, Int.zero_add]
  rw [hplain, hshown]
  refine ⟨count, _, hleast, succeeds_of_isLeast hleast, hends.of_toNat, rfl, rfl, ?_, ?_, hsum,
    fun answer hanswer => ?_⟩
  · exact Bar.total_shown
  · rw [Bar.close, Array.toList_push, Bar.toList_events_shown]
    rfl
  · change result = .ok answer at hanswer
    rw [hanswer] at hends
    rw [hsum, hends.answer, Nat.zero_add]

end Session

end Chip8
