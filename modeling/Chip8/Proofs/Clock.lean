import Chip8.Clock
import Mathlib.Data.Rat.Floor
import Mathlib.Tactic.Linarith
import Mathlib.Tactic.NormNum

/-!
# Ticks of a clock in exact arithmetic

A clock that is asked at any times in order keeps the time of its last tick at a whole number of
intervals after its start, less than one interval before the question. Hence the ticks that it has
counted at some time depend on that time alone and not on the questions before it: none is lost and
none is invented.
-/

namespace Chip8.Clock

section

variable {τ ι : Type} [Timeline τ ι]

/-- The answers of a clock that is asked at several times in turn. -/
def answers (c : Clock τ ι) : List τ → List (Except NumberRefusal Int)
  | [] => []
  | now :: later => (c.due now).1 :: (c.due now).2.answers later

/-- A clock that was asked at several times in turn. -/
def asked (c : Clock τ ι) : List τ → Clock τ ι
  | [] => c
  | now :: later => (c.due now).2.asked later

@[simp] theorem length_answers (c : Clock τ ι) (times : List τ) :
    (c.answers times).length = times.length := by
  induction times generalizing c with
  | nil => rfl
  | cons now later ih => exact congrArg Nat.succ (ih (c.due now).2)

end

variable {c : Clock Rat Rat} {rate start last now later : Rat} {total : Int} {times : List Rat}

/-- An exact clock that is not asked about the past answers with the whole intervals since its last
tick and moves on by as many. -/
theorem due_eq (hlast : c.last = some last) (hpos : 0 < c.interval) (hle : last ≤ now) :
    c.due now = (.ok ⌊(now - last) / c.interval⌋,
      { c with last := some (last + ⌊(now - last) / c.interval⌋ * c.interval) }) := by
  have hintervals : Timeline.wholeIntervals now last c.interval =
      .ok ⌊(now - last) / c.interval⌋ := rfl
  have hnonneg : 0 ≤ ⌊(now - last) / c.interval⌋ :=
    Int.floor_nonneg.mpr (div_nonneg (sub_nonneg.mpr hle) hpos.le)
  simp only [due, hlast, hintervals]
  split
  · rfl
  · next hticks =>
    have hzero : ⌊(now - last) / c.interval⌋ = 0 := le_antisymm (not_lt.mp hticks) hnonneg
    rw [hzero, Int.cast_zero, zero_mul, add_zero, ← hlast]

/-- A clock has counted its ticks since a start up to the time of a question: the last of them was a
whole number of intervals after the start, and the next one is still to come. -/
structure Counted (c : Clock Rat Rat) (start : Rat) (total : Int) (now : Rat) : Prop where
  last : c.last = some (start + total * c.interval)
  last_le : start + total * c.interval ≤ now
  lt_next : now < start + total * c.interval + c.interval

/-- The ticks that a clock has counted are the whole intervals since its start. -/
theorem Counted.total_eq (hc : c.Counted start total now) (hpos : 0 < c.interval) :
    total = ⌊(now - start) / c.interval⌋ := by
  refine (Int.floor_eq_iff.mpr ⟨?_, ?_⟩).symm
  · rw [le_div_iff₀ hpos]
    linarith [hc.last_le]
  · rw [div_lt_iff₀ hpos]
    linarith [hc.lt_next]

/-- A clock that has just been started has counted nothing. -/
theorem counted_start (hpos : 0 < c.interval) (hlast : c.last = some start) :
    c.Counted start 0 start where
  last := by rw [hlast, Int.cast_zero, zero_mul, add_zero]
  last_le := by rw [Int.cast_zero, zero_mul, add_zero]
  lt_next := by
    rw [Int.cast_zero, zero_mul, add_zero]
    exact lt_add_of_pos_right start hpos

/-- A question at a later time counts the ticks that are missing and leaves the interval alone. -/
theorem Counted.due (hc : c.Counted start total now) (hpos : 0 < c.interval) (hle : now ≤ later) :
    ∃ ticks, (c.due later).1 = .ok ticks ∧ 0 ≤ ticks ∧ (c.due later).2.interval = c.interval ∧
      (c.due later).2.Counted start (total + ticks) later := by
  have hpast : start + total * c.interval ≤ later := hc.last_le.trans hle
  rw [due_eq hc.last hpos hpast]
  generalize hq : (later - (start + total * c.interval)) / c.interval = quotient
  have hlow : ⌊quotient⌋ * c.interval ≤ later - (start + total * c.interval) := by
    rw [← le_div_iff₀ hpos, hq]
    exact Int.floor_le quotient
  have hhigh : later - (start + total * c.interval) < (⌊quotient⌋ + 1) * c.interval := by
    rw [← div_lt_iff₀ hpos, hq]
    exact Int.lt_floor_add_one quotient
  have hnonneg : 0 ≤ ⌊quotient⌋ := by
    rw [← hq]
    exact Int.floor_nonneg.mpr (div_nonneg (sub_nonneg.mpr hpast) hpos.le)
  have hmoved : start + ((total + ⌊quotient⌋ : Int) : Rat) * c.interval =
      start + total * c.interval + ⌊quotient⌋ * c.interval := by
    rw [Int.cast_add, add_mul, add_assoc]
  refine ⟨⌊quotient⌋, rfl, hnonneg, rfl, ?_, ?_, ?_⟩
  · rw [hmoved]
  · rw [hmoved]
    linarith
  · rw [hmoved]
    linarith

/-- Questions at times in order are all answered, each with the ticks since the one before. -/
theorem Counted.asked (hc : c.Counted start total now) (hpos : 0 < c.interval)
    (hordered : (now :: times).IsChain (· ≤ ·)) :
    ∃ counts : List Int, c.answers times = counts.map .ok ∧ (∀ ticks ∈ counts, 0 ≤ ticks) ∧
      ∀ i time, (now :: times)[i]? = some time →
        (c.asked (times.take i)).interval = c.interval ∧
        (c.asked (times.take i)).Counted start (total + (counts.take i).sum) time := by
  induction times generalizing c now total with
  | nil =>
    refine ⟨[], rfl, nofun, fun i time htime => ?_⟩
    cases i with
    | zero =>
      obtain rfl : now = time := Option.some.inj htime
      exact ⟨rfl, by simpa [asked] using hc⟩
    | succ i => simp at htime
  | cons later times ih =>
    obtain ⟨hle, hrest⟩ := List.isChain_cons_cons.mp hordered
    obtain ⟨ticks, hticks, hnonneg, hinterval, hnext⟩ := hc.due hpos hle
    obtain ⟨counts, hanswers, hcounts, hasked⟩ := ih hnext (hinterval ▸ hpos) hrest
    refine ⟨ticks :: counts, ?_, List.forall_mem_cons.mpr ⟨hnonneg, hcounts⟩,
      fun i time htime => ?_⟩
    · rw [answers, hticks, hanswers, List.map_cons]
    · cases i with
      | zero =>
        obtain rfl : now = time := Option.some.inj htime
        exact ⟨rfl, by simpa [asked] using hc⟩
      | succ i =>
        obtain ⟨hsame, hcounted⟩ := hasked i time htime
        refine ⟨hsame.trans hinterval, ?_⟩
        simp only [List.take_succ_cons, List.sum_cons, ← add_assoc, Clock.asked]
        exact hcounted

/-- A started clock that is asked at times in order counts as many ticks altogether as whole
intervals pass between its start and the last question. -/
theorem answers_of_isChain (hrate : 0 < rate) (hordered : (start :: times).IsChain (· ≤ ·)) :
    ∃ counts : List Int, (ofExactRate rate (some start)).answers times = counts.map .ok ∧
      (∀ ticks ∈ counts, 0 ≤ ticks) ∧
      counts.sum = ⌊((start :: times).getLast (List.cons_ne_nil start times) - start) * rate⌋ ∧
      ∀ i now, (start :: times)[i]? = some now →
        ((ofExactRate rate (some start)).asked (times.take i)).interval = 1 / rate ∧
        ((ofExactRate rate (some start)).asked (times.take i)).Counted start
          (counts.take i).sum now := by
  have hpos : 0 < (ofExactRate rate (some start)).interval := one_div_pos.mpr hrate
  obtain ⟨counts, hanswers, hcounts, hasked⟩ := (counted_start hpos rfl).asked hpos hordered
  simp only [zero_add] at hasked
  refine ⟨counts, hanswers, hcounts, ?_, hasked⟩
  have hlength : times.length = counts.length := by
    rw [← length_answers (ofExactRate rate (some start)), hanswers, List.length_map]
  have hlast : (start :: times)[times.length]? =
      some ((start :: times).getLast (List.cons_ne_nil start times)) := by
    rw [← List.getLast?_eq_some_getLast, List.getLast?_eq_getElem?]
    rfl
  obtain ⟨hinterval, hcounted⟩ := hasked _ _ hlast
  have htotal := hcounted.total_eq (hinterval ▸ hpos)
  rw [hlength, List.take_length, ← hlength, hinterval, ofExactRate, div_div_eq_mul_div,
    div_one] at htotal
  exact htotal

/-- A clock in exact arithmetic neither loses nor invents ticks. The first question starts a clock
that was not started, with the answer zero. A started clock that is asked at any times in order
answers with ticks that add up to the whole intervals between its start and the last of these times,
and after each question its last tick was as many intervals after the start as it has counted ticks,
not after the question and less than an interval before it. So the total is the same however often
it is asked in between. -/
theorem ticks_add_up (hrate : 0 < rate) (start : Rat) :
    (ofExactRate rate none).due start = (.ok 0, ofExactRate rate (some start)) ∧
    (∀ times, (start :: times).IsChain (· ≤ ·) →
      ∃ counts : List Int, (ofExactRate rate (some start)).answers times = counts.map .ok ∧
        (∀ ticks ∈ counts, 0 ≤ ticks) ∧
        counts.sum = ⌊((start :: times).getLast (List.cons_ne_nil start times) - start) * rate⌋ ∧
        ∀ i now, (start :: times)[i]? = some now →
          ((ofExactRate rate (some start)).asked (times.take i)).interval = 1 / rate ∧
          ((ofExactRate rate (some start)).asked (times.take i)).Counted start
            (counts.take i).sum now) ∧
    ∀ often rarely : List Rat, (start :: often).IsChain (· ≤ ·) →
      (start :: rarely).IsChain (· ≤ ·) →
      (start :: often).getLast? = (start :: rarely).getLast? →
      ∃ counts counts' : List Int,
        (ofExactRate rate (some start)).answers often = counts.map .ok ∧
        (ofExactRate rate (some start)).answers rarely = counts'.map .ok ∧
        counts.sum = counts'.sum := by
  refine ⟨rfl, fun times hordered => answers_of_isChain hrate hordered, ?_⟩
  intro often rarely hoften hrarely hlast
  obtain ⟨counts, hanswers, -, hsum, -⟩ := answers_of_isChain hrate hoften
  obtain ⟨counts', hanswers', -, hsum', -⟩ := answers_of_isChain hrate hrarely
  rw [List.getLast?_eq_some_getLast (List.cons_ne_nil _ _),
    List.getLast?_eq_some_getLast (List.cons_ne_nil _ _), Option.some.injEq] at hlast
  refine ⟨counts, counts', hanswers, hanswers', ?_⟩
  rw [hsum, hsum', hlast]

/-- In a second at sixty ticks each, uneven questions count sixty ticks, as a single one does. -/
theorem ticks_add_up_in_second :
    (0 : Rat) < 60 ∧ ([0, 1 / 120, 1 / 30, 1] : List Rat).IsChain (· ≤ ·) ∧
      ([0, 1] : List Rat).IsChain (· ≤ ·) ∧
      ∃ counts counts' : List Int,
        (ofExactRate 60 (some 0)).answers [1 / 120, 1 / 30, 1] = counts.map .ok ∧
        (ofExactRate 60 (some 0)).answers [1] = counts'.map .ok ∧
        counts.sum = counts'.sum ∧ counts'.sum = 60 := by
  have hrate : (0 : Rat) < 60 := by norm_num
  have hoften : ([0, 1 / 120, 1 / 30, 1] : List Rat).IsChain (· ≤ ·) := by
    norm_num [List.isChain_cons_cons]
  have hrarely : ([0, 1] : List Rat).IsChain (· ≤ ·) := by
    norm_num [List.isChain_cons_cons]
  obtain ⟨-, hcounts, hsame⟩ := ticks_add_up hrate 0
  obtain ⟨counts, counts', hanswers, hanswers', hsum⟩ := hsame _ _ hoften hrarely rfl
  obtain ⟨single, hsingle, -, htotal, -⟩ := hcounts _ hrarely
  have hequal : counts' = single :=
    List.map_injective_iff.mpr (fun _ _ => Except.ok.inj) (hanswers'.symm.trans hsingle)
  refine ⟨hrate, hoften, hrarely, counts, counts', hanswers, hanswers', hsum, ?_⟩
  rw [hequal, htotal]
  norm_num

end Chip8.Clock
