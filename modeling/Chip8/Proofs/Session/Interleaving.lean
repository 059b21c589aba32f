import Chip8.Proofs.Session.Commute
import Chip8.Proofs.Session.Create
import Chip8.Proofs.Session.History

/-!
# Interleavings of steps and signals

Where no step of a history has to do with its signals, it makes no difference when the signals come:
the steps are answered as if they were made first, and the signals then lead to the same session.
-/

namespace Chip8

/-- Whether a request is a key event. -/
def Request.isKey : Request → Bool
  | key _ _ => true
  | _ => false

/-- Two histories of steps, ticks and key events that differ only in how these fall among each
other: there are as many steps and as many ticks in both, and the same key events in the same
order. -/
structure Interleaved (history history' : List Request) : Prop where
  elementary : ∀ r ∈ history, r = .step ∨ r.isSignal = true
  elementary' : ∀ r ∈ history', r = .step ∨ r.isSignal = true
  steps : history.count .step = history'.count .step
  ticks : history.count .tick = history'.count .tick
  keys : history.filter Request.isKey = history'.filter Request.isKey

/-- Two interleaved histories have the same signals. -/
theorem Interleaved.mem {history history' : List Request} {r : Request}
    (h : Interleaved history history') (hr : r ∈ history') : r = .step ∨ r ∈ history := by
  rcases h.elementary' r hr with rfl | hsignal
  · exact Or.inl rfl
  · right
    cases r with
    | tick =>
      rw [← List.count_pos_iff, h.ticks]
      exact List.count_pos_iff.mpr hr
    | key number isDown =>
      have hfilter : Request.key number isDown ∈ history'.filter Request.isKey :=
        List.mem_filter.mpr ⟨hr, rfl⟩
      rw [← h.keys] at hfilter
      exact (List.mem_filter.mp hfilter).1
    | _ => cases hsignal

namespace Session

variable {s : Session} {r : Request} {count : Nat} {history : List Request}

/-- The answers to the steps of a history, in order. -/
def stepAnswers (s : Session) : List Request → List (Except Failure Bool)
  | [] => []
  | .step :: rest => s.step.1 :: s.step.2.stepAnswers rest
  | request :: rest => (s.perform request).session.stepAnswers rest

/-- A signal can come before some steps or after them if none of them has to do with it. -/
theorem stepped_after_signal (hr : r.isSignal = true)
    (h : ∀ j < count, ¬ (s.stepped j).Heeds r) :
    (s.perform r).session.stepped count = ((s.stepped count).perform r).session := by
  induction count with
  | zero => rfl
  | succ count ih =>
    have hbefore := ih fun j hj => h j (Nat.lt_succ_of_lt hj)
    rw [stepped_succ, stepped_succ, hbefore,
      step_after_signal hr (h count (Nat.lt_succ_self count))]

/-- Steps that have nothing to do with a signal after it have nothing to do with it without it. -/
theorem not_heeds_stepped (hr : r.isSignal = true)
    (h : ∀ j < count, ¬ ((s.perform r).session.stepped j).Heeds r) :
    ∀ j < count, ¬ (s.stepped j).Heeds r := by
  induction count with
  | zero => exact fun j hj => absurd hj (Nat.not_lt_zero j)
  | succ count ih =>
    have hbefore := ih fun j hj => h j (Nat.lt_succ_of_lt hj)
    have hlast := h count (Nat.lt_succ_self count)
    rw [stepped_after_signal hr hbefore, heeds_after_signal hr] at hlast
    intro j hj
    rcases Nat.lt_succ_iff_lt_or_eq.mp hj with hlt | rfl
    · exact hbefore j hlt
    · exact hlast

/-- What the steps of a history have nothing to do with, they have nothing to do with when they are
made without its signals. -/
theorem not_heeds_stepped_of_trail {requests : List Request}
    (helementary : ∀ r ∈ history, r = .step ∨ r.isSignal = true)
    (hmem : ∀ r ∈ history, r ∈ requests)
    (h : ∀ u, (u, Event.step) ∈ s.trail history → ∀ r ∈ requests, ¬ u.Heeds r) :
    ∀ j < history.count .step, ∀ r ∈ requests, ¬ (s.stepped j).Heeds r := by
  induction history generalizing s with
  | nil => exact fun j hj => absurd hj (Nat.not_lt_zero j)
  | cons request rest ih =>
    have hrest (t : Session)
        (ht : ∀ u, (u, Event.step) ∈ t.trail rest → (u, Event.step) ∈ s.trail (request :: rest)) :
        ∀ j < rest.count .step, ∀ r ∈ requests, ¬ (t.stepped j).Heeds r :=
      ih (fun r hr => helementary r (List.mem_cons_of_mem _ hr))
        (fun r hr => hmem r (List.mem_cons_of_mem _ hr)) fun u hu => h u (ht u hu)
    rcases helementary request List.mem_cons_self with rfl | hsignal
    · have hlater := hrest s.step.2 fun u hu => List.mem_cons_of_mem _ hu
      rw [List.count_cons_self]
      intro j hj
      cases j with
      | zero => exact h s List.mem_cons_self
      | succ j => exact hlater j (Nat.lt_of_succ_lt_succ hj)
    · have hlater := hrest (s.perform request).session fun u hu => List.mem_append_right _ hu
      have hne : request ≠ .step := by
        rintro rfl
        cases hsignal
      have hown := not_heeds_stepped hsignal fun j hj =>
        hlater j hj request (hmem request List.mem_cons_self)
      rw [List.count_cons_of_ne hne]
      intro j hj r hr
      rw [← heeds_after_signal hsignal,
        ← stepped_after_signal hsignal fun i hi => hown i (Nat.lt_trans hi hj)]
      exact hlater j hj r hr

/-- A key event can come before some ticks or after them. -/
theorem after_ticks_key (s : Session) (number : Int) (isDown : Bool) (count : Nat) :
    (s.perform (.key number isDown)).session.after (List.replicate count .tick) =
      ((s.after (List.replicate count .tick)).perform (.key number isDown)).session := by
  induction count generalizing s with
  | zero => rfl
  | succ count ih =>
    have hcommutes := (s.commutes_tick_key number isDown).session
    rw [List.replicate_succ]
    calc (s.perform (.key number isDown)).session.after (.tick :: List.replicate count .tick)
      _ = ((s.perform (.key number isDown)).session.perform .tick).session.after
            (List.replicate count .tick) := rfl
      _ = ((s.perform .tick).session.perform (.key number isDown)).session.after
            (List.replicate count .tick) := by rw [hcommutes]
      _ = ((s.after (.tick :: List.replicate count .tick)).perform
            (.key number isDown)).session := ih (s.perform .tick).session

/-- A history whose steps have nothing to do with its signals ends as if the steps were made first,
the ticks came next and the key events last, and its steps are answered as if no signal came. -/
theorem outcome_of_not_heeds (helementary : ∀ r ∈ history, r = .step ∨ r.isSignal = true)
    (h : ∀ j < history.count .step, ∀ r ∈ history, ¬ (s.stepped j).Heeds r) :
    s.after history =
        ((s.stepped (history.count .step)).after
          (List.replicate (history.count .tick) .tick)).after (history.filter Request.isKey) ∧
      s.stepAnswers history =
        (List.range (history.count .step)).map fun j => (s.stepped j).step.1 := by
  induction history generalizing s with
  | nil => exact ⟨rfl, rfl⟩
  | cons request rest ih =>
    have hlater : ∀ r ∈ rest, r = .step ∨ r.isSignal = true :=
      fun r hr => helementary r (List.mem_cons_of_mem _ hr)
    rcases helementary request List.mem_cons_self with rfl | hsignal
    · rw [List.count_cons_self] at h ⊢
      obtain ⟨hafter, hanswers⟩ := ih (s := s.step.2) hlater fun j hj r hr =>
        h (j + 1) (Nat.succ_lt_succ hj) r (List.mem_cons_of_mem _ hr)
      refine ⟨hafter, ?_⟩
      rw [stepAnswers, hanswers, List.range_succ_eq_map, List.map_cons, List.map_map]
      rfl
    · have hne : request ≠ .step := by
        rintro rfl
        cases hsignal
      rw [List.count_cons_of_ne hne] at h ⊢
      have hhead (j : Nat) (hj : j < rest.count .step) : ¬ (s.stepped j).Heeds request :=
        h j hj request List.mem_cons_self
      -- The signal at the head comes after as many steps as the rest makes, and it hides nothing.
      have hpast (count : Nat) (hcount : count ≤ rest.count .step) :
          (s.perform request).session.stepped count =
            ((s.stepped count).perform request).session :=
        stepped_after_signal hsignal fun j hj => hhead j (Nat.lt_of_lt_of_le hj hcount)
      obtain ⟨hafter, hanswers⟩ := ih (s := (s.perform request).session) hlater fun j hj r hr => by
        rw [hpast j (Nat.le_of_lt hj), heeds_after_signal hsignal]
        exact h j hj r (List.mem_cons_of_mem _ hr)
      have hsteps : (s.perform request).session.stepAnswers rest =
          (List.range (rest.count .step)).map fun j => (s.stepped j).step.1 := by
        rw [hanswers]
        refine List.map_congr_left fun j hj => ?_
        have hlt := List.mem_range.mp hj
        rw [hpast j (Nat.le_of_lt hlt), step_after_signal hsignal (hhead j hlt)]
      rw [hpast _ (Nat.le_refl _)] at hafter
      cases request with
      | tick =>
        rw [List.count_cons_self, List.replicate_succ]
        exact ⟨hafter, hsteps⟩
      | key number isDown =>
        rw [after_ticks_key] at hafter
        exact ⟨hafter, hsteps⟩
      | _ => cases hsignal

/-- A tick and a step commute unless the step reads or sets a timer. A key event and a step commute
unless a key is awaited or the step begins to wait for one or looks at that key. A tick and a key
event commute. Two events of different keys commute exactly if they do not both press a key that is
up while the session waits for one. Hence two histories that differ only in how steps, ticks and key
events fall among each other lead to the same session and answer the steps alike, if no step of the
first has to do with its signals. -/
theorem signals_commute :
    (∀ s : Session,
      (¬ s.Heeds .tick → s.Commutes .tick .step) ∧
      (∀ number isDown, ¬ s.Heeds (.key number isDown) →
        s.Commutes (.key number isDown) .step) ∧
      (∀ number isDown, s.Commutes .tick (.key number isDown)) ∧
      ∀ number number' isDown isDown' k k', Keypad.key? number = some k →
        Keypad.key? number' = some k' → k ≠ k' →
        (s.Commutes (.key number isDown) (.key number' isDown') ↔
          ¬ (s.blocked = true ∧ (isDown = true ∧ s.machine.keypad.isDown k = false) ∧
            isDown' = true ∧ s.machine.keypad.isDown k' = false))) ∧
    ∀ (s : Session) (history history' : List Request), Interleaved history history' →
      (∀ u, (u, Event.step) ∈ s.trail history → ∀ r ∈ history, ¬ u.Heeds r) →
      s.after history = s.after history' ∧ s.stepAnswers history = s.stepAnswers history' := by
  constructor
  · intro s
    exact ⟨commutes_step rfl, fun _ _ => commutes_step rfl, s.commutes_tick_key,
      fun _ _ _ _ _ _ hk hk' hne => commutes_keys_iff hk hk' hne⟩
  · intro s history history' hinterleaved hunheeded
    have h := not_heeds_stepped_of_trail hinterleaved.elementary (fun _ hr => hr) hunheeded
    have h' : ∀ j < history'.count .step, ∀ r ∈ history', ¬ (s.stepped j).Heeds r := by
      intro j hj r hr
      rcases hinterleaved.mem hr with rfl | hr
      · exact id
      · exact h j (hinterleaved.steps ▸ hj) r hr
    obtain ⟨hafter, hanswers⟩ := outcome_of_not_heeds hinterleaved.elementary h
    obtain ⟨hafter', hanswers'⟩ := outcome_of_not_heeds hinterleaved.elementary' h'
    rw [hafter, hanswers, hafter', hanswers', hinterleaved.steps, hinterleaved.ticks,
      hinterleaved.keys]
    exact ⟨rfl, rfl⟩

/-- A program that looks at one key does not notice when ticks and the events of another key come. -/
theorem signals_commute_around_key_skip :
    ∃ s : Session, s = (create (some [0x61, 0x05, 0xE1, 0x9E, 0x71, 0x01]) .cosmac ⟨0, 0⟩
        (.start "chip8" .warning)).2 ∧
      s.Commutes .tick .step ∧ s.step.2.Commutes (.key 3 true) .step ∧
      s.Commutes (.key 3 true) (.key 5 true) ∧
      s.after [.step, .tick, .key 3 true, .step, .step] =
        s.after [.key 3 true, .step, .step, .step, .tick] ∧
      s.stepAnswers [.step, .tick, .key 3 true, .step, .step] =
        s.stepAnswers [.key 3 true, .step, .step, .step, .tick] := by
  obtain ⟨s, hs⟩ : ∃ s, s = (create (some [0x61, 0x05, 0xE1, 0x9E, 0x71, 0x01]) .cosmac ⟨0, 0⟩
    (.start "chip8" .warning)).2 := ⟨_, rfl⟩
  obtain ⟨htick, hkey, hblocked, htrail⟩ : ¬ s.Heeds .tick ∧ ¬ s.step.2.Heeds (.key 3 true) ∧
      s.blocked = false ∧
      ∀ e ∈ s.trail [.step, .tick, .key 3 true, .step, .step], e.2 = .step →
        ∀ r ∈ [Request.step, .tick, .key 3 true, .step, .step], ¬ e.1.Heeds r := by
    rw [hs]
    decide +kernel
  have hinterleaved : Interleaved [.step, .tick, .key 3 true, .step, .step]
      [.key 3 true, .step, .step, .step, .tick] := by
    constructor <;> decide
  obtain ⟨hpairs, hhistories⟩ := signals_commute
  obtain ⟨hfirst, -, -, hkeys⟩ := hpairs s
  obtain ⟨-, hsecond, -⟩ := hpairs s.step.2
  have hunblocked : s.blocked ≠ true := Bool.eq_false_iff.mp hblocked
  exact ⟨s, hs, hfirst htick, hsecond 3 true hkey,
    (hkeys 3 5 true true _ _ rfl rfl (by decide)).mpr fun h => hunblocked h.1,
    hhistories s _ _ hinterleaved fun u hu => htrail (u, .step) hu rfl⟩

end Session

end Chip8
