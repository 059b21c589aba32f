import Chip8.Proofs.Machine.Draw
import Chip8.Proofs.Session.Create
import Chip8.Proofs.Session.Trail

/-!
# What a program draws

As long as a program does not clear the screen, every pixel depends only on how often it has been
toggled. So the screen is determined by the masks that were drawn, whatever their order, and masks
that were drawn an even number of times do not count.
-/

namespace Chip8.Session

variable {s t : Session} {i : Instruction}

/-- The masks of the draws among the instructions carried out. -/
def masks (done : List (Machine × Instruction)) : List Screen :=
  (done.filter fun e => e.2.op = .draw).map fun e => e.1.spriteMask e.2

theorem masks_append (done later : List (Machine × Instruction)) :
    masks (done ++ later) = masks done ++ masks later := by
  simp only [masks, List.filter_append, List.map_append]

/-- A step that carries out a draw flags whether its mask met a lit pixel. -/
theorem flag_of_executes (h : s.Executes i) (hop : i.op = .draw) :
    s.step.2.machine.register flagRegister = 1 ↔
      ∃ x y, (s.machine.spriteMask i).pixel x y = true ∧ s.machine.screen.pixel x y = true := by
  obtain ⟨next, journal, hn, he⟩ := h.step_eq
  have hflag : s.step.2.machine.register flagRegister = next.register flagRegister := by rw [he]; rfl
  rw [hflag, Machine.flag_of_draw hop hn, Machine.toUInt8_eq_one_iff, Screen.meets_iff]
  simp only [and_comm]
  rfl

/-- An instruction that does not clear the screen toggles its mask, if it has one. -/
theorem screen_of_executes (h : s.Executes i) (hclear : i.op ≠ .clearScreen) :
    s.step.2.machine.screen = (masks [(s.machine, i)]).foldl Screen.xor s.machine.screen := by
  obtain ⟨next, journal, hn, he⟩ := h.step_eq
  have hnext : s.step.2.machine.screen = next.screen := by rw [he]
  rw [hnext]
  by_cases hop : i.op = .draw
  · have hmask : masks [(s.machine, i)] = [s.machine.spriteMask i] := by simp [masks, hop]
    rw [hmask, Machine.screen_of_draw hop hn]
    rfl
  · have hmask : masks [(s.machine, i)] = [] := by simp [masks, hop]
    have htouch : i.op.touchesScreen = false := by
      cases hi : i.op <;> simp_all
    rw [hmask]
    exact (Machine.frame_of_perform hn).screen htouch

/-- What happens to a session that neither starts over nor clears its screen toggles the masks that
are drawn. -/
theorem screen_next {event : Event} (hevent : event.restarts = false)
    (hclear : ∀ e ∈ carriedOut [(s, event)], e.2.op ≠ .clearScreen) :
    (s.next event).machine.screen =
      (masks (carriedOut [(s, event)])).foldl Screen.xor s.machine.screen := by
  cases event with
  | step =>
    by_cases hexecutes : ∃ i, s.Executes i
    · obtain ⟨i, hi⟩ := hexecutes
      rw [carriedOut_of_executes hi] at hclear ⊢
      exact screen_of_executes hi (hclear _ List.mem_cons_self)
    · have hnone := not_exists.mp hexecutes
      obtain ⟨registers, pc, wait, he⟩ := machine_step_of_not_executes hnone
      change s.step.2.machine.screen = _
      rw [carriedOut_of_not_executes hnone, he]
      rfl
  | tick => rfl
  | key number isDown => exact s.screen_setKey number isDown
  | load rom => cases hevent

/-- A trail along which nothing starts over and no screen is cleared toggles the masks that are
drawn. -/
theorem Leads.screen_eq {trail : List (Session × Event)} (ht : Leads s trail t)
    (hevents : ∀ e ∈ trail, e.2.restarts = false)
    (hclear : ∀ e ∈ carriedOut trail, e.2.op ≠ .clearScreen) :
    t.machine.screen = (masks (carriedOut trail)).foldl Screen.xor s.machine.screen := by
  induction ht with
  | nil => rfl
  | @cons s t event rest journal _ ih =>
    rw [carriedOut_cons] at hclear ⊢
    have hfirst := screen_next (hevents (s, event) List.mem_cons_self) fun e he =>
      hclear e (List.mem_append_left _ he)
    have hrest := ih (fun e he => hevents e (List.mem_cons_of_mem _ he)) fun e he =>
      hclear e (List.mem_append_right _ he)
    rw [hrest, masks_append, List.foldl_append, ← hfirst]

/-- Drawing toggles. Along a history that neither starts over nor clears the screen, the screen at
the end is the one at the start with all masks toggled that were drawn, each as it was when it was
drawn. Their order does not matter, and a mask that was drawn an even number of times can be left
out. Every draw flags whether its mask met a lit pixel. The same draw twice in a row restores the
screen, and flags at last whether its mask had a dark pixel at first. -/
theorem screen_after_drawing :
    (∀ (s : Session) (history : List Request),
      (∀ e ∈ s.trail history, e.2.restarts = false) →
      (∀ e ∈ carriedOut (s.trail history), e.2.op ≠ .clearScreen) →
      (s.after history).machine.screen =
          (masks (carriedOut (s.trail history))).foldl Screen.xor s.machine.screen ∧
        (∀ order : List Screen, order.Perm (masks (carriedOut (s.trail history))) →
          (s.after history).machine.screen = order.foldl Screen.xor s.machine.screen) ∧
        ∀ mask : Screen, (masks (carriedOut (s.trail history))).count mask % 2 = 0 →
          (s.after history).machine.screen =
            ((masks (carriedOut (s.trail history))).filter (· != mask)).foldl Screen.xor
              s.machine.screen) ∧
    (∀ (s : Session) (i : Instruction), s.Executes i → i.op = .draw →
      (s.step.2.machine.register flagRegister = 1 ↔
        ∃ x y, (s.machine.spriteMask i).pixel x y = true ∧
          s.machine.screen.pixel x y = true)) ∧
    ∀ (m : Machine) (w : Int) (i : Instruction), decode w = .ok i → i.op = .draw →
      i.x ≠ flagRegister → i.y ≠ flagRegister → m.index.toNat + i.n ≤ 4096 →
      ∃ first second, m.execute w = .ok first ∧ first.execute w = .ok second ∧
        second.screen = m.screen ∧
        (second.register flagRegister = 1 ↔
          ∃ x y, (m.spriteMask i).pixel x y = true ∧ m.screen.pixel x y = false) := by
  refine ⟨?_, fun s i => flag_of_executes, ?_⟩
  · intro s history hevents hclear
    have hscreen := (s.leads_trail history).screen_eq hevents hclear
    refine ⟨hscreen, ?_, ?_⟩
    · intro order hperm
      rw [hscreen, Screen.foldl_xor_of_perm hperm]
    · intro mask heven
      rw [hscreen, ← Screen.foldl_xor_filter_ne heven]
  · intro m w i hi hop hx hy hend
    obtain ⟨first, second, hfirst, hsecond, hdrawn⟩ := Machine.draw_twice hop hx hy hend
    refine ⟨first, second, ?_, ?_, hdrawn⟩
    · rw [Machine.execute, hi]
      exact hfirst
    · rw [Machine.execute, hi]
      exact hsecond

/-- A program that draws a glyph twice leaves the screen as it was, although its timers are counted
down in between. -/
theorem screen_after_glyph_drawn_twice :
    ∃ s : Session, s = (create (some [0xA0, 0x50, 0xD0, 0x15, 0xD0, 0x15]) .cosmac ⟨0, 0⟩
        (.start "chip8" .warning)).2 ∧
      (∀ e ∈ s.trail [.step, .step, .tick, .step], e.2.restarts = false) ∧
      (∀ e ∈ carriedOut (s.trail [.step, .step, .tick, .step]), e.2.op ≠ .clearScreen) ∧
      (s.after [.step, .step, .tick, .step]).machine.screen = s.machine.screen ∧
      s.step.2.Executes ⟨.draw, 0xD015⟩ ∧
      (s.step.2.step.2.machine.register flagRegister = 1 ↔
        ∃ x y, (s.step.2.machine.spriteMask ⟨.draw, 0xD015⟩).pixel x y = true ∧
          s.step.2.machine.screen.pixel x y = true) ∧
      s.machine.index.toNat + (Instruction.mk .draw 0xD015).n ≤ 4096 ∧
      ∃ first second, s.machine.execute 0xD015 = .ok first ∧ first.execute 0xD015 = .ok second ∧
        second.screen = s.machine.screen := by
  obtain ⟨s, hs⟩ : ∃ s, s = (create (some [0xA0, 0x50, 0xD0, 0x15, 0xD0, 0x15]) .cosmac ⟨0, 0⟩
    (.start "chip8" .warning)).2 := ⟨_, rfl⟩
  obtain ⟨hindex, hdraw, hagain⟩ : s.Executes ⟨.setIndex, 0xA050⟩ ∧
      s.step.2.Executes ⟨.draw, 0xD015⟩ ∧ s.step.2.step.2.tick.Executes ⟨.draw, 0xD015⟩ := by
    rw [hs]
    decide +kernel
  obtain ⟨hrun, hflag, htwice⟩ := screen_after_drawing
  have hevents : ∀ e ∈ s.trail [.step, .step, .tick, .step], e.2.restarts = false := by
    simp [trail, events, Event.restarts]
  have hdone : carriedOut (s.trail [.step, .step, .tick, .step]) =
      [(s.machine, ⟨.setIndex, 0xA050⟩), (s.step.2.machine, ⟨.draw, 0xD015⟩),
        (s.step.2.step.2.tick.machine, ⟨.draw, 0xD015⟩)] := by
    simp [carriedOut, trail, events, perform, respond, executed?_eq_some_iff.mpr hindex,
      executed?_eq_some_iff.mpr hdraw, executed?_eq_some_iff.mpr hagain]
  have hclear : ∀ e ∈ carriedOut (s.trail [.step, .step, .tick, .step]),
      e.2.op ≠ .clearScreen := by
    rw [hdone]
    simp
  -- The second draw finds what the first one found, so the mask counts twice.
  have hsame : s.step.2.step.2.tick.machine.spriteMask ⟨.draw, 0xD015⟩ =
      s.step.2.machine.spriteMask ⟨.draw, 0xD015⟩ := by
    obtain ⟨next, journal, hn, he⟩ := hdraw.step_eq
    have htick : s.step.2.step.2.tick.machine.spriteMask ⟨.draw, 0xD015⟩ =
        next.spriteMask ⟨.draw, 0xD015⟩ := by
      rw [he]
      exact Machine.spriteMask_congr rfl rfl rfl rfl _
    rw [htick, Machine.spriteMask_of_draw rfl (by decide) (by decide) hn]
    exact Machine.spriteMask_congr rfl rfl rfl rfl _
  have hmasks : masks (carriedOut (s.trail [.step, .step, .tick, .step])) =
      [s.step.2.machine.spriteMask ⟨.draw, 0xD015⟩,
        s.step.2.machine.spriteMask ⟨.draw, 0xD015⟩] := by
    rw [hdone]
    simp [masks, hsame]
  obtain ⟨-, -, heven⟩ := hrun s [.step, .step, .tick, .step] hevents hclear
  have hscreen := heven (s.step.2.machine.spriteMask ⟨.draw, 0xD015⟩)
  rw [hmasks] at hscreen
  have hzero : s.machine.index = 0 := by
    rw [hs, machine_create (by decide)]
    rfl
  have hend : s.machine.index.toNat + (Instruction.mk .draw 0xD015).n ≤ 4096 := by
    rw [hzero]
    decide
  obtain ⟨first, second, hfirst, hsecond, hrestored, -⟩ :=
    htwice s.machine 0xD015 ⟨.draw, 0xD015⟩ rfl rfl (by decide) (by decide) hend
  have hscreen : (s.after [.step, .step, .tick, .step]).machine.screen = s.machine.screen := by
    rw [hscreen (by simp)]
    simp
  exact ⟨s, hs, hevents, hclear, hscreen, hdraw, hflag _ _ hdraw rfl, hend, first, second, hfirst,
    hsecond, hrestored⟩

end Chip8.Session
