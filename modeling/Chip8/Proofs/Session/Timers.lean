import Chip8.Proofs.Session.Create
import Chip8.Proofs.Session.Trail

/-!
# What the timers show

A timer shows the byte that it was last set to less the ticks since then, and zero once these have
used it up. Nothing but the ticks counts: neither steps nor key events, waits, failures or refused
loads, and a frame is a single tick whatever becomes of its steps.
-/

namespace Chip8

/-- One of the two timers. -/
inductive Timer where
  /-- The timer that programs read. -/
  | delay
  /-- The timer that sounds the tone. -/
  | sound
  deriving DecidableEq, Repr

/-- The operation that sets a timer. -/
def Timer.setter : Timer → Op
  | delay => .setDelay
  | sound => .setSound

/-- What a timer of a machine shows. -/
def Machine.timer (m : Machine) : Timer → UInt8
  | .delay => m.delay
  | .sound => m.sound

namespace Machine

variable {m n : Machine} {i : Instruction} {timer : Timer}

/-- A tick counts both timers down. -/
theorem timer_tick (m : Machine) (timer : Timer) : m.tick.timer timer = countDown (m.timer timer) := by
  cases timer <;> rfl

/-- An instruction that sets a timer sets it to its register. -/
theorem timer_of_setter (hop : i.op = timer.setter) (h : m.perform i = .ok n) :
    n.timer timer = m.register i.x := by
  obtain ⟨op, word⟩ := i
  cases timer with
  | delay =>
    obtain rfl : op = .setDelay := hop
    cases h
    rfl
  | sound =>
    obtain rfl : op = .setSound := hop
    cases h
    rfl

/-- Every other instruction leaves a timer alone. -/
theorem timer_of_not_setter (hop : i.op ≠ timer.setter) (h : m.perform i = .ok n) :
    n.timer timer = m.timer timer := by
  cases timer with
  | delay => exact (frame_of_perform h).delay hop
  | sound => exact (frame_of_perform h).sound hop

end Machine

/-- Whether a request counts the timers down: a tick does, and so does a frame. -/
def Request.ticks : Request → Bool
  | tick | frame _ => true
  | _ => false

namespace Session

variable {s t : Session} {i : Instruction} {timer : Timer}

/-- What a timer was last set to, and how often it has been counted down since. -/
structure Setting where
  /-- The byte that it was set to. -/
  value : UInt8
  /-- The ticks since then. -/
  ticks : Nat
  deriving DecidableEq, Repr

/-- The setting of a timer after one more event. An instruction that sets the timer and a program
that is accepted begin a new setting. -/
def Setting.follow (timer : Timer) (setting : Setting) (e : Session × Event) : Setting :=
  match e.2 with
  | .step =>
    match e.1.executed? with
    | some i => if i.op = timer.setter then ⟨e.1.machine.register i.x, 0⟩ else setting
    | none => setting
  | .tick => { setting with ticks := setting.ticks + 1 }
  | .key _ _ => setting
  | .load rom =>
    match (e.1.load rom).1 with
    | .ok () => ⟨0, 0⟩
    | .error _ => setting

/-- The setting of a timer at the end of a trail that begins with a fresh machine. -/
def lastSetting (timer : Timer) (trail : List (Session × Event)) : Setting :=
  trail.foldl (Setting.follow timer) ⟨0, 0⟩

/-- A timer shows what is left of its setting. -/
def Setting.Shown (timer : Timer) (setting : Setting) (s : Session) : Prop :=
  (s.machine.timer timer).toNat = setting.value.toNat - setting.ticks

variable {setting : Setting}

/-- A step that carries out an instruction sets a timer to its register or leaves it alone. -/
theorem timer_of_executes (h : s.Executes i) (timer : Timer) :
    s.step.2.machine.timer timer =
      if i.op = timer.setter then s.machine.register i.x else s.machine.timer timer := by
  obtain ⟨next, journal, hn, he⟩ := h.step_eq
  have hnext : s.step.2.machine.timer timer = next.timer timer := by
    rw [he]
    rfl
  rw [hnext]
  by_cases hop : i.op = timer.setter
  · rw [if_pos hop, Machine.timer_of_setter hop hn]
    rfl
  · rw [if_neg hop, Machine.timer_of_not_setter hop hn]
    rfl

/-- A step that sets a timer begins a new setting, and every other one keeps the old one. -/
theorem Setting.Shown.step (hs : setting.Shown timer s) :
    (setting.follow timer (s, .step)).Shown timer s.step.2 := by
  cases hexecuted : s.executed? with
  | none =>
    obtain ⟨registers, pc, wait, he⟩ :=
      machine_step_of_not_executes (executed?_eq_none_iff.mp hexecuted)
    simp only [follow, hexecuted, Shown, he]
    exact hs
  | some i =>
    have htimer := timer_of_executes (executed?_eq_some_iff.mp hexecuted) timer
    simp only [follow, hexecuted, Shown, htimer]
    by_cases hop : i.op = timer.setter
    · simp only [if_pos hop, Nat.sub_zero]
    · simp only [if_neg hop]
      exact hs

/-- A timer shows what is left of its setting after every event. -/
theorem Setting.Shown.next (hs : setting.Shown timer s) (event : Event) :
    (setting.follow timer (s, event)).Shown timer (s.next event) := by
  cases event with
  | step => exact hs.step
  | tick =>
    change (s.machine.tick.timer timer).toNat = setting.value.toNat - (setting.ticks + 1)
    rw [Machine.timer_tick, toNat_countDown, hs, Nat.sub_sub]
  | key number isDown =>
    change setting.Shown timer (s.setKey number isDown).2
    rcases s.setKey_cases number isDown with ⟨-, he⟩ | ⟨key, -, he⟩
    · rw [he]
      exact hs
    · rw [he]
      exact hs
  | load rom =>
    rcases Nat.lt_or_ge romCapacity rom.length with h | h
    · obtain ⟨journal, he⟩ := s.load_of_lt h
      simp only [follow, Session.next, he]
      exact hs
    · obtain ⟨journal, he⟩ := s.load_of_le h
      simp only [follow, Session.next, he]
      cases timer <;> rfl

/-- Along a trail a timer keeps showing what is left of its setting. -/
theorem Leads.shown {trail : List (Session × Event)} (ht : Leads s trail t)
    (hs : setting.Shown timer s) :
    (trail.foldl (Setting.follow timer) setting).Shown timer t := by
  induction ht generalizing setting with
  | nil => exact hs
  | cons journal _ ih => exact ih (hs.next _)

/-- A setting only gets older along a trail on which neither its timer is set nor a program
accepted. -/
theorem follow_of_unset {trail : List (Session × Event)}
    (hset : ∀ e ∈ carriedOut trail, e.2.op ≠ timer.setter)
    (hload : ∀ u rom, (u, .load rom) ∈ trail → ∃ failure, (u.load rom).1 = .error failure) :
    trail.foldl (Setting.follow timer) setting =
      ⟨setting.value, setting.ticks + trail.countP fun e => e.2 = .tick⟩ := by
  induction trail generalizing setting with
  | nil => rfl
  | cons e rest ih =>
    obtain ⟨u, event⟩ := e
    rw [carriedOut_cons] at hset
    have hrest (setting : Setting) : rest.foldl (Setting.follow timer) setting =
        ⟨setting.value, setting.ticks + rest.countP fun e => e.2 = .tick⟩ :=
      ih (fun e he => hset e (List.mem_append_right _ he))
        fun u rom hu => hload u rom (List.mem_cons_of_mem _ hu)
    rw [List.foldl_cons, hrest, List.countP_cons]
    cases event with
    | step =>
      cases hexecuted : u.executed? with
      | none => simp [Setting.follow, hexecuted]
      | some i =>
        have hne : i.op ≠ timer.setter := by
          rw [carriedOut_of_executes (executed?_eq_some_iff.mp hexecuted)] at hset
          exact hset _ List.mem_cons_self
        simp [Setting.follow, hexecuted, hne]
    | tick => simp [Setting.follow, Nat.add_assoc, Nat.add_comm 1]
    | key number isDown => simp [Setting.follow]
    | load rom =>
      obtain ⟨failure, hf⟩ := hload u rom List.mem_cons_self
      simp [Setting.follow, hf]

/-- A request makes one tick happen if it counts the timers down, and no tick otherwise. -/
theorem countP_tick_events (s : Session) (request : Request) :
    (s.events request).countP (fun e => e.2 = .tick) = if request.ticks then 1 else 0 := by
  have hturns (turns : List Session) :
      (turns.map fun u => (u, Event.step)).countP (fun e => e.2 = .tick) = 0 := by
    rw [List.countP_map, List.countP_eq_zero]
    simp
  cases request with
  | run limit withBar => exact hturns _
  | frame count =>
    rw [events, List.countP_cons, hturns]
    rfl
  | _ => rfl

/-- The ticks of a history are its requests that count the timers down. -/
theorem countP_tick_trail (s : Session) (history : List Request) :
    (s.trail history).countP (fun e => e.2 = .tick) = history.countP Request.ticks := by
  induction history generalizing s with
  | nil => rfl
  | cons request rest ih =>
    rw [trail, List.countP_append, ih, countP_tick_events, List.countP_cons, Nat.add_comm]

/-- The timers of a new session have not been set. -/
theorem shown_create (rom : Option (List UInt8)) (dialect : Dialect) (seed : Random.Block)
    (journal : Journal) (timer : Timer) :
    Setting.Shown timer ⟨0, 0⟩ (create rom dialect seed journal).2 := by
  have hvacant : Setting.Shown timer ⟨0, 0⟩ (vacant dialect seed journal) := by
    cases timer <;> rfl
  cases rom with
  | none => exact hvacant
  | some rom =>
    have hloaded := hvacant.next (.load rom)
    have hfollow : Setting.follow timer ⟨0, 0⟩ (vacant dialect seed journal, .load rom) =
        ⟨0, 0⟩ := by
      simp only [Setting.follow]
      split <;> rfl
    rw [hfollow] at hloaded
    exact hloaded

/-- What is left of a setting is nothing exactly if the ticks have used it up. -/
theorem Setting.Shown.eq_zero_iff (hs : setting.Shown timer s) :
    s.machine.timer timer = 0 ↔ setting.value.toNat ≤ setting.ticks := by
  rw [← UInt8.toNat_inj, hs, UInt8.toNat_zero, Nat.sub_eq_zero_iff_le]

/-- The tone sounds exactly as long as something is left of the setting of its timer. -/
theorem Setting.Shown.soundActive_iff (hs : setting.Shown .sound s) :
    s.machine.soundActive = true ↔ setting.ticks < setting.value.toNat := by
  have hsound : s.machine.sound.toNat = setting.value.toNat - setting.ticks := hs
  rw [Machine.soundActive, decide_eq_true_iff, UInt8.lt_iff_toNat_lt, hsound, UInt8.toNat_zero]
  omega

/-- After a step that sets a timer the timer shows its byte less the ticks since, as long as it is
not set again and no program is accepted. -/
theorem Executes.shown (h : s.Executes i) (hop : i.op = timer.setter) {later : List Request}
    (hset : ∀ e ∈ carriedOut (s.step.2.trail later), e.2.op ≠ timer.setter)
    (hload : ∀ u rom, (u, .load rom) ∈ s.step.2.trail later →
      ∃ failure, (u.load rom).1 = .error failure) :
    Setting.Shown timer ⟨s.machine.register i.x, later.countP Request.ticks⟩
      (s.step.2.after later) := by
  have hfirst : Setting.Shown timer ⟨s.machine.register i.x, 0⟩ s.step.2 := by
    rw [Setting.Shown, timer_of_executes h, if_pos hop, Nat.sub_zero]
  have hlater := (s.step.2.leads_trail later).shown hfirst
  rw [follow_of_unset hset hload, countP_tick_trail, Nat.zero_add] at hlater
  exact hlater

/-- Timers count ticks and nothing else. Since its machine was fresh a timer shows what it was last
set to less the ticks since then, and the tone sounds as long as its timer has something left. So a
timer that is set to a byte is zero after as many ticks as the byte says, and stays zero. The ticks
are the requests for a tick and the requests for a frame, those included that fail or are blocked. -/
theorem timers_after_create :
    (∀ (rom : Option (List UInt8)) (dialect : Dialect) (seed : Random.Block) (journal : Journal)
        (history : List Request) (timer : Timer),
      ((((create rom dialect seed journal).2.after history).machine.timer timer).toNat =
        (lastSetting timer ((create rom dialect seed journal).2.trail history)).value.toNat -
          (lastSetting timer ((create rom dialect seed journal).2.trail history)).ticks) ∧
      (((create rom dialect seed journal).2.after history).machine.soundActive = true ↔
        (lastSetting .sound ((create rom dialect seed journal).2.trail history)).ticks <
          (lastSetting .sound ((create rom dialect seed journal).2.trail history)).value.toNat)) ∧
    (∀ (s : Session) (i : Instruction) (timer : Timer) (later : List Request),
      s.Executes i → i.op = timer.setter →
      (∀ e ∈ carriedOut (s.step.2.trail later), e.2.op ≠ timer.setter) →
      (∀ u rom, (u, .load rom) ∈ s.step.2.trail later →
        ∃ failure, (u.load rom).1 = .error failure) →
      ((s.step.2.after later).machine.timer timer).toNat =
          (s.machine.register i.x).toNat - later.countP Request.ticks ∧
        ((s.step.2.after later).machine.timer timer = 0 ↔
          (s.machine.register i.x).toNat ≤ later.countP Request.ticks)) ∧
    ∀ (s : Session) (history : List Request),
      (s.trail history).countP (fun e => e.2 = .tick) = history.countP Request.ticks := by
  refine ⟨?_, ?_, countP_tick_trail⟩
  · intro rom dialect seed journal history timer
    have hshown (timer : Timer) :=
      ((create rom dialect seed journal).2.leads_trail history).shown
        (shown_create rom dialect seed journal timer)
    exact ⟨hshown timer, (hshown .sound).soundActive_iff⟩
  · intro s i timer later hexecutes hop hset hload
    have hshown := hexecutes.shown hop hset hload
    exact ⟨hshown, hshown.eq_zero_iff⟩

/-- A delay of three is over after two ticks and a frame, although the program goes on and a key goes
down in between. -/
theorem delay_over_after_three_ticks :
    ∃ s : Session, s = (create (some [0x60, 0x03, 0xF0, 0x15, 0x70, 0x01]) .cosmac ⟨0, 0⟩
        (.start "chip8" .warning)).2.step.2 ∧
      s.Executes ⟨.setDelay, 0xF015⟩ ∧
      (∀ e ∈ carriedOut (s.step.2.trail [.tick, .frame 1, .key 3 true, .tick]),
        e.2.op ≠ .setDelay) ∧
      (∀ u rom, (u, .load rom) ∈ s.step.2.trail [.tick, .frame 1, .key 3 true, .tick] →
        ∃ failure, (u.load rom).1 = .error failure) ∧
      (s.step.2.after [.tick, .frame 1, .key 3 true, .tick]).machine.timer .delay = 0 := by
  obtain ⟨s, hs⟩ : ∃ s, s = (create (some [0x60, 0x03, 0xF0, 0x15, 0x70, 0x01]) .cosmac ⟨0, 0⟩
    (.start "chip8" .warning)).2.step.2 := ⟨_, rfl⟩
  obtain ⟨hexecutes, hthree, hset⟩ : s.Executes ⟨.setDelay, 0xF015⟩ ∧
      (s.machine.register (Instruction.mk .setDelay 0xF015).x).toNat = 3 ∧
      ∀ e ∈ carriedOut (s.step.2.trail [.tick, .frame 1, .key 3 true, .tick]),
        e.2.op ≠ .setDelay := by
    rw [hs]
    decide +kernel
  have hload : ∀ u rom, (u, .load rom) ∈ s.step.2.trail [.tick, .frame 1, .key 3 true, .tick] →
      ∃ failure, (u.load rom).1 = .error failure := by
    intro u rom hu
    simp [trail, events] at hu
  obtain ⟨-, hcounts, -⟩ := timers_after_create
  obtain ⟨-, hzero⟩ := hcounts s _ .delay _ hexecutes rfl hset hload
  rw [hthree] at hzero
  exact ⟨s, hs, hexecutes, hset, hload, hzero.mpr (by decide)⟩

end Session

end Chip8
