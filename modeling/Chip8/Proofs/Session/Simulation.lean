import Chip8.Proofs.Session.Trail

/-!
# Sessions in lockstep

Two sessions that are related in some way can be followed side by side. What has to be shown of the
relation is what one step, one tick, one key event and one attempt to start over make of it; then
runs and frames keep it as well, and the two sessions answer every request of a history alike.

A relation may depend on what has happened so far, of which a record is kept, and it may hold good
for some events only.
-/

namespace Chip8

/-- What a response tells the host. -/
def Response.outcome (r : Response) : Except Failure Answer × Option (Bar Empty) :=
  (r.answer, r.bar)

/-- A response is what it tells the host and the session that it leaves. -/
theorem Response.eq_of_outcome_eq {r r' : Response} (h : r'.outcome = r.outcome)
    (hs : r'.session = r.session) : r' = r := by
  obtain ⟨answer, session, bar⟩ := r
  obtain ⟨answer', session', bar'⟩ := r'
  obtain ⟨rfl, rfl⟩ : answer' = answer ∧ bar' = bar := Prod.mk.inj h
  obtain rfl : session' = session := hs
  rfl

namespace Session

/-- The responses to the requests of a history. -/
def responses (s : Session) : List Request → List Response
  | [] => []
  | request :: rest => s.perform request :: (s.perform request).session.responses rest

/-- A relation between two sessions that answer alike. -/
structure Simulation (γ : Type) where
  /-- The two sessions are related when so much is on record. -/
  Rel : γ → Session → Session → Prop
  /-- The record after an event, with the first session that it meets. -/
  follow : γ → Session × Event → γ
  /-- The relation survives an event, with the first session that it meets. -/
  Quiet : γ → Session × Event → Prop
  wait : ∀ {g s t}, Rel g s t → t.machine.wait = s.machine.wait
  pc : ∀ {g s t}, Rel g s t → t.machine.pc = s.machine.pc
  idle : ∀ {g s t}, Rel g s t → ∀ address steps,
    Rel g (s.noteIdle address steps) (t.noteIdle address steps)
  step : ∀ {g s t}, Rel g s t → Quiet g (s, .step) →
    t.step.1 = s.step.1 ∧ Rel (follow g (s, .step)) s.step.2 t.step.2
  tick : ∀ {g s t}, Rel g s t → Quiet g (s, .tick) → Rel (follow g (s, .tick)) s.tick t.tick
  key : ∀ {g s t}, Rel g s t → ∀ number isDown, Quiet g (s, .key number isDown) →
    (t.setKey number isDown).1 = (s.setKey number isDown).1 ∧
      Rel (follow g (s, .key number isDown)) (s.setKey number isDown).2 (t.setKey number isDown).2
  load : ∀ {g s t}, Rel g s t → ∀ rom, Quiet g (s, .load rom) →
    (t.load rom).1 = (s.load rom).1 ∧ Rel (follow g (s, .load rom)) (s.load rom).2 (t.load rom).2
  reset : ∀ {g s t}, Rel g s t → Quiet g (s, .load s.rom) →
    t.reset.1 = s.reset.1 ∧ Rel (follow g (s, .load s.rom)) s.reset.2 t.reset.2

namespace Simulation

variable {γ : Type} (S : Simulation γ) {g : γ} {s t : Session}
variable {stops : Session → Session → Bool} {bar : Option (Bar Empty)} {executed budget : Nat}

/-- The record after the events of a trail. -/
def followAll (g : γ) (trail : List (Session × Event)) : γ := trail.foldl S.follow g

theorem followAll_append (g : γ) (before later : List (Session × Event)) :
    S.followAll g (before ++ later) = S.followAll (S.followAll g before) later :=
  List.foldl_append

/-- The relation survives every event of a trail. -/
def QuietAlong (g : γ) (trail : List (Session × Event)) : Prop :=
  ∀ before e later, trail = before ++ e :: later → S.Quiet (S.followAll g before) e

variable {S}

theorem QuietAlong.head {e : Session × Event} {rest : List (Session × Event)}
    (h : S.QuietAlong g (e :: rest)) : S.Quiet g e := h [] e rest rfl

theorem QuietAlong.left {before later : List (Session × Event)}
    (h : S.QuietAlong g (before ++ later)) : S.QuietAlong g before := by
  rintro first e last rfl
  exact h first e (last ++ later) (by simp)

theorem QuietAlong.right {before later : List (Session × Event)}
    (h : S.QuietAlong g (before ++ later)) : S.QuietAlong (S.followAll g before) later := by
  rintro first e last rfl
  have hquiet := h (before ++ first) e last (by simp)
  rwa [followAll_append] at hquiet

theorem QuietAlong.tail {e : Session × Event} {rest : List (Session × Event)}
    (h : S.QuietAlong g (e :: rest)) : S.QuietAlong (S.follow g e) rest := by
  have happend : S.QuietAlong g ([e] ++ rest) := h
  exact happend.right

theorem blocked_eq (h : S.Rel g s t) : t.blocked = s.blocked := by
  simp only [blocked, S.wait h]

theorem stuck (h : S.Rel g s t) (hs : s.Stuck budget) : t.Stuck budget :=
  hs.imp_right (blocked_eq h).trans

/-- The first turn of two related sessions has the same answer and leaves them related. -/
theorem step_eq (h : S.Rel g s t) (hq : S.Quiet g (s, .step)) {answer : Except Failure Bool}
    (hs : s.step = (answer, s.step.2)) :
    t.step = (answer, t.step.2) ∧ S.Rel (S.follow g (s, .step)) s.step.2 t.step.2 := by
  obtain ⟨hanswer, hrel⟩ := S.step h hq
  rw [hs] at hanswer
  exact ⟨Prod.ext hanswer rfl, hrel⟩

/-- Frames of related sessions answer alike and leave them related. -/
theorem stepUpTo {changed : Bool} (h : S.Rel g s t)
    (hq : S.QuietAlong g ((s.turns neverStops budget).map fun u => (u, .step))) :
    (t.stepUpTo changed budget).1 = (s.stepUpTo changed budget).1 ∧
      S.Rel (S.followAll g ((s.turns neverStops budget).map fun u => (u, .step)))
        (s.stepUpTo changed budget).2 (t.stepUpTo changed budget).2 := by
  induction s, budget using loop_induction generalizing g t changed with
  | stuck s budget hstuck =>
    rw [turns_of_stuck hstuck, stepUpTo_of_stuck hstuck, stepUpTo_of_stuck (stuck h hstuck)]
    exact ⟨rfl, h⟩
  | failed s budget failure hb hs =>
    have hb' : t.blocked = false := (blocked_eq h).trans hb
    rw [turns_of_step_error hb hs] at hq ⊢
    obtain ⟨hs', hrel⟩ := step_eq h hq.head hs
    rw [stepUpTo_of_step_error hb hs, stepUpTo_of_step_error hb' hs']
    exact ⟨rfl, hrel⟩
  | went s budget touched hb hs ih =>
    have hb' : t.blocked = false := (blocked_eq h).trans hb
    rw [turns_of_step_ok hb hs] at hq ⊢
    obtain ⟨hs', hrel⟩ := step_eq h hq.head hs
    rw [stepUpTo_of_step_ok hb hs, stepUpTo_of_step_ok hb' hs']
    exact ih hrel hq.tail

/-- Related sessions stay where they are after the same steps. -/
theorem stayed_eq {g' : γ} {u u' : Session} (h : S.Rel g s t) (h' : S.Rel g' u u') :
    stayed t u' = stayed s u := by
  simp only [stayed, S.wait h, S.wait h', S.pc h, S.pc h']

/-- Runs of related sessions end alike, with the same bar, and leave them related. -/
theorem runFrom (h : S.Rel g s t)
    (hq : S.QuietAlong g ((s.turns stayed budget).map fun u => (u, .step))) :
    (t.runFrom bar executed budget).result = (s.runFrom bar executed budget).result ∧
      (t.runFrom bar executed budget).bar = (s.runFrom bar executed budget).bar ∧
      S.Rel (S.followAll g ((s.turns stayed budget).map fun u => (u, .step)))
        (s.runFrom bar executed budget).session (t.runFrom bar executed budget).session := by
  induction s, budget using loop_induction generalizing g t bar executed with
  | stuck s budget hstuck =>
    rw [turns_of_stuck hstuck, runFrom_of_stuck hstuck, runFrom_of_stuck (stuck h hstuck)]
    exact ⟨rfl, rfl, h⟩
  | failed s budget failure hb hs =>
    have hb' : t.blocked = false := (blocked_eq h).trans hb
    rw [turns_of_step_error hb hs] at hq ⊢
    obtain ⟨hs', hrel⟩ := step_eq h hq.head hs
    rw [runFrom_of_step_error hb hs, runFrom_of_step_error hb' hs']
    exact ⟨rfl, rfl, hrel⟩
  | went s budget touched hb hs ih =>
    have hb' : t.blocked = false := (blocked_eq h).trans hb
    rw [turns_of_step_ok hb hs] at hq ⊢
    obtain ⟨hs', hrel⟩ := step_eq h hq.head hs
    have hstayed := stayed_eq h hrel
    cases hm : Session.stayed s s.step.2 with
    | true =>
      rw [runFrom_of_stayed hb hs hm, runFrom_of_stayed hb' hs' (hstayed.trans hm), S.pc h]
      exact ⟨rfl, rfl, S.idle hrel _ _⟩
    | false =>
      rw [runFrom_of_moved hb hs hm, runFrom_of_moved hb' hs' (hstayed.trans hm)]
      rw [hm] at hq
      exact ih hrel hq.tail

/-- Related sessions respond to a request alike and stay related. -/
theorem perform {request : Request} (h : S.Rel g s t) (hq : S.QuietAlong g (s.events request)) :
    (t.perform request).outcome = (s.perform request).outcome ∧
      S.Rel (S.followAll g (s.events request)) (s.perform request).session
        (t.perform request).session := by
  have hrespond {α : Type} {toAnswer : α → Answer} {first second : Except Failure α × Session}
      (he : second.1 = first.1) :
      (respond toAnswer second).outcome = (respond toAnswer first).outcome := by
    simp only [respond, Response.outcome, he]
  cases request with
  | step =>
    obtain ⟨hanswer, hrel⟩ := S.step h hq.head
    exact ⟨hrespond hanswer, hrel⟩
  | run limit withBar =>
    obtain ⟨hresult, hbar, hrel⟩ := runFrom h hq
    refine ⟨?_, hrel⟩
    simp only [Response.outcome, Session.perform, run, hresult, hbar]
  | frame count =>
    have htick := S.tick h hq.head
    obtain ⟨hanswer, hrel⟩ := stepUpTo htick hq.tail
    exact ⟨hrespond hanswer, hrel⟩
  | tick => exact ⟨rfl, S.tick h hq.head⟩
  | key number isDown =>
    obtain ⟨hanswer, hrel⟩ := S.key h number isDown hq.head
    exact ⟨hrespond hanswer, hrel⟩
  | load rom =>
    obtain ⟨hanswer, hrel⟩ := S.load h rom hq.head
    exact ⟨hrespond hanswer, hrel⟩
  | reset =>
    obtain ⟨hanswer, hrel⟩ := S.reset h hq.head
    exact ⟨hrespond hanswer, hrel⟩

/-- Related sessions respond alike along a history and end related. -/
theorem responses {history : List Request} (h : S.Rel g s t)
    (hq : S.QuietAlong g (s.trail history)) :
    (t.responses history).map Response.outcome = (s.responses history).map Response.outcome ∧
      S.Rel (S.followAll g (s.trail history)) (s.after history) (t.after history) := by
  induction history generalizing g s t with
  | nil => exact ⟨rfl, h⟩
  | cons request rest ih =>
    obtain ⟨hfirst, hrel⟩ := perform h hq.left
    obtain ⟨hrest, hlast⟩ := ih hrel hq.right
    refine ⟨?_, ?_⟩
    · simp only [Session.responses, List.map_cons, hfirst, hrest]
    · rw [trail, followAll_append]
      exact hlast

end Simulation

end Session

end Chip8
