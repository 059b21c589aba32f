import Chip8.Proofs.Session.Step

/-!
# Histories

Runs and frames are made of successive steps, and every other request is one elementary change.
Hence a property that the elementary changes keep is kept by every request and along every
history. The induction over loops and histories is done here once; an invariant is proved by
showing what a step, a tick and a key event do to it, and what a load makes of it.
-/

namespace Chip8

/-- Whether a request starts over with a program. -/
def Request.restarts : Request → Bool
  | load _ | reset => true
  | _ => false

namespace Session

variable {s : Session}

/-- The session after a number of successive steps, failed ones included. -/
def stepped (s : Session) : Nat → Session
  | 0 => s
  | count + 1 => s.step.2.stepped count

/-- A history can be cut before one of its requests. -/
theorem after_append_cons (s : Session) (history : List Request) (request : Request)
    (later : List Request) :
    s.after (history ++ request :: later) =
      ((s.after history).perform request).session.after later := by
  simp only [after, List.foldl_append, List.foldl_cons]

/-- The last of some successive steps can be split off. -/
theorem stepped_succ (s : Session) (count : Nat) :
    s.stepped (count + 1) = (s.stepped count).step.2 := by
  induction count generalizing s with
  | zero => rfl
  | succ count ih => exact ih s.step.2

/-- The sessions in which a loop makes its steps. A loop ends when its budget is used up, when a key
is awaited, with a step that fails and after a step on which it stops. -/
def turns (stops : Session → Session → Bool) (s : Session) : Nat → List Session
  | 0 => []
  | budget + 1 =>
    if s.blocked then []
    else
      match s.step with
      | (.error _, _) => [s]
      | (.ok _, after) => s :: if stops s after then [] else after.turns stops budget

/-- Whether a frame stops after a step: it never does. -/
def neverStops (_ _ : Session) : Bool := false

/-- A frame ends after the last of its turns. -/
theorem stepUpTo_session (s : Session) (changed : Bool) (budget : Nat) :
    (s.stepUpTo changed budget).2 = s.stepped (s.turns neverStops budget).length := by
  induction budget generalizing s changed with
  | zero => rfl
  | succ budget ih =>
    unfold stepUpTo turns
    split
    · rfl
    · rcases hs : s.step with ⟨failure | touched, after⟩
      · simp only [List.length_singleton, stepped, hs]
      · simp only [neverStops, Bool.false_eq_true, ite_false, List.length_cons, stepped, hs]
        exact ih after (changed || touched)

/-- A run ends after the last of its turns, possibly with an entry in the journal. -/
theorem runFrom_session (s : Session) (bar : Option (Bar Empty)) (executed budget : Nat) :
    ∃ journal, (s.runFrom bar executed budget).session =
      { s.stepped (s.turns stayed budget).length with journal } := by
  induction budget generalizing s bar executed with
  | zero => exact ⟨_, rfl⟩
  | succ budget ih =>
    unfold runFrom turns
    split
    · exact ⟨_, rfl⟩
    · rcases hs : s.step with ⟨failure | touched, after⟩
      · exact ⟨after.journal, by simp only [List.length_singleton, stepped, hs]⟩
      · simp only
        split
        · exact ⟨_, by simp only [List.length_singleton, stepped, hs]; rfl⟩
        · obtain ⟨journal, hc⟩ := ih after (bar.map (·.move 1)) (executed + 1)
          exact ⟨journal, by simp only [List.length_cons, stepped, hs, hc]⟩

/-- A property of sessions that every elementary change keeps, starting over apart. -/
structure Kept (P : Session → Prop) : Prop where
  journal : ∀ s journal, P s → P { s with journal }
  step : ∀ s, P s → P s.step.2
  tick : ∀ s, P s → P s.tick
  key : ∀ s number isDown, P s → P (s.setKey number isDown).2

variable {P : Session → Prop}

/-- What a step keeps, successive steps keep. -/
theorem Kept.stepped (hP : Kept P) (h : P s) (count : Nat) : P (s.stepped count) := by
  induction count with
  | zero => exact h
  | succ count ih =>
    rw [stepped_succ]
    exact hP.step _ ih

/-- A request that does not start over keeps whatever the elementary changes keep. -/
theorem Kept.perform (hP : Kept P) (h : P s) {request : Request}
    (hr : request.restarts = false) : P (s.perform request).session := by
  cases request with
  | step => exact hP.step s h
  | run limit withBar =>
    obtain ⟨journal, hc⟩ := s.runFrom_session
      (if withBar then some (.start limit none []) else none) 0 limit.toNat
    change P (s.runFrom _ _ _).session
    rw [hc]
    exact hP.journal _ journal (hP.stepped h _)
  | frame count =>
    change P (s.tick.stepUpTo _ _).2
    rw [stepUpTo_session]
    exact hP.stepped (hP.tick s h) _
  | tick => exact hP.tick s h
  | key number isDown => exact hP.key s number isDown h
  | load rom => cases hr
  | reset => cases hr

/-- A refused attempt to start over changes only the journal. -/
theorem session_of_refused {request : Request} {failure : Failure} (hr : request.restarts = true)
    (hf : (s.perform request).answer = .error failure) :
    ∃ journal, (s.perform request).session = { s with journal } := by
  cases request with
  | load rom =>
    rcases s.load_cases rom with ⟨-, journal, he⟩ | ⟨machine, journal, -, he⟩
    · exact ⟨journal, by simp only [Session.perform, respond, he]⟩
    · simp [Session.perform, respond, he, Except.map] at hf
  | reset =>
    obtain ⟨entry, hreset⟩ := s.reset_eq
    rcases load_cases { s with journal := entry } s.rom with
      ⟨-, journal, he⟩ | ⟨machine, journal, -, he⟩
    · exact ⟨journal, by simp only [Session.perform, respond, hreset, he]⟩
    · simp [Session.perform, respond, hreset, he, Except.map] at hf
  | _ => cases hr

/-- A history in which every attempt to start over is refused. -/
def Unbroken : Session → List Request → Prop
  | _, [] => True
  | s, request :: rest =>
    (request.restarts = true → ∃ failure, (s.perform request).answer = .error failure) ∧
      Unbroken (s.perform request).session rest

/-- Along a history in which nothing starts over, what the elementary changes keep stays true. -/
theorem Kept.after_of_unbroken (hP : Kept P) {history : List Request} (h : P s)
    (hu : Unbroken s history) : P (s.after history) := by
  induction history generalizing s with
  | nil => exact h
  | cons request rest ih =>
    obtain ⟨hr, hrest⟩ := hu
    suffices hone : P (s.perform request).session from ih hone hrest
    cases hstart : request.restarts with
    | false => exact hP.perform h hstart
    | true =>
      obtain ⟨failure, hf⟩ := hr hstart
      obtain ⟨journal, he⟩ := session_of_refused hstart hf
      rw [he]
      exact hP.journal s journal h

/-- Along every history, what the elementary changes and loads keep stays true. -/
theorem Kept.after (hP : Kept P) (hload : ∀ s rom, P s → P (s.load rom).2) (h : P s)
    (history : List Request) : P (s.after history) := by
  induction history generalizing s with
  | nil => exact h
  | cons request rest ih =>
    suffices hone : P (s.perform request).session from ih hone
    cases request with
    | load rom => exact hload s rom h
    | reset =>
      obtain ⟨journal, he⟩ := s.reset_eq
      change P s.reset.2
      rw [he]
      exact hload _ s.rom (hP.journal s journal h)
    | _ => exact hP.perform h rfl

end Session

end Chip8
