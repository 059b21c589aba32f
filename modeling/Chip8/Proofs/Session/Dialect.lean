import Chip8.Proofs.Machine.Dialect
import Chip8.Proofs.Session.Create
import Chip8.Proofs.Session.Simulation
import Chip8.Proofs.Session.Surroundings

/-!
# What the dialect of a session decides

Two sessions that differ in their dialect alone answer every request alike and stay that way, until
one of them carries out an instruction that is disputed between the two dialects. Up to there
whatever happens to one of them happens to the other.
-/

namespace Chip8

/-- The second list shows the first one entry by entry, up to and including the first entry with a
property. Nothing is said about what follows that entry. -/
inductive AgreeUntil {α β : Type} (p : α → Prop) (f : α → β) : List α → List β → Prop where
  | nil : AgreeUntil p f [] []
  | stop {a as bs} : p a → AgreeUntil p f (a :: as) (f a :: bs)
  | cons {a as bs} : AgreeUntil p f as bs → AgreeUntil p f (a :: as) (f a :: bs)

namespace AgreeUntil

variable {α β : Type} {p : α → Prop} {f : α → β} {as as' : List α} {bs bs' : List β}

/-- Two pairs of lists agree one after the other, the second pair if nothing stops in the first. -/
theorem append (h : AgreeUntil p f as bs) (h' : (∀ a ∈ as, ¬ p a) → AgreeUntil p f as' bs') :
    AgreeUntil p f (as ++ as') (bs ++ bs') := by
  induction h with
  | nil => exact h' fun a ha => absurd ha List.not_mem_nil
  | stop hp => exact .stop hp
  | @cons a as bs _ ih =>
    by_cases hp : p a
    · exact .stop hp
    · refine .cons (ih fun hnone => h' fun b hb => ?_)
      rcases List.mem_cons.mp hb with rfl | hb
      · exact hp
      · exact hnone b hb

/-- As long as no entry has the property, the entries so far and the next one agree. -/
theorem take_succ (h : AgreeUntil p f as bs) {count : Nat} (hnone : ∀ a ∈ as.take count, ¬ p a) :
    bs.take (count + 1) = (as.take (count + 1)).map f := by
  induction h generalizing count with
  | nil => rfl
  | @stop a as bs hp =>
    cases count with
    | zero => rfl
    | succ count => exact absurd hp (hnone a List.mem_cons_self)
  | @cons a as bs _ ih =>
    cases count with
    | zero => rfl
    | succ count =>
      rw [List.take_succ_cons, List.take_succ_cons, List.map_cons,
        ih fun b hb => hnone b (List.mem_cons_of_mem a hb)]

/-- Lists that agree still do so after both are mapped alike. -/
theorem map {γ δ : Type} {q : γ → Prop} {f' : γ → δ} {g : α → γ} {g' : β → δ}
    (h : AgreeUntil p f as bs) (hq : ∀ a, p a → q (g a)) (hf : ∀ a, g' (f a) = f' (g a)) :
    AgreeUntil q f' (as.map g) (bs.map g') := by
  induction h with
  | nil => exact .nil
  | stop hp =>
    rw [List.map_cons, List.map_cons, hf]
    exact .stop (hq _ hp)
  | cons _ ih =>
    rw [List.map_cons, List.map_cons, hf]
    exact .cons ih

end AgreeUntil

namespace Session

variable {s : Session} {d : Dialect}

/-- The same session in another dialect. -/
def inDialect (s : Session) (d : Dialect) : Session :=
  { s with dialect := d, machine := s.machine.inDialect d }

/-- The next step carries out an instruction that is disputed with another dialect. -/
def Disputes (s : Session) (d : Dialect) : Prop :=
  ∃ i, s.Executes i ∧ s.machine.Disputed d i

/-- A step does the same in both dialects unless it carries out a disputed instruction. -/
theorem step_inDialect (h : ¬ s.Disputes d) :
    (s.inDialect d).step = Prod.map id (·.inDialect d) s.step := by
  have hnotices : ∀ i, s.Executes i → ¬ s.machine.Notices (.toDialect d) i :=
    fun i hi hnotices => h ⟨i, hi, Machine.notices_toDialect_iff.mp hnotices⟩
  exact step_change hnotices

/-- A step without a disputed instruction gives the same answer and the same session in both
dialects. -/
theorem step_inDialect_of_eq {answer : Except Failure Bool} {t : Session} (h : ¬ s.Disputes d)
    (hs : s.step = (answer, t)) : (s.inDialect d).step = (answer, t.inDialect d) := by
  rw [step_inDialect h, hs]
  rfl

/-- A key event does the same in both dialects. -/
theorem setKey_inDialect (s : Session) (d : Dialect) (number : Int) (isDown : Bool) :
    (s.inDialect d).setKey number isDown =
      Prod.map id (·.inDialect d) (s.setKey number isDown) := by
  unfold setKey
  cases Keypad.key? number with
  | none => rfl
  | some key => rfl

/-- A load does the same in both dialects, apart from the dialect of the fresh machine. -/
theorem load_inDialect (s : Session) (d : Dialect) (rom : List UInt8) :
    (s.inDialect d).load rom = Prod.map id (·.inDialect d) (s.load rom) := by
  unfold load
  rcases Nat.lt_or_ge romCapacity rom.length with h | h
  · rw [Machine.loadProgram?_of_lt _ h, Machine.loadProgram?_of_lt _ h]
    rfl
  · rw [Machine.loadProgram?_of_le _ h, Machine.loadProgram?_of_le _ h]
    rfl

/-- A creation does the same in both dialects, apart from the dialect of the session. -/
theorem create_inDialect (rom : Option (List UInt8)) (dialect : Dialect) (seed : Random.Block)
    (journal : Journal) :
    create rom d seed journal =
      Prod.map id (·.inDialect d) (create rom dialect seed journal) := by
  cases rom with
  | none => rfl
  | some rom => exact (vacant dialect seed journal).load_inDialect d rom

/-- The turns of a loop meet the same sessions in both dialects, until a disputed instruction is
carried out. -/
theorem turns_inDialect {stops : Session → Session → Bool}
    (hstops : ∀ t u : Session, stops (t.inDialect d) (u.inDialect d) = stops t u) (s : Session)
    (budget : Nat) :
    AgreeUntil (·.Disputes d) (·.inDialect d) (s.turns stops budget)
      ((s.inDialect d).turns stops budget) := by
  induction s, budget using loop_induction with
  | stuck s budget hstuck =>
    have hstuck' : (s.inDialect d).Stuck budget := hstuck
    rw [turns_of_stuck hstuck, turns_of_stuck hstuck']
    exact .nil
  | failed s budget failure hb hs =>
    have hb' : (s.inDialect d).blocked = false := hb
    rw [turns_of_step_error hb hs]
    by_cases hd : s.Disputes d
    · obtain ⟨rest, he⟩ := turns_of_not_blocked stops budget hb'
      rw [he]
      exact .stop hd
    · rw [turns_of_step_error hb' (step_inDialect_of_eq hd hs)]
      exact .cons .nil
  | went s budget touched hb hs ih =>
    have hb' : (s.inDialect d).blocked = false := hb
    rw [turns_of_step_ok hb hs]
    by_cases hd : s.Disputes d
    · obtain ⟨rest, he⟩ := turns_of_not_blocked stops budget hb'
      rw [he]
      exact .stop hd
    · rw [turns_of_step_ok hb' (step_inDialect_of_eq hd hs), hstops]
      refine .cons ?_
      cases stops s s.step.2 with
      | true => exact .nil
      | false => exact ih

/-- The event is a step in which its session carries out an instruction that is disputed with
another dialect. -/
def DisputedEvent (d : Dialect) (e : Session × Event) : Prop := e.2 = .step ∧ e.1.Disputes d

/-- The same event, its session in another dialect. -/
def eventInDialect (d : Dialect) (e : Session × Event) : Session × Event := (e.1.inDialect d, e.2)

/-- What a request makes happen is the same in both dialects, until a disputed instruction is
carried out. -/
theorem events_inDialect (s : Session) (d : Dialect) (request : Request) :
    AgreeUntil (DisputedEvent d) (eventInDialect d) (s.events request)
      ((s.inDialect d).events request) := by
  have hturns {stops : Session → Session → Bool} (t : Session) (budget : Nat)
      (hstops : ∀ t u : Session, stops (t.inDialect d) (u.inDialect d) = stops t u) :
      AgreeUntil (DisputedEvent d) (eventInDialect d)
        ((t.turns stops budget).map fun u => (u, Event.step))
        (((t.inDialect d).turns stops budget).map fun u => (u, Event.step)) :=
    (turns_inDialect hstops t budget).map (fun _ hu => ⟨rfl, hu⟩) fun _ => rfl
  cases request with
  | run limit withBar => exact hturns s limit.toNat fun _ _ => rfl
  | frame count => exact .cons (hturns s.tick count.toNat fun _ _ => rfl)
  | _ => exact .cons .nil

end Session

/-- The same response, its session in another dialect. -/
def Response.inDialect (r : Response) (d : Dialect) : Response :=
  { r with session := r.session.inDialect d }

namespace Session

variable {s : Session} {d : Dialect} {history : List Request}

/-- A session and the same session in another dialect, as long as no disputed instruction is carried
out. -/
def dialectSimulation (d : Dialect) : Simulation Unit where
  Rel _ s t := t = s.inDialect d
  follow record _ := record
  Quiet _ e := ¬ DisputedEvent d e
  wait h := by rw [h]; rfl
  pc h := by rw [h]; rfl
  idle h _ _ := by rw [h]; rfl
  step := by
    rintro _ s _ rfl hquiet
    have hstep : ¬ s.Disputes d := fun hd => hquiet ⟨rfl, hd⟩
    rw [step_inDialect hstep]
    exact ⟨rfl, rfl⟩
  tick h _ := by rw [h]; rfl
  key h number isDown _ := by
    rw [h, setKey_inDialect]
    exact ⟨rfl, rfl⟩
  load h rom _ := by
    rw [h, load_inDialect]
    exact ⟨rfl, rfl⟩
  reset := by
    rintro _ s _ rfl -
    have hreset : (s.inDialect d).reset = Prod.map id (·.inDialect d) s.reset :=
      (s.note .debug "Reset").load_inDialect d s.rom
    rw [hreset]
    exact ⟨rfl, rfl⟩

/-- A request along which no disputed instruction is carried out has the same response in both
dialects. -/
theorem perform_inDialect {request : Request}
    (h : ∀ e ∈ s.events request, ¬ DisputedEvent d e) :
    (s.inDialect d).perform request = (s.perform request).inDialect d := by
  have hquiet : (dialectSimulation d).QuietAlong () (s.events request) := by
    intro before e later he
    exact h e (by simp [he])
  obtain ⟨houtcome, hsession⟩ := Simulation.perform (S := dialectSimulation d) rfl hquiet
  exact Response.eq_of_outcome_eq houtcome hsession

/-- What a history makes happen is the same in both dialects, until a disputed instruction is
carried out. -/
theorem trail_inDialect (s : Session) (d : Dialect) (history : List Request) :
    AgreeUntil (DisputedEvent d) (eventInDialect d) (s.trail history)
      ((s.inDialect d).trail history) := by
  induction history generalizing s with
  | nil => exact .nil
  | cons request rest ih =>
    refine (s.events_inDialect d request).append fun hnone => ?_
    rw [perform_inDialect hnone]
    exact ih (s.perform request).session

/-- A history along which no disputed instruction is carried out has the same responses in both
dialects. -/
theorem responses_inDialect (h : ∀ e ∈ s.trail history, ¬ DisputedEvent d e) :
    (s.inDialect d).responses history = (s.responses history).map (·.inDialect d) := by
  induction history generalizing s with
  | nil => rfl
  | cons request rest ih =>
    have hfirst := perform_inDialect fun e he => h e (List.mem_append_left _ he)
    have hrest := ih fun e he => h e (List.mem_append_right _ he)
    simp only [responses, List.map_cons, hfirst]
    exact congrArg _ hrest

/-- What a dialect decides. An instruction word has the same effect in two dialects unless it is a
disputed instruction, and moving registers to and from memory can only leave different indices. So
two new sessions in two dialects live through the same events, as long as no disputed instruction is
carried out, and give the same responses. -/
theorem agree_until_disputed :
    (∀ (m : Machine) (d : Dialect) (w : Int),
      ((∀ i, decode w = .ok i → ¬ m.Disputed d i) →
        (m.inDialect d).execute w = (m.execute w).map (·.inDialect d)) ∧
      ∀ i, decode w = .ok i → i.op = .store ∨ i.op = .load →
        (m.inDialect d).execute w = (m.execute w).map fun n =>
          { n.inDialect d with index := (m.inDialect d).indexAfterTransfer i.x }) ∧
    ∀ (rom : Option (List UInt8)) (d d' : Dialect) (seed : Random.Block) (journal : Journal),
      create rom d' seed journal = Prod.map id (·.inDialect d') (create rom d seed journal) ∧
      ∀ history : List Request,
        (∀ count,
          (∀ e ∈ ((create rom d seed journal).2.trail history).take count,
            ¬ DisputedEvent d' e) →
          ((create rom d' seed journal).2.trail history).take (count + 1) =
            (((create rom d seed journal).2.trail history).take (count + 1)).map
              (eventInDialect d')) ∧
        ((∀ e ∈ (create rom d seed journal).2.trail history, ¬ DisputedEvent d' e) →
          (create rom d' seed journal).2.responses history =
            ((create rom d seed journal).2.responses history).map (·.inDialect d')) := by
  constructor
  · intro m d w
    constructor
    · intro h
      exact Machine.execute_inDialect h
    · intro i hi hop
      exact Machine.execute_transfer_inDialect hi hop
  · intro rom d d' seed journal
    have hcreate := create_inDialect (d := d') rom d seed journal
    refine ⟨hcreate, ?_⟩
    intro history
    rw [hcreate]
    constructor
    · intro count hnone
      have hagree := (create rom d seed journal).2.trail_inDialect d' history
      exact hagree.take_succ hnone
    · intro hnone
      exact responses_inDialect hnone

/-- A shift that names one register twice is not disputed between the two dialects that have a
name, although they disagree on shifts. -/
theorem agree_on_shift_in_place :
    ∃ s t, s = (create (some [0x60, 0x05, 0x80, 0x06]) .cosmac ⟨0, 0⟩ (.start "chip8" .warning)).2 ∧
      t = (create (some [0x60, 0x05, 0x80, 0x06]) .modern ⟨0, 0⟩ (.start "chip8" .warning)).2 ∧
      (∀ i, decode 0x8006 = .ok i → ¬ s.machine.Disputed .modern i) ∧
      (s.machine.inDialect .modern).execute 0x8006 =
        (s.machine.execute 0x8006).map (·.inDialect .modern) ∧
      (∀ e ∈ s.trail [.step, .step], ¬ DisputedEvent .modern e) ∧
      t.responses [.step, .step] = (s.responses [.step, .step]).map (·.inDialect .modern) := by
  obtain ⟨hwords, hsessions⟩ := agree_until_disputed
  obtain ⟨-, hhistories⟩ := hsessions (some [0x60, 0x05, 0x80, 0x06]) .cosmac .modern ⟨0, 0⟩
    (.start "chip8" .warning)
  obtain ⟨-, hresponses⟩ := hhistories [.step, .step]
  obtain ⟨s, hs⟩ : ∃ s, s = (create (some [0x60, 0x05, 0x80, 0x06]) .cosmac ⟨0, 0⟩
    (.start "chip8" .warning)).2 := ⟨_, rfl⟩
  rw [← hs] at hresponses
  have hshift (m : Machine) : ¬ m.Disputed .modern ⟨.alu .shiftRight, 0x8006⟩ := by
    rintro ⟨-, -, hne⟩
    exact hne rfl
  have hdecode : ∀ i, decode 0x8006 = .ok i → ¬ s.machine.Disputed .modern i := by
    intro i hi
    obtain rfl : ⟨.alu .shiftRight, 0x8006⟩ = i := Except.ok.inj hi
    exact hshift s.machine
  obtain ⟨hfirst, hsecond⟩ : s.Executes ⟨.setByte, 0x6005⟩ ∧
      s.step.2.Executes ⟨.alu .shiftRight, 0x8006⟩ := by
    rw [hs]
    decide +kernel
  have hundisputed : ∀ e ∈ s.trail [.step, .step], ¬ DisputedEvent .modern e := by
    rintro e he ⟨-, i, hi, hdisputed⟩
    obtain rfl | rfl : e = (s, .step) ∨ e = (s.step.2, .step) := by
      simpa [trail, events, perform, respond] using he
    · obtain rfl := hi.2.1.unique hfirst.2.1
      exact hdisputed
    · obtain rfl := hi.2.1.unique hsecond.2.1
      exact hshift s.step.2.machine hdisputed
  exact ⟨s, _, hs, rfl, hdecode, (hwords s.machine .modern 0x8006).1 hdecode, hundisputed,
    hresponses hundisputed⟩

end Session

end Chip8
