import Mathlib.Logic.Function.Iterate
import Chip8.Proofs.Session.Create
import Chip8.Proofs.Session.Trail

/-!
# The random bytes of a program

A stream of random bytes starts with every program that is accepted and moves on with every random
instruction that is carried out. Nothing else reaches it. So the seed of a session and the number of
random instructions before one decide together which byte that instruction draws.
-/

namespace Chip8

namespace Machine

variable {m n : Machine} {i : Instruction}

/-- A random instruction puts the next byte of the stream under its mask into its register and moves
the stream on, whatever the mask. -/
theorem draw_of_random (hop : i.op = .random) (h : m.perform i = .ok n) :
    n.register i.x = Random.draw m.random &&& i.nn ∧ n.random = Random.next m.random := by
  obtain ⟨op, word⟩ := i
  obtain rfl : op = .random := hop
  cases h
  refine ⟨?_, rfl⟩
  change (m.setRegister _ _).register _ = _
  rw [register_setRegister, if_pos rfl]

end Machine

namespace Session

variable {s t : Session} {i : Instruction} {seed : Random.Block}
variable {done : List (Session × Instruction)}

/-- The random instructions since the machine was fresh, after one more event. A step that carries
out a random instruction adds it, with the session that makes the step, and an accepted program
starts anew. -/
def addDraw (done : List (Session × Instruction)) (e : Session × Event) :
    List (Session × Instruction) :=
  match e.2 with
  | .step =>
    match e.1.executed? with
    | some i => if i.op = .random then done ++ [(e.1, i)] else done
    | none => done
  | .tick | .key _ _ => done
  | .load rom =>
    match (e.1.load rom).1 with
    | .ok () => []
    | .error _ => done

/-- The random instructions that a trail has carried out since a program was last accepted, or from
its start on if none was. -/
def draws (trail : List (Session × Event)) : List (Session × Instruction) := trail.foldl addDraw []

/-- A session of a seed whose stream has served some random instructions, each of them with the key
that its number gives. -/
structure Served (seed : Random.Block) (done : List (Session × Instruction)) (s : Session) :
    Prop where
  seeded : s.seed = seed
  stream : s.machine.random = Random.next^[done.length] seed
  keyed : ∀ j u i, done[j]? = some (u, i) →
    u.Executes i ∧ i.op = .random ∧ u.machine.random = Random.next^[j] seed

/-- A step never changes the seed of its session. -/
theorem seed_step (s : Session) : s.step.2.seed = s.seed := by
  rcases s.step_cases with ⟨report, -, he⟩ | ⟨-, -, he⟩ | ⟨key, journal, -, -, -, he⟩ |
    ⟨op, machine, journal, -, -, -, he⟩ | ⟨report, journal, -, -, -, he⟩
  all_goals rw [he]

/-- A step that carries out an instruction moves the stream on exactly if the instruction is a random
one. -/
theorem random_of_executes (h : s.Executes i) :
    s.step.2.machine.random =
      if i.op = .random then Random.next s.machine.random else s.machine.random := by
  obtain ⟨next, journal, hn, he⟩ := h.step_eq
  have hnext : s.step.2.machine.random = next.random := by rw [he]
  rw [hnext]
  by_cases hop : i.op = .random
  · rw [if_pos hop]
    exact (Machine.draw_of_random hop hn).2
  · rw [if_neg hop]
    exact (Machine.frame_of_perform hn).random hop

/-- A step that carries out a random instruction draws the byte of the key that it finds. -/
theorem register_of_executes (h : s.Executes i) (hop : i.op = .random) :
    s.step.2.machine.register i.x = Random.draw s.machine.random &&& i.nn := by
  obtain ⟨next, journal, hn, he⟩ := h.step_eq
  have hnext : s.step.2.machine.register i.x = next.register i.x := by
    rw [he]
    rfl
  rw [hnext]
  exact (Machine.draw_of_random hop hn).1

/-- One more random instruction is served with the key that follows. -/
theorem Served.keyed_append (hs : s.Served seed done) (hexecutes : s.Executes i)
    (hop : i.op = .random) {j : Nat} {u : Session} {k : Instruction}
    (hj : (done ++ [(s, i)])[j]? = some (u, k)) :
    u.Executes k ∧ k.op = .random ∧ u.machine.random = Random.next^[j] seed := by
  rcases Nat.lt_trichotomy j done.length with hlt | rfl | hgt
  · rw [List.getElem?_append_left hlt] at hj
    exact hs.keyed j u k hj
  · rw [List.getElem?_concat_length] at hj
    obtain ⟨rfl, rfl⟩ := Prod.mk.inj (Option.some.inj hj)
    exact ⟨hexecutes, hop, hs.stream⟩
  · have hlength : (done ++ [(s, i)]).length ≤ j := by
      rw [List.length_append]
      exact hgt
    rw [List.getElem?_eq_none hlength] at hj
    cases hj

/-- A step serves its instruction if that is a random one and leaves the stream alone if not. -/
theorem Served.step (hs : s.Served seed done) :
    s.step.2.Served seed (addDraw done (s, .step)) := by
  cases hexecuted : s.executed? with
  | none =>
    obtain ⟨registers, pc, wait, he⟩ :=
      machine_step_of_not_executes (executed?_eq_none_iff.mp hexecuted)
    have hrandom : s.step.2.machine.random = s.machine.random := by rw [he]
    simp only [addDraw, hexecuted]
    exact ⟨s.seed_step.trans hs.seeded, hrandom.trans hs.stream, hs.keyed⟩
  | some i =>
    have hexecutes := executed?_eq_some_iff.mp hexecuted
    have hrandom := random_of_executes hexecutes
    simp only [addDraw, hexecuted]
    by_cases hop : i.op = .random
    · rw [if_pos hop] at hrandom ⊢
      refine ⟨s.seed_step.trans hs.seeded, ?_, fun j u k => hs.keyed_append hexecutes hop⟩
      rw [hrandom, hs.stream, List.length_append, List.length_singleton,
        Function.iterate_succ_apply']
    · rw [if_neg hop] at hrandom ⊢
      exact ⟨s.seed_step.trans hs.seeded, hrandom.trans hs.stream, hs.keyed⟩

/-- A load starts the stream anew if its program is accepted. -/
theorem Served.load (hs : s.Served seed done) (rom : List UInt8) :
    (s.load rom).2.Served seed (addDraw done (s, .load rom)) := by
  rcases Nat.lt_or_ge romCapacity rom.length with h | h
  · obtain ⟨journal, he⟩ := s.load_of_lt h
    simp only [addDraw, he]
    exact ⟨hs.seeded, hs.stream, hs.keyed⟩
  · obtain ⟨journal, he⟩ := s.load_of_le h
    simp only [addDraw, he]
    exact ⟨hs.seeded, hs.seeded, fun _ _ _ hj => by simp at hj⟩

/-- Every event serves what it carries out. -/
theorem Served.next (hs : s.Served seed done) (event : Event) :
    (s.next event).Served seed (addDraw done (s, event)) := by
  cases event with
  | step => exact hs.step
  | tick => exact ⟨hs.seeded, hs.stream, hs.keyed⟩
  | key number isDown =>
    change (s.setKey number isDown).2.Served seed done
    rcases s.setKey_cases number isDown with ⟨-, he⟩ | ⟨key, -, he⟩
    · rw [he]
      exact hs
    · rw [he]
      exact ⟨hs.seeded, hs.stream, hs.keyed⟩
  | load rom => exact hs.load rom

/-- Along a trail the stream serves what is carried out. -/
theorem Leads.served {trail : List (Session × Event)} (ht : Leads s trail t)
    (hs : s.Served seed done) : t.Served seed (trail.foldl addDraw done) := by
  induction ht generalizing done with
  | nil => exact hs
  | @cons s t event rest journal _ ih =>
    have hnext := hs.next event
    exact ih ⟨hnext.seeded, hnext.stream, hnext.keyed⟩

/-- A new session has served nothing. -/
theorem served_create (rom : Option (List UInt8)) (dialect : Dialect) (seed : Random.Block)
    (journal : Journal) : (create rom dialect seed journal).2.Served seed [] := by
  have hvacant : (vacant dialect seed journal).Served seed [] :=
    ⟨rfl, rfl, fun _ _ _ hj => by simp at hj⟩
  cases rom with
  | none => exact hvacant
  | some rom =>
    have hload := hvacant.load rom
    have hnone : addDraw [] (vacant dialect seed journal, .load rom) = [] := by
      simp only [addDraw]
      split <;> rfl
    rw [hnone] at hload
    exact hload

/-- The stream of random bytes along every history. It has moved on once for every random
instruction since a program was last accepted, and the instruction of a number has drawn the byte of
that number under its mask. So two sessions with the same seed draw the same bytes, whatever their
programs, dialects and hosts do besides. -/
theorem stream_after_create (rom : Option (List UInt8)) (dialect : Dialect) (seed : Random.Block)
    (journal : Journal) (history : List Request) :
    ((create rom dialect seed journal).2.after history).machine.random =
        Random.next^[(draws ((create rom dialect seed journal).2.trail history)).length] seed ∧
      (∀ j u i, (draws ((create rom dialect seed journal).2.trail history))[j]? = some (u, i) →
        u.Executes i ∧ i.op = .random ∧
          u.step.2.machine.register i.x =
            Random.byteOf (Random.drawKey (Random.next^[j] seed)) &&& i.nn) ∧
      ∀ (rom' : Option (List UInt8)) (dialect' : Dialect) (journal' : Journal)
        (history' : List Request) (j : Nat) (u u' : Session) (i i' : Instruction),
        (draws ((create rom dialect seed journal).2.trail history))[j]? = some (u, i) →
        (draws ((create rom' dialect' seed journal').2.trail history'))[j]? = some (u', i') →
        Random.draw u'.machine.random = Random.draw u.machine.random ∧
          (i'.nn = i.nn →
            u'.step.2.machine.register i'.x = u.step.2.machine.register i.x) := by
  have hserved (rom : Option (List UInt8)) (dialect : Dialect) (journal : Journal)
      (history : List Request) :=
    ((create rom dialect seed journal).2.leads_trail history).served
      (served_create rom dialect seed journal)
  have hs := hserved rom dialect journal history
  refine ⟨hs.stream, ?_, ?_⟩
  · intro j u i hj
    obtain ⟨hexecutes, hop, hkey⟩ := hs.keyed j u i hj
    refine ⟨hexecutes, hop, ?_⟩
    rw [register_of_executes hexecutes hop, hkey]
    rfl
  · intro rom' dialect' journal' history' j u u' i i' hj hj'
    obtain ⟨hexecutes, hop, hkey⟩ := hs.keyed j u i hj
    obtain ⟨hexecutes', hop', hkey'⟩ :=
      (hserved rom' dialect' journal' history').keyed j u' i' hj'
    refine ⟨by rw [hkey, hkey'], fun hmask => ?_⟩
    rw [register_of_executes hexecutes hop, register_of_executes hexecutes' hop', hkey, hkey',
      hmask]

/-- The second random instruction of a program draws the second byte of the stream, in steps with a
tick and a key between them as in a single frame of another dialect. -/
theorem stream_around_signals :
    ∃ s t u u', s = (create (some [0xC0, 0x00, 0xC1, 0x0F]) .cosmac ⟨0, 7⟩
        (.start "chip8" .warning)).2 ∧
      t = (create (some [0xC0, 0x00, 0xC1, 0x0F]) .modern ⟨0, 7⟩ (.start "chip8" .debug)).2 ∧
      (draws (s.trail [.step, .tick, .key 3 true, .step]))[1]? =
        some (u, ⟨.random, 0xC10F⟩) ∧
      (draws (t.trail [.frame 2]))[1]? = some (u', ⟨.random, 0xC10F⟩) ∧
      u.step.2.machine.register 1 =
        Random.byteOf (Random.drawKey (Random.next ⟨0, 7⟩)) &&& 0x0F ∧
      u'.step.2.machine.register 1 = u.step.2.machine.register 1 := by
  obtain ⟨s, hs⟩ : ∃ s, s = (create (some [0xC0, 0x00, 0xC1, 0x0F]) .cosmac ⟨0, 7⟩
    (.start "chip8" .warning)).2 := ⟨_, rfl⟩
  obtain ⟨t, ht⟩ : ∃ t, t = (create (some [0xC0, 0x00, 0xC1, 0x0F]) .modern ⟨0, 7⟩
    (.start "chip8" .debug)).2 := ⟨_, rfl⟩
  obtain ⟨⟨u, i⟩, hj, hi⟩ : ∃ e, (draws (s.trail [.step, .tick, .key 3 true, .step]))[1]? = some e ∧
      e.2 = ⟨.random, 0xC10F⟩ := by
    rw [← Option.map_eq_some_iff, hs]
    decide +kernel
  obtain ⟨⟨u', i'⟩, hj', hi'⟩ : ∃ e, (draws (t.trail [.frame 2]))[1]? = some e ∧
      e.2 = ⟨.random, 0xC10F⟩ := by
    rw [← Option.map_eq_some_iff, ht]
    decide +kernel
  obtain rfl : i = ⟨.random, 0xC10F⟩ := hi
  obtain rfl : i' = ⟨.random, 0xC10F⟩ := hi'
  obtain ⟨-, hstored, hsame⟩ := stream_after_create (some [0xC0, 0x00, 0xC1, 0x0F]) .cosmac ⟨0, 7⟩
    (.start "chip8" .warning) [.step, .tick, .key 3 true, .step]
  rw [← hs] at hstored hsame
  have hbytes := hsame (some [0xC0, 0x00, 0xC1, 0x0F]) .modern (.start "chip8" .debug) [.frame 2]
    1 u u' _ _ hj (by rw [← ht]; exact hj')
  obtain ⟨-, -, hregister⟩ := hstored 1 u _ hj
  exact ⟨s, t, u, u', hs, ht, hj, hj', hregister, hbytes.2 rfl⟩

end Session

end Chip8
