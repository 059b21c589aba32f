import Chip8.Proofs.Machine.Reads
import Chip8.Proofs.Session.Reset
import Chip8.Proofs.Session.Simulation

/-!
# Bytes that are never read

Two sessions whose machines differ in some bytes of memory alone do the same as long as no step reads
one of these bytes. A step reads the word at the program counter and the run of bytes that a draw or
a load takes from the index on. A byte that a step stores is the same in both machines afterwards, so
reading it later does no harm until a program is accepted again.
-/

namespace Chip8.Session

variable {s t : Session} {differing exposed : Set (Fin memorySize)}

/-- The bytes of a set that the next step of a session does not store. -/
def unstored (s : Session) (differing : Set (Fin memorySize)) : Set (Fin memorySize) :=
  {k ∈ differing | ¬ ∃ i, s.Stores i k}

/-- A step that carries out no instruction stores nothing. -/
theorem unstored_of_not_executes (h : ∀ i, ¬ s.Executes i) : s.unstored differing = differing := by
  ext k
  refine ⟨fun hk => hk.1, fun hk => ⟨hk, ?_⟩⟩
  rintro ⟨i, hstores⟩
  exact h i hstores.executes

/-- A step that carries out an instruction stores the run from the index on that the instruction
says. -/
theorem Executes.mem_unstored {i : Instruction} (h : s.Executes i) {k : Fin memorySize} :
    k ∈ s.unstored differing ↔ k ∈ differing ∧
      ¬ (s.machine.index.toNat ≤ k.val ∧ k.val < s.machine.index.toNat + i.stored) := by
  change k ∈ differing ∧ ¬ (∃ i, s.Stores i k) ↔ _
  rw [h.stores_iff]

/-- The machines of two sessions differ only in some bytes of memory, and if one session has failed
then the other one has failed alike. -/
structure AlikeBut (differing : Set (Fin memorySize)) (s t : Session) : Prop where
  failure : t.failure = s.failure
  machine : s.machine.AlikeBut differing t.machine

theorem AlikeBut.wait (h : s.AlikeBut differing t) : t.machine.wait = s.machine.wait := by
  rw [h.machine.rest]
  rfl

theorem AlikeBut.pc (h : s.AlikeBut differing t) : t.machine.pc = s.machine.pc := by
  rw [h.machine.rest]
  rfl

/-- The next step of a session does not read any byte of a set. -/
def Unread (differing : Set (Fin memorySize)) (s : Session) : Prop :=
  s.status = .ready → ∀ k ∈ differing, ¬ s.machine.Reads k

/-- If two ready sessions differ only in bytes which the step does not read, both fail alike and keep
their machines, or both carry out the same instruction. -/
theorem AlikeBut.step_of_ready (h : s.AlikeBut differing t) (hready : s.status = .ready)
    (hunread : s.Unread differing) :
    (∃ report journal journal',
      s.step = (.error (.execution report), { s with failure := some report, journal }) ∧
      t.step = (.error (.execution report),
        { t with failure := some report, journal := journal' })) ∨
    ∃ i, s.Executes i ∧ s.step.1 = .ok i.op.touchesScreen ∧ t.step.1 = .ok i.op.touchesScreen ∧
      s.step.2.AlikeBut (s.unstored differing) t.step.2 := by
  obtain ⟨hf, ha⟩ := status_eq_ready_iff.mp hready
  have hf' : t.failure = none := h.failure.trans hf
  have ha' : t.machine.wait.active = false := by rw [h.wait, ha]
  rcases h.machine.cycle (hunread hready) with ⟨report, hc, hc'⟩ |
    ⟨i, next, next', hi, hc, hc', hrest, hmemory⟩
  · obtain ⟨journal, he⟩ := step_of_cycle_error hf ha hc
    obtain ⟨journal', he'⟩ := step_of_cycle_error hf' ha' hc'
    exact Or.inl ⟨report, journal, journal', he, he'⟩
  · obtain ⟨journal, he⟩ := step_of_cycle_ok hf ha hc
    obtain ⟨journal', he'⟩ := step_of_cycle_ok hf' ha' hc'
    have hexecutes : s.Executes i := ⟨hready, hi, _, congrArg Prod.fst he⟩
    refine Or.inr ⟨i, hexecutes, congrArg Prod.fst he, congrArg Prod.fst he', ?_⟩
    rw [he, he']
    refine ⟨h.failure, hrest, fun k => ?_⟩
    rw [hexecutes.mem_unstored]
    exact hmemory k

/-- A step of two sessions that differ only in bytes which it does not read has the same answer in
both. Afterwards they differ in the same bytes, those apart that the step stores. -/
theorem AlikeBut.step (h : s.AlikeBut differing t) (hunread : s.Unread differing) :
    t.step.1 = s.step.1 ∧ s.step.2.AlikeBut (s.unstored differing) t.step.2 := by
  by_cases hready : s.status = .ready
  · rcases h.step_of_ready hready hunread with
      ⟨report, journal, journal', he, he'⟩ | ⟨i, -, hs, ht, hafter⟩
    · have hnone : ∀ i, ¬ s.Executes i := by
        rintro i ⟨-, -, touched, hok⟩
        rw [he] at hok
        cases hok
      rw [unstored_of_not_executes hnone, he, he']
      exact ⟨rfl, rfl, h.machine⟩
    · exact ⟨ht.trans hs.symm, hafter⟩
  · rw [unstored_of_not_executes fun i hi => hready hi.1]
    cases hf : s.failure with
    | some report =>
      rw [step_of_failure hf, step_of_failure (h.failure.trans hf)]
      exact ⟨rfl, h⟩
    | none =>
      have ha : s.machine.wait.active = true :=
        Bool.of_not_eq_false fun ha => hready (status_eq_ready_iff.mpr ⟨hf, ha⟩)
      have hf' : t.failure = none := h.failure.trans hf
      have ha' : t.machine.wait.active = true := by rw [h.wait, ha]
      obtain ⟨journal, he⟩ := s.resume_eq
      obtain ⟨journal', he'⟩ := t.resume_eq
      rw [step_of_active hf ha, step_of_active hf' ha', he, he']
      exact ⟨rfl, h.failure, h.machine.map Machine.resume_withMemory⟩

/-- A tick does not reach memory. -/
theorem AlikeBut.tick (h : s.AlikeBut differing t) : s.tick.AlikeBut differing t.tick :=
  ⟨h.failure, h.machine.map (f := Machine.tick) fun _ _ => rfl⟩

/-- A key event has the same answer in both sessions and does not reach memory. -/
theorem AlikeBut.setKey (h : s.AlikeBut differing t) (number : Int) (isDown : Bool) :
    (t.setKey number isDown).1 = (s.setKey number isDown).1 ∧
      (s.setKey number isDown).2.AlikeBut differing (t.setKey number isDown).2 := by
  unfold Session.setKey
  cases Keypad.key? number with
  | none => exact ⟨rfl, h⟩
  | some key => exact ⟨rfl, h.failure, h.machine.map (f := (·.setKey key isDown)) fun _ _ => rfl⟩

/-- The bytes of memory in which two programs differ. A program that is shorter than the other one
counts as followed by zeros. -/
def differingBytes (rom rom' : List UInt8) : Set (Fin memorySize) :=
  {k | 0x200 ≤ k.val ∧ rom'[k.val - 0x200]?.getD 0 ≠ rom[k.val - 0x200]?.getD 0}

theorem differingBytes_self_subset (rom : List UInt8) : differingBytes rom rom ⊆ differing :=
  fun _ hk => absurd rfl hk.2

/-- Two fresh machines differ in the bytes in which their programs differ. -/
theorem alikeBut_loadedMachine (hdialect : t.dialect = s.dialect) (hseed : t.seed = s.seed)
    (rom rom' : List UInt8) :
    (s.loadedMachine rom).AlikeBut (differingBytes rom rom') (t.loadedMachine rom') := by
  refine ⟨?_, fun k => ?_⟩
  · rw [loadedMachine, freshMachine, hdialect, hseed]
    rfl
  · change (Machine.blankMemory.patch programStart rom').get k ≠
      (Machine.blankMemory.patch programStart rom).get k ↔ 0x200 ≤ k.val ∧ _
    rw [Memory.get_patch, Memory.get_patch]
    by_cases hk : programStart ≤ k.val
    · have hblank : Machine.blankMemory.get k = 0 := by
        rw [Machine.get_blankMemory, if_neg fun hfont => ?_]
        exact absurd (Nat.lt_of_le_of_lt hk hfont.2) (by decide)
      rw [if_pos hk, if_pos hk, hblank]
      exact (and_iff_right hk).symm
    · rw [if_neg hk, if_neg hk]
      exact iff_of_false (fun hne => hne rfl) fun hin => hk hin.1

/-- Two sessions that are alike but for bytes of a set of exposed ones and remember alike what they
start over with, but for programs that differ in bytes of a set of differing ones. -/
structure SideBySide (differing exposed : Set (Fin memorySize)) (s t : Session) : Prop where
  alike : ∃ actual ⊆ exposed, s.AlikeBut actual t
  remembers : ∃ dialect seed rom rom', s.Remembers dialect seed rom ∧
    t.Remembers dialect seed rom' ∧ differingBytes rom rom' ⊆ differing

/-- The bytes that are exposed after one more event. A step takes away those that it stores, and an
accepted program brings back all those in which programs differ. -/
def expose (differing exposed : Set (Fin memorySize)) (e : Session × Event) :
    Set (Fin memorySize) :=
  match e.2 with
  | .step => e.1.unstored exposed
  | .tick | .key _ _ => exposed
  | .load rom => if rom.length ≤ romCapacity then differing else exposed

/-- The bytes that are exposed after a trail. -/
def exposedAfter (differing exposed : Set (Fin memorySize)) (trail : List (Session × Event)) :
    Set (Fin memorySize) :=
  trail.foldl (expose differing) exposed

/-- Two sessions side by side, as long as no step reads an exposed byte. -/
def memorySimulation (differing : Set (Fin memorySize)) : Simulation (Set (Fin memorySize)) where
  Rel exposed s t := s.SideBySide differing exposed t
  follow := expose differing
  Quiet exposed e := e.2 = .step → e.1.Unread exposed
  wait h := by
    obtain ⟨actual, -, halike⟩ := h.alike
    exact halike.wait
  pc h := by
    obtain ⟨actual, -, halike⟩ := h.alike
    exact halike.pc
  idle := by
    rintro exposed s t ⟨⟨actual, hactual, halike⟩, dialect, seed, rom, rom', hs, ht, hroms⟩ _ _
    exact ⟨⟨actual, hactual, halike.failure, halike.machine⟩, dialect, seed, rom, rom',
      (kept_remembers _ _ _).journal _ _ hs, (kept_remembers _ _ _).journal _ _ ht, hroms⟩
  step := by
    rintro exposed s t ⟨⟨actual, hactual, halike⟩, dialect, seed, rom, rom', hs, ht, hroms⟩ hquiet
    obtain ⟨hanswer, hafter⟩ :=
      halike.step fun hready k hk => hquiet rfl hready k (hactual hk)
    exact ⟨hanswer, ⟨_, fun k hk => ⟨hactual hk.1, hk.2⟩, hafter⟩, dialect, seed, rom, rom',
      hs.step, ht.step, hroms⟩
  tick := by
    rintro exposed s t ⟨⟨actual, hactual, halike⟩, dialect, seed, rom, rom', hs, ht, hroms⟩ -
    exact ⟨⟨actual, hactual, halike.tick⟩, dialect, seed, rom, rom',
      (kept_remembers _ _ _).tick _ hs, (kept_remembers _ _ _).tick _ ht, hroms⟩
  key := by
    rintro exposed s t ⟨⟨actual, hactual, halike⟩, dialect, seed, rom, rom', hs, ht, hroms⟩
      number isDown -
    obtain ⟨hanswer, hafter⟩ := halike.setKey number isDown
    exact ⟨hanswer, ⟨actual, hactual, hafter⟩, dialect, seed, rom, rom',
      (kept_remembers _ _ _).key _ _ _ hs, (kept_remembers _ _ _).key _ _ _ ht, hroms⟩
  load := by
    rintro exposed s t ⟨⟨actual, hactual, halike⟩, dialect, seed, rom, rom', hs, ht, hroms⟩
      program -
    have hloaded := hs.load program
    have hloaded' := ht.load program
    rcases Nat.lt_or_ge romCapacity program.length with hlong | hfits
    · rw [if_neg (Nat.not_le.mpr hlong)] at hloaded hloaded'
      obtain ⟨journal, he⟩ := s.load_of_lt hlong
      obtain ⟨journal', he'⟩ := t.load_of_lt hlong
      have hexposed : expose differing exposed (s, .load program) = exposed :=
        if_neg (Nat.not_le.mpr hlong)
      rw [hexposed]
      rw [he] at hloaded ⊢
      rw [he'] at hloaded' ⊢
      exact ⟨rfl, ⟨actual, hactual, halike.failure, halike.machine⟩, dialect, seed, rom, rom',
        hloaded, hloaded', hroms⟩
    · rw [if_pos hfits] at hloaded hloaded'
      obtain ⟨journal, he⟩ := s.load_of_le hfits
      obtain ⟨journal', he'⟩ := t.load_of_le hfits
      have hmachines := alikeBut_loadedMachine (ht.configured.trans hs.configured.symm)
        (ht.seeded.trans hs.seeded.symm) program program
      rw [he] at hloaded ⊢
      rw [he'] at hloaded' ⊢
      exact ⟨rfl, ⟨_, differingBytes_self_subset program, rfl, hmachines⟩, dialect, seed, program,
        program, hloaded, hloaded', differingBytes_self_subset program⟩
  reset := by
    rintro exposed s t ⟨-, dialect, seed, rom, rom', hs, ht, hroms⟩ -
    have hmachines := alikeBut_loadedMachine (ht.configured.trans hs.configured.symm)
      (ht.seeded.trans hs.seeded.symm) rom rom'
    have hexposed : expose differing exposed (s, .load s.rom) = differing :=
      if_pos (by rw [hs.rom_eq]; exact hs.fits)
    obtain ⟨journal, he⟩ := hs.reset_eq
    obtain ⟨journal', he'⟩ := ht.reset_eq
    rw [hexposed, he, he']
    exact ⟨rfl, ⟨_, hroms, rfl, hmachines⟩, dialect, seed, rom, rom',
      ⟨hs.configured, hs.seeded, hs.rom_eq, hs.fits⟩,
      ⟨ht.configured, ht.seeded, ht.rom_eq, ht.fits⟩, hroms⟩

/-- Along a history no step reads a byte that is exposed by then. -/
def LeavesUnread (differing exposed : Set (Fin memorySize)) (s : Session)
    (history : List Request) : Prop :=
  ∀ (j : Nat) (u : Session), (s.trail history)[j]? = some (u, .step) →
    u.Unread (exposedAfter differing exposed ((s.trail history).take j))

theorem LeavesUnread.quietAlong {history : List Request}
    (h : s.LeavesUnread differing exposed history) :
    (memorySimulation differing).QuietAlong exposed (s.trail history) := by
  rintro before ⟨u, event⟩ later he rfl
  have hunread := h before.length u (by simp [he])
  rwa [he, List.take_left] at hunread

/-- Two new sessions are side by side, and exposed are the bytes in which their programs differ. -/
theorem sideBySide_create {rom rom' : List UInt8} {dialect : Dialect} {seed : Random.Block}
    {journal journal' : Journal} (h : rom.length ≤ romCapacity) (h' : rom'.length ≤ romCapacity) :
    (create (some rom) dialect seed journal).2.SideBySide (differingBytes rom rom')
      (differingBytes rom rom') (create (some rom') dialect seed journal').2 := by
  obtain ⟨entries, he⟩ := (vacant dialect seed journal).load_of_le h
  obtain ⟨entries', he'⟩ := (vacant dialect seed journal').load_of_le h'
  rw [create, create, he, he']
  exact ⟨⟨_, fun _ hk => hk, rfl, alikeBut_loadedMachine rfl rfl rom rom'⟩, dialect, seed, rom, rom',
    ⟨rfl, rfl, rfl, h⟩, ⟨rfl, rfl, rfl, h'⟩, fun _ hk => hk⟩

/-- What can influence a step and what can influence a history. If two ready sessions differ only in
bytes of memory which the step does not read, both fail alike and keep their machines, or both succeed
with the same answer and then differ in the same bytes, those apart that the instruction stores. So
two sessions side by side give the same answers along every history in which no step reads an exposed
byte. New sessions with different programs are an example: they differ only where their programs do,
and so they do again whenever they are reset. -/
theorem alike_unless_read :
    (∀ s t : Session, s.status = .ready → t.status = .ready →
      t.machine = s.machine.withMemory t.machine.memory →
      (∀ k, s.machine.Reads k → t.machine.memory.get k = s.machine.memory.get k) →
      (∃ report, s.step.1 = .error (.execution report) ∧ t.step.1 = .error (.execution report) ∧
        s.step.2.machine = s.machine ∧ t.step.2.machine = t.machine) ∨
      ∃ i touched, s.machine.StandsAt i ∧ s.step.1 = .ok touched ∧ t.step.1 = .ok touched ∧
        t.step.2.machine = s.step.2.machine.withMemory t.step.2.machine.memory ∧
        ∀ k, t.step.2.machine.memory.get k ≠ s.step.2.machine.memory.get k ↔
          t.machine.memory.get k ≠ s.machine.memory.get k ∧
            ¬ (s.machine.index.toNat ≤ k.val ∧ k.val < s.machine.index.toNat + i.stored)) ∧
    (∀ (s t : Session) (differing exposed : Set (Fin memorySize)) (history : List Request),
      s.SideBySide differing exposed t → s.LeavesUnread differing exposed history →
      (t.responses history).map Response.outcome = (s.responses history).map Response.outcome ∧
        (s.after history).SideBySide differing
          (exposedAfter differing exposed (s.trail history)) (t.after history)) ∧
    ∀ (rom rom' : List UInt8) (dialect : Dialect) (seed : Random.Block) (journal journal' : Journal),
      rom.length ≤ 3584 → rom'.length ≤ 3584 →
      (create (some rom) dialect seed journal).2.SideBySide (differingBytes rom rom')
        (differingBytes rom rom') (create (some rom') dialect seed journal').2 := by
  refine ⟨?_, ?_, ?_⟩
  · intro s t hready hready' hrest hagree
    have halike : s.AlikeBut {k | t.machine.memory.get k ≠ s.machine.memory.get k} t := by
      refine ⟨?_, Machine.alikeBut_of_withMemory hrest⟩
      rw [(status_eq_ready_iff.mp hready).1, (status_eq_ready_iff.mp hready').1]
    have hunread : s.Unread {k | t.machine.memory.get k ≠ s.machine.memory.get k} :=
      fun _ k hne hreads => hne (hagree k hreads)
    rcases halike.step_of_ready hready hunread with
      ⟨report, journal, journal', he, he'⟩ | ⟨i, hexecutes, hs, ht, hafter⟩
    · rw [he, he']
      exact Or.inl ⟨report, rfl, rfl, rfl, rfl⟩
    · refine Or.inr ⟨i, _, hexecutes.2.1, hs, ht, hafter.machine.rest, fun k => ?_⟩
      rw [hafter.machine.memory, hexecutes.mem_unstored]
      rfl
  · intro s t differing exposed history hside hunread
    exact Simulation.responses (S := memorySimulation differing) hside hunread.quietAlong
  · intro rom rom' dialect seed journal journal' hfits hfits'
    exact sideBySide_create hfits hfits'

/-- Two programs differ in one byte. The second step stores over it, and after that the fourth step
may load it. -/
theorem alike_after_storing_over_difference :
    ∃ s t, s = (create (some [0xA2, 0x08, 0xF0, 0x55, 0xA2, 0x08, 0xF0, 0x65, 0xAA]) .cosmac ⟨0, 0⟩
        (.start "chip8" .warning)).2 ∧
      t = (create (some [0xA2, 0x08, 0xF0, 0x55, 0xA2, 0x08, 0xF0, 0x65, 0xBB]) .cosmac ⟨0, 0⟩
        (.start "chip8" .debug)).2 ∧
      t.step.2.machine.memory.get 0x208 ≠ s.step.2.machine.memory.get 0x208 ∧
      (∃ i touched, s.step.2.machine.StandsAt i ∧ s.step.2.step.1 = .ok touched ∧
        t.step.2.step.1 = .ok touched ∧
        t.step.2.step.2.machine.memory.get 0x208 = s.step.2.step.2.machine.memory.get 0x208) ∧
      s.LeavesUnread {0x208} {0x208} [.step, .step, .step, .step] ∧
      (t.responses [.step, .step, .step, .step]).map Response.outcome =
        (s.responses [.step, .step, .step, .step]).map Response.outcome := by
  obtain ⟨hstep, hhistory, hprograms⟩ := alike_unless_read
  obtain ⟨s, hs⟩ : ∃ s, s = (create (some [0xA2, 0x08, 0xF0, 0x55, 0xA2, 0x08, 0xF0, 0x65, 0xAA])
    .cosmac ⟨0, 0⟩ (.start "chip8" .warning)).2 := ⟨_, rfl⟩
  obtain ⟨t, ht⟩ : ∃ t, t = (create (some [0xA2, 0x08, 0xF0, 0x55, 0xA2, 0x08, 0xF0, 0x65, 0xBB])
    .cosmac ⟨0, 0⟩ (.start "chip8" .debug)).2 := ⟨_, rfl⟩
  have hside := hprograms [0xA2, 0x08, 0xF0, 0x55, 0xA2, 0x08, 0xF0, 0x65, 0xAA]
    [0xA2, 0x08, 0xF0, 0x55, 0xA2, 0x08, 0xF0, 0x65, 0xBB] .cosmac ⟨0, 0⟩ (.start "chip8" .warning)
    (.start "chip8" .debug) (by decide) (by decide)
  have hbyte : differingBytes [0xA2, 0x08, 0xF0, 0x55, 0xA2, 0x08, 0xF0, 0x65, 0xAA]
      [0xA2, 0x08, 0xF0, 0x55, 0xA2, 0x08, 0xF0, 0x65, 0xBB] = {0x208} := by
    have hplace : ∀ j : Nat,
        ([0xA2, 0x08, 0xF0, 0x55, 0xA2, 0x08, 0xF0, 0x65, 0xBB] : List UInt8)[j]?.getD 0 ≠
          ([0xA2, 0x08, 0xF0, 0x55, 0xA2, 0x08, 0xF0, 0x65, 0xAA] : List UInt8)[j]?.getD 0 ↔
            j = 8 := by
      intro j
      match j with
      | 0 | 1 | 2 | 3 | 4 | 5 | 6 | 7 | 8 => decide
      | j + 9 => simp
    ext k
    refine (and_congr_right' (hplace _)).trans ?_
    change 0x200 ≤ k.val ∧ k.val - 0x200 = 8 ↔ k = 0x208
    rw [Fin.ext_iff]
    change 0x200 ≤ k.val ∧ k.val - 0x200 = 8 ↔ k.val = 0x208
    omega
  rw [← hs, ← ht, hbyte] at hside
  obtain ⟨hready, hunread, hunread', hunread''⟩ : s.step.2.status = .ready ∧
      ¬ s.machine.Reads 0x208 ∧ ¬ s.step.2.machine.Reads 0x208 ∧
        ¬ s.step.2.step.2.machine.Reads 0x208 := by
    rw [hs]
    decide +kernel
  obtain ⟨hexecutes, hindex⟩ :
      s.step.2.Executes ⟨.store, 0xF055⟩ ∧ s.step.2.machine.index = 0x208 := by
    rw [hs]
    decide +kernel
  have hready' : t.step.2.status = .ready := by
    rw [ht]
    decide +kernel
  have hdiffer : t.step.2.machine.memory.get 0x208 ≠ s.step.2.machine.memory.get 0x208 := by
    rw [hs, ht]
    decide +kernel
  have hleaves : s.LeavesUnread {0x208} {0x208} [.step, .step, .step, .step] := by
    have htrail : s.trail [.step, .step, .step, .step] = [(s, .step), (s.step.2, .step),
      (s.step.2.step.2, .step), (s.step.2.step.2.step.2, .step)] := rfl
    intro j u hj _ k hk
    rw [htrail] at hj hk
    match j with
    | 0 =>
      obtain rfl : k = 0x208 := hk
      obtain rfl : s = u := congrArg Prod.fst (Option.some.inj hj)
      exact hunread
    | 1 =>
      obtain rfl : k = 0x208 := hk.1
      obtain rfl : s.step.2 = u := congrArg Prod.fst (Option.some.inj hj)
      exact hunread'
    | 2 =>
      obtain rfl : k = 0x208 := hk.1.1
      obtain rfl : s.step.2.step.2 = u := congrArg Prod.fst (Option.some.inj hj)
      exact hunread''
    | 3 =>
      obtain rfl : k = 0x208 := hk.1.1.1
      obtain ⟨i, hstores⟩ : ∃ i, s.step.2.Stores i 0x208 := by
        rw [hexecutes.stores_iff, hindex]
        decide
      exact absurd ⟨i, hstores⟩ hk.1.2
    | j + 4 => simp at hj
  refine ⟨s, t, hs, ht, hdiffer, ?_, hleaves, (hhistory s t _ _ _ hside hleaves).1⟩
  -- After the first step the two sessions still differ in that byte at most.
  have hleft : s.LeavesUnread {0x208} {0x208} [.step] := by
    intro j u hj _ k hk
    match j with
    | 0 =>
      obtain rfl : k = 0x208 := hk
      obtain rfl : s = u := congrArg Prod.fst (Option.some.inj hj)
      exact hunread
    | j + 1 => cases hj
  obtain ⟨actual, hactual, halike⟩ := (hhistory s t _ _ [.step] hside hleft).2.alike
  have hagree : ∀ k, s.step.2.machine.Reads k →
      t.step.2.machine.memory.get k = s.step.2.machine.memory.get k := by
    intro k hk
    refine Decidable.byContradiction fun hne => hunread' ?_
    obtain rfl : k = 0x208 := (hactual ((halike.machine.memory k).mp hne)).1
    exact hk
  rcases hstep s.step.2 t.step.2 hready hready' halike.machine.rest hagree with
    ⟨report, herror, -⟩ | ⟨i, touched, hstands, hanswer, hanswer', -, hafter⟩
  · obtain ⟨-, -, touched, hok⟩ := hexecutes
    rw [hok] at herror
    cases herror
  · refine ⟨i, touched, hstands, hanswer, hanswer', ?_⟩
    obtain rfl := hstands.unique hexecutes.2.1
    refine Decidable.byContradiction fun hne => ((hafter 0x208).mp hne).2 ?_
    rw [hindex]
    decide

end Chip8.Session
