import Chip8.Proofs.Session.Reset
import Chip8.Proofs.Session.Run

/-!
# What a session writes in its journal

A journal with the lowest threshold keeps every entry. Then each request adds exactly the entries for
what it has brought about: that a program is loaded or refused, that the session is reset, that a key
wait begins or is completed, that the session halts, that a run ends because the program stays where
it is. Nothing else is written.
-/

namespace Chip8

/-- Every level passes the lowest threshold. -/
theorem Level.passes_debug (level : Level) : Level.debug.passes level = true := by
  cases level <;> rfl

namespace Journal

variable {j : Journal}

/-- The journal keeps every entry. -/
def Verbose (j : Journal) : Prop := j.console.threshold = .debug

/-- The same journal with further entries. -/
def extend (j : Journal) (entries : List Entry) : Journal :=
  { j with entries := j.entries ++ entries.toArray }

@[simp] theorem extend_nil (j : Journal) : j.extend [] = j := by simp [extend]

@[simp] theorem extend_extend (j : Journal) (entries later : List Entry) :
    (j.extend entries).extend later = j.extend (entries ++ later) := by
  simp [extend, Array.append_assoc]

@[simp] theorem toList_entries_extend (j : Journal) (entries : List Entry) :
    (j.extend entries).entries.toList = j.entries.toList ++ entries := by
  simp [extend]

theorem Verbose.extend (h : j.Verbose) (entries : List Entry) : (j.extend entries).Verbose := h

/-- A journal that keeps every entry keeps the one that is recorded. -/
theorem Verbose.record_eq (h : j.Verbose) (level : Level) (message : String) :
    j.record level message = j.extend [⟨level, message⟩] := by
  have henabled : j.console.enabled level = true := by
    rw [Console.enabled, h]
    exact level.passes_debug
  simp [record, henabled, Journal.extend]

end Journal

namespace Session

variable {s : Session} {entries entries' : List Entry}

/-- A session whose journal keeps every entry. -/
def Verbose (s : Session) : Prop := s.journal.Verbose

theorem Verbose.note_eq (h : s.Verbose) (level : Level) (message : String) :
    s.note level message = { s with journal := s.journal.extend [⟨level, message⟩] } := by
  rw [note, h.record_eq]

theorem Verbose.note (h : s.Verbose) (level : Level) (message : String) :
    (s.note level message).Verbose := by
  rw [h.note_eq]
  exact h

/-- What one step writes: an entry if a key wait begins, if one is completed or if the session halts,
and none otherwise. -/
inductive StepWrites (s : Session) : List Entry → Prop where
  | waits (hready : s.status = .ready) (hwaits : s.step.2.status = .waitingForKey) :
    StepWrites s [⟨.debug, "Waiting for key press into V" ++
      Text.Hex.plain s.step.2.machine.wait.register.val⟩]
  | resumes {key : Fin keyCount} (hwaits : s.status = .waitingForKey)
    (hkey : s.machine.wait.latched = some key) (hready : s.step.2.status = .ready) :
    StepWrites s [⟨.debug, "Key 0x" ++ Text.Hex.plain key.val ++ " received, resuming at 0x" ++
      Text.Hex.padded 3 s.step.2.machine.pc.toNat⟩]
  | halts {report : Report} (hready : s.status = .ready)
    (hhalted : s.step.2.failure = some report) :
    StepWrites s [⟨.error, "Halted: " ++ report.message⟩]
  | otherwise (hstatus : s.step.2.status = s.status) : StepWrites s []

/-- What successive steps write, one after the other. -/
inductive StepsWrite : List Session → List Entry → Prop where
  | nil : StepsWrite [] []
  | cons {s : Session} {rest : List Session} {entries later : List Entry}
    (hfirst : StepWrites s entries) (hrest : StepsWrite rest later) :
    StepsWrite (s :: rest) (entries ++ later)

/-- A step writes in one way only. -/
theorem StepWrites.unique (h : s.StepWrites entries) (h' : s.StepWrites entries') :
    entries' = entries := by
  cases h <;> cases h' <;> grind [status_of_failure]

theorem StepsWrite.unique {turns : List Session} (h : StepsWrite turns entries)
    (h' : StepsWrite turns entries') : entries' = entries := by
  induction h generalizing entries' with
  | nil =>
    cases h'
    rfl
  | cons hfirst _ ih =>
    obtain _ | ⟨hfirst', hrest'⟩ := h'
    rw [hfirst.unique hfirst', ih hrest']

/-- A step that completes a key wait or does nothing for want of a key. -/
theorem Verbose.resume_writes (h : s.Verbose) (hf : s.failure = none)
    (ha : s.machine.wait.active = true) :
    ∃ entries, s.StepWrites entries ∧ s.step.2.journal = s.journal.extend entries := by
  have hwaits := status_of_active hf ha
  have hstep := step_of_active hf ha
  cases hk : s.machine.wait.latched with
  | none =>
    have hresume : s.resume = s := by simp only [resume, hk]
    rw [hresume] at hstep
    exact ⟨[], .otherwise (by rw [hstep]), by rw [hstep, Journal.extend_nil]⟩
  | some key =>
    have hmachine : ({ s with machine := s.machine.resume } : Session).Verbose := h
    simp only [resume, hk, hmachine.note_eq] at hstep
    refine ⟨_, .resumes hwaits hk ?_, ?_⟩
    · rw [hstep]
      refine status_eq_ready_iff.mpr ⟨hf, ?_⟩
      simp only [Machine.resume_of_latched ha hk]
    · rw [hstep]

/-- A step that runs a cycle writes that a key wait begins or that the session halts. -/
theorem Verbose.cycle_writes (h : s.Verbose) (hf : s.failure = none)
    (ha : s.machine.wait.active = false) :
    ∃ entries, s.StepWrites entries ∧ s.step.2.journal = s.journal.extend entries := by
  have hready : s.status = .ready := status_eq_ready_iff.mpr ⟨hf, ha⟩
  have hstep := step_of_not_active hf ha
  unfold cycle at hstep
  cases hc : s.machine.cycle with
  | error report =>
    have hfailed : ({ s with failure := some report } : Session).Verbose := h
    simp only [hc, hfailed.note_eq] at hstep
    have hhalted : s.step.2.failure = some report := by rw [hstep]
    exact ⟨_, .halts hready hhalted, by rw [hstep]⟩
  | ok outcome =>
    have hnext : ({ s with machine := outcome.2 } : Session).Verbose := h
    simp only [hc, noteWait] at hstep
    cases hwait : outcome.2.wait.active with
    | true =>
      simp only [hwait, ite_true, hnext.note_eq] at hstep
      refine ⟨_, .waits hready ?_, ?_⟩
      · rw [hstep]
        exact status_of_active hf hwait
      · rw [hstep]
    | false =>
      simp only [hwait, Bool.false_eq_true, ite_false] at hstep
      refine ⟨[], .otherwise ?_, ?_⟩
      · rw [hstep, hready]
        exact status_eq_ready_iff.mpr ⟨hf, hwait⟩
      · rw [hstep, Journal.extend_nil]

/-- A step adds to the journal what it writes. -/
theorem Verbose.step_writes (h : s.Verbose) :
    ∃ entries, s.StepWrites entries ∧ s.step.2.journal = s.journal.extend entries := by
  cases hf : s.failure with
  | some report =>
    have hstep := step_of_failure hf
    exact ⟨[], .otherwise (by rw [hstep]), by rw [hstep, Journal.extend_nil]⟩
  | none =>
    cases ha : s.machine.wait.active with
    | true => exact h.resume_writes hf ha
    | false => exact h.cycle_writes hf ha

theorem Verbose.step (h : s.Verbose) : s.step.2.Verbose := by
  obtain ⟨entries, -, hjournal⟩ := h.step_writes
  rw [Verbose, hjournal]
  exact h.extend entries

/-- A frame adds to the journal what its steps write. -/
theorem Verbose.stepUpTo_writes (h : s.Verbose) (changed : Bool) (budget : Nat) :
    ∃ entries, StepsWrite (s.turns neverStops budget) entries ∧
      (s.stepUpTo changed budget).2.journal = s.journal.extend entries := by
  induction s, budget using loop_induction generalizing changed with
  | stuck s budget hstuck =>
    rw [turns_of_stuck hstuck, stepUpTo_of_stuck hstuck]
    exact ⟨[], .nil, (Journal.extend_nil _).symm⟩
  | failed s budget failure hb hs =>
    obtain ⟨entries, hwrites, hjournal⟩ := h.step_writes
    rw [turns_of_step_error hb hs, stepUpTo_of_step_error hb hs]
    exact ⟨entries ++ [], .cons hwrites .nil, by rw [List.append_nil, hjournal]⟩
  | went s budget touched hb hs ih =>
    obtain ⟨entries, hwrites, hjournal⟩ := h.step_writes
    obtain ⟨later, hlater, hlast⟩ := ih h.step (changed || touched)
    rw [turns_of_step_ok hb hs, stepUpTo_of_step_ok hb hs]
    refine ⟨entries ++ later, .cons hwrites hlater, ?_⟩
    rw [hlast, hjournal, Journal.extend_extend]

/-- The last of some turns of a run is a step that succeeds and stays where it is. -/
def EndsIdle (turns : List Session) (u : Session) : Prop :=
  turns.getLast? = some u ∧ (∃ touched, u.step.1 = .ok touched) ∧ stayed u u.step.2 = true

theorem not_endsIdle_nil (u : Session) : ¬ EndsIdle [] u := fun h => nomatch h.1

/-- The first turn of a run does not matter to its end if it has moved on. -/
theorem endsIdle_cons_iff {turns : List Session} {u : Session} (hm : stayed s s.step.2 = false) :
    EndsIdle (s :: turns) u ↔ EndsIdle turns u := by
  cases turns with
  | nil =>
    refine iff_of_false ?_ (not_endsIdle_nil u)
    rintro ⟨hlast, -, hstayed⟩
    obtain rfl : s = u := Option.some.inj hlast
    rw [hm] at hstayed
    cases hstayed
  | cons t turns => simp only [EndsIdle, List.getLast?_cons_cons]

/-- The entry of a run that ends because its last turn stays where it is. -/
def idleEntry (u : Session) (steps : Nat) : Entry :=
  ⟨.debug, "Idle loop at 0x" ++ Text.Hex.padded 3 u.machine.pc.toNat ++ " after " ++
    toString steps ++ " steps"⟩

/-- A run adds to the journal what its steps write, and an entry of its own if it ends because a step
stays where it is. -/
theorem Verbose.runFrom_writes (h : s.Verbose) (bar : Option (Bar Empty)) (executed budget : Nat) :
    ∃ entries, StepsWrite (s.turns stayed budget) entries ∧
      ((∃ u, EndsIdle (s.turns stayed budget) u ∧
          (s.runFrom bar executed budget).session.journal = s.journal.extend
            (entries ++ [idleEntry u (executed + (s.turns stayed budget).length)])) ∨
        (∀ u, ¬ EndsIdle (s.turns stayed budget) u) ∧
          (s.runFrom bar executed budget).session.journal = s.journal.extend entries) := by
  induction s, budget using loop_induction generalizing bar executed with
  | stuck s budget hstuck =>
    rw [turns_of_stuck hstuck, runFrom_of_stuck hstuck]
    exact ⟨[], .nil, Or.inr ⟨not_endsIdle_nil, (Journal.extend_nil _).symm⟩⟩
  | failed s budget failure hb hs =>
    obtain ⟨entries, hwrites, hjournal⟩ := h.step_writes
    rw [turns_of_step_error hb hs, runFrom_of_step_error hb hs]
    refine ⟨entries ++ [], .cons hwrites .nil, Or.inr ⟨?_, by rw [List.append_nil, hjournal]⟩⟩
    rintro u ⟨hlast, ⟨touched, hok⟩, -⟩
    obtain rfl : s = u := Option.some.inj hlast
    rw [hs] at hok
    cases hok
  | went s budget touched hb hs ih =>
    obtain ⟨entries, hwrites, hjournal⟩ := h.step_writes
    rw [turns_of_step_ok hb hs]
    cases hm : stayed s s.step.2 with
    | true =>
      have hidle : EndsIdle [s] s := ⟨rfl, ⟨touched, congrArg Prod.fst hs⟩, hm⟩
      rw [runFrom_of_stayed hb hs hm]
      refine ⟨entries ++ [], .cons hwrites .nil, Or.inl ⟨s, hidle, ?_⟩⟩
      rw [noteIdle, h.step.note_eq, hjournal, Journal.extend_extend, List.append_nil]
      rfl
    | false =>
      obtain ⟨later, hlater, hlast⟩ := ih h.step (bar.map (·.move 1)) (executed + 1)
      rw [runFrom_of_moved hb hs hm]
      refine ⟨entries ++ later, .cons hwrites hlater, ?_⟩
      simp only [Bool.false_eq_true, ite_false, endsIdle_cons_iff hm, List.length_cons]
      rcases hlast with ⟨u, hends, hlast⟩ | ⟨hends, hlast⟩
      · refine Or.inl ⟨u, hends, ?_⟩
        rw [hlast, hjournal, Journal.extend_extend, List.append_assoc, Nat.add_assoc,
          Nat.add_comm 1]
      · exact Or.inr ⟨hends, by rw [hlast, hjournal, Journal.extend_extend]⟩

/-- The entry of a load that is accepted. -/
def loadEntry (rom : List UInt8) : Entry :=
  ⟨.info, "Loaded " ++ toString rom.length ++ "-byte ROM at 0x" ++ Text.Hex.padded 3 0x200⟩

/-- The entry of a load that is refused. -/
def refusalEntry (rom : List UInt8) : Entry :=
  ⟨.error, "ROM rejected: " ++ (Failure.oversized rom).message⟩

/-- What a request writes. -/
inductive RequestWrites (s : Session) : Request → List Entry → Prop where
  | step {entries : List Entry} (h : StepWrites s entries) : RequestWrites s .step entries
  | run {limit : Int} {withBar : Bool} {entries : List Entry}
    (hsteps : StepsWrite (s.turns stayed limit.toNat) entries)
    (hmoves : ∀ u, ¬ EndsIdle (s.turns stayed limit.toNat) u) :
    RequestWrites s (.run limit withBar) entries
  | idleRun {limit : Int} {withBar : Bool} {entries : List Entry} {u : Session}
    (hsteps : StepsWrite (s.turns stayed limit.toNat) entries)
    (hidle : EndsIdle (s.turns stayed limit.toNat) u) :
    RequestWrites s (.run limit withBar)
      (entries ++ [idleEntry u (s.turns stayed limit.toNat).length])
  | frame {count : Int} {entries : List Entry}
    (hsteps : StepsWrite (s.tick.turns neverStops count.toNat) entries) :
    RequestWrites s (.frame count) entries
  | tick : RequestWrites s .tick []
  | key {number : Int} {isDown : Bool} : RequestWrites s (.key number isDown) []
  | accepted {rom : List UInt8} (hfits : rom.length ≤ romCapacity) :
    RequestWrites s (.load rom) [loadEntry rom]
  | refused {rom : List UInt8} (hlong : romCapacity < rom.length) :
    RequestWrites s (.load rom) [refusalEntry rom]
  | reset : RequestWrites s .reset [⟨.debug, "Reset"⟩, loadEntry s.rom]

/-- Nothing but what happens decides what a request writes. -/
theorem RequestWrites.unique {request : Request} (h : s.RequestWrites request entries)
    (h' : s.RequestWrites request entries') : entries' = entries := by
  cases h with
  | step h =>
    cases h' with
    | step h' => exact h.unique h'
  | run hsteps hmoves =>
    cases h' with
    | run hsteps' => exact hsteps.unique hsteps'
    | idleRun _ hidle => exact absurd hidle (hmoves _)
  | idleRun hsteps hidle =>
    cases h' with
    | run _ hmoves => exact absurd hidle (hmoves _)
    | idleRun hsteps' hidle' =>
      obtain rfl := Option.some.inj (hidle.1.symm.trans hidle'.1)
      rw [hsteps.unique hsteps']
  | frame hsteps =>
    cases h' with
    | frame hsteps' => exact hsteps.unique hsteps'
  | tick => cases h'; rfl
  | key => cases h'; rfl
  | accepted hfits =>
    cases h' with
    | accepted => rfl
    | refused hlong => exact absurd hfits (Nat.not_le.mpr hlong)
  | refused hlong =>
    cases h' with
    | accepted hfits => exact absurd hfits (Nat.not_le.mpr hlong)
    | refused => rfl
  | reset => cases h'; rfl

/-- A program that fits is noted as loaded. -/
theorem Verbose.load_of_le (h : s.Verbose) {rom : List UInt8} (hfits : rom.length ≤ romCapacity) :
    (s.load rom).2.journal = s.journal.extend [loadEntry rom] := by
  have hloaded : ({ s with machine := s.loadedMachine rom, failure := none, rom } : Session).Verbose :=
    h
  have hmachine : s.freshMachine.loadProgram? rom = some (s.loadedMachine rom) :=
    s.freshMachine.loadProgram?_of_le hfits
  simp only [load, hmachine, hloaded.note_eq]
  rfl

/-- A program that does not fit is noted as refused. -/
theorem Verbose.load_of_lt (h : s.Verbose) {rom : List UInt8} (hlong : romCapacity < rom.length) :
    (s.load rom).2.journal = s.journal.extend [refusalEntry rom] := by
  simp only [load, s.freshMachine.loadProgram?_of_lt hlong, h.note_eq]
  rfl

theorem Verbose.load (h : s.Verbose) (rom : List UInt8) : (s.load rom).2.Verbose := by
  rcases Nat.lt_or_ge romCapacity rom.length with hlong | hfits
  · rw [Verbose, h.load_of_lt hlong]
    exact Journal.Verbose.extend h _
  · rw [Verbose, h.load_of_le hfits]
    exact Journal.Verbose.extend h _

/-- A reset is noted before the load of the accepted program. -/
theorem Verbose.reset_writes (h : s.Verbose) (hfits : s.rom.length ≤ romCapacity) :
    s.reset.2.journal = s.journal.extend [⟨.debug, "Reset"⟩, loadEntry s.rom] := by
  have hload := (h.note .debug "Reset").load_of_le hfits
  rw [h.note_eq, Journal.extend_extend] at hload
  rw [reset, h.note_eq]
  exact hload

/-- A request adds to the journal what it writes. -/
theorem Verbose.perform_writes (h : s.Verbose) (hfits : s.rom.length ≤ romCapacity)
    (request : Request) :
    ∃ entries, s.RequestWrites request entries ∧
      (s.perform request).session.journal = s.journal.extend entries := by
  cases request with
  | step =>
    obtain ⟨entries, hwrites, hjournal⟩ := h.step_writes
    exact ⟨entries, .step hwrites, hjournal⟩
  | run limit withBar =>
    obtain ⟨entries, hwrites, ⟨u, hends, hjournal⟩ | ⟨hends, hjournal⟩⟩ :=
      h.runFrom_writes (if withBar then some (.start limit none []) else none) 0 limit.toNat
    · rw [Nat.zero_add] at hjournal
      exact ⟨_, .idleRun hwrites hends, hjournal⟩
    · exact ⟨entries, .run hwrites hends, hjournal⟩
  | frame count =>
    have htick : s.tick.Verbose := h
    obtain ⟨entries, hwrites, hjournal⟩ := htick.stepUpTo_writes false count.toNat
    exact ⟨entries, .frame hwrites, hjournal⟩
  | tick => exact ⟨[], .tick, (Journal.extend_nil _).symm⟩
  | key number isDown =>
    refine ⟨[], .key, ?_⟩
    change (s.setKey number isDown).2.journal = _
    rw [Journal.extend_nil]
    rcases s.setKey_cases number isDown with ⟨-, he⟩ | ⟨key, -, he⟩
    · rw [he]
    · rw [he]
  | load rom =>
    rcases Nat.lt_or_ge romCapacity rom.length with hlong | hrom
    · exact ⟨_, .refused hlong, h.load_of_lt hlong⟩
    · exact ⟨_, .accepted hrom, h.load_of_le hrom⟩
  | reset => exact ⟨_, .reset, h.reset_writes hfits⟩

/-- What the requests of a history write, one after the other. -/
inductive HistoryWrites : Session → List Request → List Entry → Prop where
  | nil {s : Session} : HistoryWrites s [] []
  | cons {s : Session} {request : Request} {rest : List Request} {entries later : List Entry}
    (hfirst : s.RequestWrites request entries)
    (hrest : HistoryWrites (s.perform request).session rest later) :
    HistoryWrites s (request :: rest) (entries ++ later)

theorem HistoryWrites.unique {history : List Request} (h : s.HistoryWrites history entries)
    (h' : s.HistoryWrites history entries') : entries' = entries := by
  induction h generalizing entries' with
  | nil => cases h'; rfl
  | cons hfirst _ ih =>
    obtain _ | ⟨hfirst', hrest'⟩ := h'
    rw [hfirst.unique hfirst', ih hrest']

/-- A history adds to the journal what its requests write. -/
theorem Verbose.after_writes (h : s.Verbose) {dialect : Dialect} {seed : Random.Block}
    {current : List UInt8} (hremembers : s.Remembers dialect seed current)
    (history : List Request) :
    ∃ entries, s.HistoryWrites history entries ∧
      (s.after history).journal = s.journal.extend entries := by
  induction history generalizing s current with
  | nil => exact ⟨[], .nil, (Journal.extend_nil _).symm⟩
  | cons request rest ih =>
    have hfits : s.rom.length ≤ romCapacity := by
      rw [hremembers.rom_eq]
      exact hremembers.fits
    obtain ⟨entries, hwrites, hjournal⟩ := h.perform_writes hfits request
    have hnext : (s.perform request).session.Verbose := by
      rw [Verbose, hjournal]
      exact Journal.Verbose.extend h entries
    obtain ⟨later, hlater, hlast⟩ := ih hnext (hremembers.perform request)
    refine ⟨entries ++ later, .cons hwrites hlater, ?_⟩
    change ((s.perform request).session.after rest).journal = _
    rw [hlast, hjournal, Journal.extend_extend]

/-- What the creation of a session writes. -/
def creationEntries : Option (List UInt8) → List Entry
  | none => []
  | some rom => if rom.length ≤ romCapacity then [loadEntry rom] else [refusalEntry rom]

theorem create_writes (rom : Option (List UInt8)) (dialect : Dialect) (seed : Random.Block)
    {journal : Journal} (h : journal.Verbose) :
    (create rom dialect seed journal).2.journal = journal.extend (creationEntries rom) := by
  cases rom with
  | none => exact (Journal.extend_nil _).symm
  | some rom =>
    have hvacant : (vacant dialect seed journal).Verbose := h
    rcases Nat.lt_or_ge romCapacity rom.length with hlong | hfits
    · rw [creationEntries, if_neg (Nat.not_le.mpr hlong)]
      exact hvacant.load_of_lt hlong
    · rw [creationEntries, if_pos hfits]
      exact hvacant.load_of_le hfits

end Session

end Chip8
