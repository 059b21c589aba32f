import Chip8.Proofs.Session.Journal
import Chip8.Proofs.Session.Simulation
import Chip8.Proofs.Session.Surroundings

/-!
# The threshold of a journal

The journal follows what happens to a session and never influences it. So sessions whose consoles
differ in the threshold alone live alike, and the journal of each holds those entries of the most
detailed one whose level is at or above its threshold.
-/

namespace Chip8

namespace Level

/-- A level is at or above a threshold if it does not stand before it among the levels, the least
serious first. -/
def AtOrAbove (level threshold : Level) : Prop :=
  let order := [debug, info, warning, error, critical]
  order.idxOf threshold ≤ order.idxOf level

instance (level threshold : Level) : Decidable (level.AtOrAbove threshold) := Nat.decLe _ _

/-- The levels that pass a threshold are those at or above it. -/
theorem passes_eq (threshold level : Level) :
    threshold.passes level = decide (level.AtOrAbove threshold) := by
  cases threshold <;> cases level <;> rfl

end Level

namespace Journal

variable {j : Journal}

/-- A journal without entries for a console, with a threshold of its own. -/
def opened (c : Console) (threshold : Level) : Journal := ⟨{ c with threshold }, #[]⟩

/-- What a journal with another threshold holds, if this one keeps every entry. -/
def atLevel (j : Journal) (threshold : Level) : Journal where
  console := { j.console with threshold }
  entries := j.entries.filter fun entry => threshold.passes entry.level

@[simp] theorem toList_entries_atLevel (j : Journal) (threshold : Level) :
    (j.atLevel threshold).entries.toList =
      j.entries.toList.filter fun entry => entry.level.AtOrAbove threshold := by
  simp only [atLevel, Array.toList_filter, Level.passes_eq]

/-- The lines at another threshold are those of the entries at or above it. -/
theorem linesFrom_atLevel (j : Journal) (threshold : Level) :
    (j.atLevel threshold).linesFrom 0 =
      (j.entries.toList.filter fun entry => entry.level.AtOrAbove threshold).map
        fun entry => j.console.body entry.level entry.message := by
  rw [linesFrom, List.drop_zero, toList_entries_atLevel]
  rfl

/-- An entry can be recorded before or after those are left out that do not pass a threshold. -/
theorem Verbose.record_atLevel (h : j.Verbose) (threshold level : Level) (message : String) :
    (j.atLevel threshold).record level message = (j.record level message).atLevel threshold := by
  have henabled : (j.atLevel threshold).console.enabled level = threshold.passes level := rfl
  rw [h.record_eq, record, henabled]
  cases hp : threshold.passes level with
  | true => simp [atLevel, Journal.extend, hp]
  | false => simp [atLevel, Journal.extend, hp]

end Journal

namespace Session

variable {s : Session}

/-- The same session with the journal of another threshold. -/
def atLevel (s : Session) (threshold : Level) : Session :=
  { s with journal := s.journal.atLevel threshold }

/-- A session that keeps every entry does not notice what is left out of its journal. -/
theorem Verbose.unnoticed_atLevel (h : s.Verbose) (threshold : Level) :
    s.Unnoticed id (·.atLevel threshold) where
  wait _ := rfl
  pc _ := rfl
  resume _ := rfl
  record := h.record_atLevel threshold

theorem Verbose.note_atLevel (h : s.Verbose) (threshold level : Level) (message : String) :
    (s.atLevel threshold).note level message = (s.note level message).atLevel threshold :=
  (h.unnoticed_atLevel threshold).note_mapParts (d := id) level message

/-- A step does the same at every threshold. -/
theorem Verbose.step_atLevel (h : s.Verbose) (threshold : Level) :
    (s.atLevel threshold).step = Prod.map id (·.atLevel threshold) s.step := by
  refine (h.unnoticed_atLevel threshold).step_mapParts (d := id) fun _ => ?_
  rw [Prod.map_id, Except.map_id]
  rfl

/-- A load does the same at every threshold. -/
theorem Verbose.load_atLevel (h : s.Verbose) (threshold : Level) (rom : List UInt8) :
    (s.atLevel threshold).load rom = Prod.map id (·.atLevel threshold) (s.load rom) := by
  have hfresh : (s.atLevel threshold).freshMachine = s.freshMachine := rfl
  unfold Session.load
  rw [hfresh]
  cases s.freshMachine.loadProgram? rom with
  | none => exact Prod.ext rfl (h.note_atLevel _ _ _)
  | some machine =>
    have hloaded : ({ s with machine, failure := none, rom } : Session).Verbose := h
    exact Prod.ext rfl (hloaded.note_atLevel _ _ _)

/-- A session that keeps every entry and the same session at another threshold. -/
def thresholdSimulation (threshold : Level) : Simulation Unit where
  Rel _ s t := s.Verbose ∧ t = s.atLevel threshold
  follow record _ := record
  Quiet _ _ := True
  wait h := by rw [h.2]; rfl
  pc h := by rw [h.2]; rfl
  idle := by
    rintro _ s _ ⟨h, rfl⟩ address steps
    exact ⟨h.note _ _, h.note_atLevel _ _ _⟩
  step := by
    rintro _ s _ ⟨h, rfl⟩ -
    rw [h.step_atLevel]
    exact ⟨rfl, h.step, rfl⟩
  tick := by
    rintro _ s _ ⟨h, rfl⟩ -
    exact ⟨h, rfl⟩
  key := by
    rintro _ s _ ⟨h, rfl⟩ number isDown -
    unfold setKey
    cases Keypad.key? number with
    | none => exact ⟨rfl, h, rfl⟩
    | some key => exact ⟨rfl, h, rfl⟩
  load := by
    rintro _ s _ ⟨h, rfl⟩ rom -
    rw [h.load_atLevel]
    exact ⟨rfl, h.load rom, rfl⟩
  reset := by
    rintro _ s _ ⟨h, rfl⟩ -
    have hnoted := h.note .debug "Reset"
    have hreset : (s.atLevel threshold).reset = Prod.map id (·.atLevel threshold) s.reset := by
      rw [reset, h.note_atLevel]
      exact hnoted.load_atLevel threshold s.rom
    rw [hreset]
    exact ⟨rfl, hnoted.load s.rom, rfl⟩

end Session

/-- The same response, its session with the journal of another threshold. -/
def Response.atLevel (r : Response) (threshold : Level) : Response :=
  { r with session := r.session.atLevel threshold }

/-- The same session with another journal. -/
def Session.withJournal (s : Session) (journal : Journal) : Session := { s with journal }

/-- The same response, its session with another journal. -/
def Response.withJournal (r : Response) (journal : Journal) : Response :=
  { r with session := r.session.withJournal journal }

namespace Session

variable {s : Session}

theorem quietAlong_thresholdSimulation (threshold : Level) (trail : List (Session × Event)) :
    (thresholdSimulation threshold).QuietAlong () trail := fun _ _ _ _ => trivial

/-- A request has the same response at every threshold. -/
theorem Verbose.perform_atLevel (h : s.Verbose) (threshold : Level) (request : Request) :
    (s.perform request).session.Verbose ∧
      (s.atLevel threshold).perform request = (s.perform request).atLevel threshold := by
  obtain ⟨houtcome, hverbose, hsession⟩ :=
    Simulation.perform (S := thresholdSimulation threshold) ⟨h, rfl⟩
      (quietAlong_thresholdSimulation threshold (s.events request))
  exact ⟨hverbose, Response.eq_of_outcome_eq houtcome hsession⟩

/-- A history has the same responses at every threshold. -/
theorem Verbose.responses_atLevel (h : s.Verbose) (threshold : Level) (history : List Request) :
    (s.atLevel threshold).responses history =
      (s.responses history).map (·.atLevel threshold) := by
  induction history generalizing s with
  | nil => rfl
  | cons request rest ih =>
    obtain ⟨hverbose, hperform⟩ := h.perform_atLevel threshold request
    rw [responses, hperform]
    exact congrArg _ (ih hverbose)

theorem Verbose.after_atLevel (h : s.Verbose) (threshold : Level) (history : List Request) :
    (s.atLevel threshold).after history = (s.after history).atLevel threshold := by
  obtain ⟨-, -, hlast⟩ := Simulation.responses (S := thresholdSimulation threshold) ⟨h, rfl⟩
    (quietAlong_thresholdSimulation threshold (s.trail history))
  exact hlast

/-- A creation does the same at every threshold. -/
theorem create_opened (rom : Option (List UInt8)) (dialect : Dialect) (seed : Random.Block)
    (c : Console) (threshold : Level) :
    create rom dialect seed (.opened c threshold) =
      Prod.map id (·.atLevel threshold) (create rom dialect seed (.opened c .debug)) := by
  have hvacant : (vacant dialect seed (.opened c .debug)).Verbose := rfl
  have hopened : vacant dialect seed (.opened c threshold) =
    (vacant dialect seed (.opened c .debug)).atLevel threshold := rfl
  cases rom with
  | none => exact Prod.ext rfl hopened
  | some rom =>
    rw [create, hopened]
    exact hvacant.load_atLevel threshold rom

/-- The journal follows a session and never leads it. Sessions whose consoles differ in the threshold
alone give the same responses, apart from the journal, and the lines at a stricter threshold are those
of the lowest one whose level is at or above it, in order. At the lowest threshold the journal holds
exactly what the creation and the requests of the history write. -/
theorem journal_after_create (rom : Option (List UInt8)) (dialect : Dialect) (seed : Random.Block)
    (c : Console) (history : List Request) :
    (∀ (threshold threshold' : Level) (journal : Journal),
      Prod.map id (·.withJournal journal) (create rom dialect seed (.opened c threshold')) =
          Prod.map id (·.withJournal journal) (create rom dialect seed (.opened c threshold)) ∧
        ((create rom dialect seed (.opened c threshold')).2.responses history).map
            (·.withJournal journal) =
          ((create rom dialect seed (.opened c threshold)).2.responses history).map
            (·.withJournal journal)) ∧
    (∀ threshold : Level,
      ((create rom dialect seed (.opened c threshold)).2.after history).journal.linesFrom 0 =
        (((create rom dialect seed (.opened c .debug)).2.after history).journal.entries.toList.filter
          fun entry => entry.level.AtOrAbove threshold).map
            fun entry => c.body entry.level entry.message) ∧
    ∃ entries, (∀ entries', (create rom dialect seed (.opened c .debug)).2.HistoryWrites history
        entries' ↔ entries' = entries) ∧
      ((create rom dialect seed (.opened c .debug)).2.after history).journal.entries.toList =
        creationEntries rom ++ entries := by
  have hopened : (Journal.opened c .debug).Verbose := rfl
  have hcreate := create_writes rom dialect seed hopened
  have hverbose : (create rom dialect seed (.opened c .debug)).2.Verbose := by
    rw [Verbose, hcreate]
    exact hopened.extend _
  obtain ⟨entries, hwrites, hjournal⟩ :=
    hverbose.after_writes (remembers_create rom dialect seed (.opened c .debug)) history
  rw [hcreate, Journal.extend_extend] at hjournal
  refine ⟨?_, ?_, entries, fun entries' => ⟨hwrites.unique, ?_⟩, ?_⟩
  · intro threshold threshold' journal
    rw [create_opened rom dialect seed c threshold, create_opened rom dialect seed c threshold']
    refine ⟨rfl, ?_⟩
    simp only [Prod.map_snd, hverbose.responses_atLevel, List.map_map]
    rfl
  · intro threshold
    rw [create_opened rom dialect seed c threshold, Prod.map_snd, hverbose.after_atLevel]
    change (((create rom dialect seed (.opened c .debug)).2.after history).journal.atLevel
      threshold).linesFrom 0 = _
    rw [Journal.linesFrom_atLevel, hjournal]
    rfl
  · rintro rfl
    exact hwrites
  · rw [hjournal, Journal.toList_entries_extend]
    rfl

end Session

end Chip8
