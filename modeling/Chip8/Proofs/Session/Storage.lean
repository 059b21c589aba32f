import Chip8.Proofs.Machine.Storage
import Chip8.Proofs.Session.Create
import Chip8.Proofs.Session.Trail

/-!
# What changes memory

Below the start of programs memory holds the font and zeros, whatever a host asks of a session and
whatever its program does. Above it, a byte changes only when a program is accepted or when a step
carries out one of the two instructions that store bytes, and then it lies in the run that the
instruction stores.
-/

namespace Chip8

/-- Memory before any program is loaded holds the font and zeros. -/
theorem Machine.get_blankMemory (k : Fin memorySize) :
    blankMemory.get k =
      if 0x050 ≤ k.val ∧ k.val < 0x0A0 then Font.rows[k.val - 0x050]?.getD 0 else 0 := by
  rw [blankMemory, Memory.get_patch, Memory.get_zero]
  by_cases hlow : 0x050 ≤ k.val
  · by_cases hhigh : k.val < 0x0A0
    · rw [if_pos hlow, if_pos ⟨hlow, hhigh⟩]
    · have hlength : Font.rows.length ≤ k.val - 0x050 := by
        rw [Font.length_rows]
        simp only [glyphSize]
        omega
      rw [if_pos hlow, if_neg fun h => hhigh h.2, List.getElem?_eq_none hlength, Option.getD_none]
  · rw [if_neg hlow, if_neg fun h => hlow h.1]

namespace Session

variable {s : Session} {k : Fin memorySize}

/-- The next step of a session stores a run of bytes that covers an address. -/
structure Stores (s : Session) (i : Instruction) (k : Nat) : Prop where
  /-- The step succeeds. -/
  executes : s.Executes i
  /-- It stores the decimal digits of a register or the registers up to one. -/
  op : i.op = .storeDecimal ∨ i.op = .store
  /-- The run starts at the index. -/
  index_le : s.machine.index.toNat ≤ k
  /-- It is as long as the instruction says. -/
  lt_end : k < s.machine.index.toNat + i.stored
  /-- It starts in the part of memory that programs own. -/
  start_le : 0x200 ≤ s.machine.index.toNat
  /-- It ends inside memory. -/
  end_le : s.machine.index.toNat + i.stored ≤ 0x1000

/-- A step that carries out an instruction stores the run from the index on that the instruction
says. -/
theorem Executes.stores_iff {i : Instruction} {k : Nat} (h : s.Executes i) :
    (∃ j, s.Stores j k) ↔
      s.machine.index.toNat ≤ k ∧ k < s.machine.index.toNat + i.stored := by
  constructor
  · rintro ⟨j, hj⟩
    obtain rfl : j = i := hj.executes.2.1.unique h.2.1
    exact ⟨hj.index_le, hj.lt_end⟩
  · rintro ⟨hle, hlt⟩
    obtain ⟨next, journal, hn, -⟩ := h.step_eq
    have hpos : 0 < i.stored := by omega
    obtain ⟨hstart, hend⟩ := (Machine.memory_of_perform hn).2 hpos
    exact ⟨i, h, Instruction.op_of_stored_pos hpos, hle, hlt, hstart, hend⟩

/-- A byte that a step changes was stored by that step. -/
theorem stores_of_get_step_ne (hne : s.step.2.machine.memory.get k ≠ s.machine.memory.get k) :
    ∃ i, s.Stores i k := by
  rcases s.machine_step_cases with he | ⟨key, ha, hk, he⟩ | ⟨op, hf, ha, hc⟩
  · rw [he] at hne
    exact absurd rfl hne
  · rw [he, Machine.resume_of_latched ha hk] at hne
    exact absurd rfl hne
  · obtain ⟨word, next, hexecutes, hn, he⟩ := executes_of_cycle hf ha hc
    rw [he] at hne
    obtain ⟨hle, hlt, hstart, hend⟩ := Machine.stored_of_get_ne hn hne
    have hpos : 0 < (Instruction.mk op word).stored := by omega
    exact ⟨_, hexecutes, Instruction.op_of_stored_pos hpos, hle, hlt, hstart, hend⟩

/-- A byte below the start of programs survives every step. -/
theorem get_step_of_lt (hk : k.val < programStart) :
    s.step.2.machine.memory.get k = s.machine.memory.get k := by
  refine Decidable.byContradiction fun hne => ?_
  obtain ⟨i, hstores⟩ := stores_of_get_step_ne hne
  exact absurd (Nat.le_trans hstores.start_le hstores.index_le) (Nat.not_le.mpr hk)

/-- A key event does not reach memory. -/
theorem memory_setKey (s : Session) (number : Int) (isDown : Bool) :
    (s.setKey number isDown).2.machine.memory = s.machine.memory := by
  rcases s.setKey_cases number isDown with ⟨-, he⟩ | ⟨key, -, he⟩
  · rw [he]
  · rw [he]
    rfl

/-- A session whose memory is untouched below the start of programs. -/
def FontIntact (s : Session) : Prop :=
  ∀ k : Fin memorySize, k.val < programStart →
    s.machine.memory.get k = Machine.blankMemory.get k

theorem kept_fontIntact : Kept FontIntact where
  journal _ _ hs := hs
  step s hs k hk := (get_step_of_lt hk).trans (hs k hk)
  tick _ hs := hs
  key s number isDown hs k hk := by
    rw [memory_setKey]
    exact hs k hk

/-- A program is put above its start, and the rest of a fresh machine is untouched. -/
theorem FontIntact.load (hs : s.FontIntact) (rom : List UInt8) : (s.load rom).2.FontIntact := by
  rcases Nat.lt_or_ge romCapacity rom.length with h | h
  · obtain ⟨journal, he⟩ := s.load_of_lt h
    rw [he]
    exact hs
  · obtain ⟨journal, he⟩ := s.load_of_le h
    rw [he]
    intro k hk
    exact Memory.get_patch_of_outside _ (Or.inl hk)

/-- Every session that a host can arrive at has its font intact. -/
theorem fontIntact_after_create (rom : Option (List UInt8)) (dialect : Dialect)
    (seed : Random.Block) (journal : Journal) (history : List Request) :
    ((create rom dialect seed journal).2.after history).FontIntact := by
  have hvacant : (vacant dialect seed journal).FontIntact := fun _ _ => rfl
  refine kept_fontIntact.after (fun _ rom hs => hs.load rom) ?_ history
  cases rom with
  | none => exact hvacant
  | some rom => exact hvacant.load rom

/-- A byte that differs after a history in which no program was accepted was stored by one of its
steps. -/
theorem stores_of_get_after_ne {history : List Request}
    (hrefused : ∀ u rom, (u, .load rom) ∈ s.trail history →
      ∃ failure, (u.load rom).1 = .error failure)
    (hne : (s.after history).machine.memory.get k ≠ s.machine.memory.get k) :
    ∃ u i, (u, .step) ∈ s.trail history ∧ u.Stores i k := by
  refine Classical.byContradiction fun hnone => hne ?_
  -- Every event keeps the byte as it was at first, since none of them stores to it.
  let P : Session → Prop := fun u => u.machine.memory.get k = s.machine.memory.get k
  have hevent : ∀ u event, (u, event) ∈ s.trail history → P u → P (u.next event) := by
    intro u event hmem hu
    cases event with
    | step =>
      refine Decidable.byContradiction fun hstep => hnone ?_
      have hchanged : u.step.2.machine.memory.get k ≠ u.machine.memory.get k := by
        intro he
        exact hstep (he.trans hu)
      obtain ⟨i, hstores⟩ := stores_of_get_step_ne hchanged
      exact ⟨u, i, hmem, hstores⟩
    | tick => exact hu
    | key number isDown => exact (congrArg (·.get k) (u.memory_setKey number isDown)).trans hu
    | load rom =>
      obtain ⟨failure, hfail⟩ := hrefused u rom hmem
      obtain ⟨journal, he⟩ := u.load_of_refused hfail
      exact (congrArg (·.2.machine.memory.get k) he).trans hu
  have hstart : P s := rfl
  exact (holds_along_trail (fun _ _ hu => hu) hstart hevent).2

/-- Memory along every history. Below the start of programs it holds the font and zeros. Above it,
as long as no program is accepted, a byte changes only in a step that succeeds in storing decimal
digits or registers, and only inside the run from the index on, which programs own. -/
theorem memory_after_create (rom : Option (List UInt8)) (dialect : Dialect) (seed : Random.Block)
    (journal : Journal) (history : List Request) :
    (∀ k : Fin memorySize, k.val < 0x200 →
      ((create rom dialect seed journal).2.after history).machine.memory.get k =
        if 0x050 ≤ k.val ∧ k.val < 0x0A0 then Font.rows[k.val - 0x050]?.getD 0 else 0) ∧
      ∀ (t : Session) (later : List Request),
        (∀ u program, (u, .load program) ∈ t.trail later →
          ∃ failure, (u.load program).1 = .error failure) →
        ∀ k : Fin memorySize,
          (t.after later).machine.memory.get k ≠ t.machine.memory.get k →
          ∃ u i, (u, .step) ∈ t.trail later ∧ u.Stores i k := by
  constructor
  · intro k hk
    rw [fontIntact_after_create rom dialect seed journal history k hk]
    exact Machine.get_blankMemory k
  · intro t later hrefused k hne
    exact stores_of_get_after_ne hrefused hne

/-- A program that stores a register changes the byte that its index points at. -/
theorem memory_after_storing_register :
    ∃ t, t = (create (some [0x60, 0x07, 0xA3, 0x00, 0xF0, 0x55]) .cosmac ⟨0, 0⟩
        (.start "chip8" .warning)).2 ∧
      (∀ u program, (u, .load program) ∈ t.trail [.step, .step, .step] →
        ∃ failure, (u.load program).1 = .error failure) ∧
      (t.after [.step, .step, .step]).machine.memory.get 0x300 ≠ t.machine.memory.get 0x300 ∧
      ∃ u i, (u, .step) ∈ t.trail [.step, .step, .step] ∧ u.Stores i 0x300 := by
  obtain ⟨t, ht⟩ : ∃ t, t = (create (some [0x60, 0x07, 0xA3, 0x00, 0xF0, 0x55]) .cosmac ⟨0, 0⟩
    (.start "chip8" .warning)).2 := ⟨_, rfl⟩
  have hrefused : ∀ u program, (u, .load program) ∈ t.trail [.step, .step, .step] →
      ∃ failure, (u.load program).1 = .error failure := by
    intro u program hu
    simp [trail, events] at hu
  have hne : (t.after [.step, .step, .step]).machine.memory.get 0x300 ≠
      t.machine.memory.get 0x300 := by
    rw [ht]
    decide +kernel
  obtain ⟨-, hstores⟩ := memory_after_create none .cosmac ⟨0, 0⟩ (.start "chip8" .warning) []
  exact ⟨t, ht, hrefused, hne, hstores t [.step, .step, .step] hrefused 0x300 hne⟩

end Session

end Chip8
