import Chip8.Proofs.Machine.Surroundings

/-!
# What the dialect of a machine decides

Two machines that differ in their dialect alone do the same, and fail the same way, unless the
instruction is disputed between their dialects and its operands show it. Storing and loading
registers then still do the same to everything but the index.
-/

namespace Chip8

/-- The change to another dialect. -/
def Change.toDialect (d : Dialect) : Change := ⟨fun _ => d, id, id, id⟩

namespace Machine

variable {m : Machine} {d : Dialect} {i : Instruction}

/-- The same machine in another dialect. -/
def inDialect (m : Machine) (d : Dialect) : Machine := { m with dialect := d }

/-- Only disputed instructions notice another dialect. -/
theorem notices_toDialect_iff : m.Notices (.toDialect d) i ↔ m.Disputed d i := by
  refine or_iff_left ?_
  obtain ⟨op, word⟩ := i
  cases op with
  | getDelay | setDelay | setSound => exact not_not_intro rfl
  | skip condition =>
    cases condition with
    | keyDown | keyUp => exact not_not_intro rfl
    | _ => exact id
  | _ => exact id

/-- The instruction of a word does the same in both dialects unless it is disputed. -/
theorem execute_inDialect {w : Int} (h : ∀ i, decode w = .ok i → ¬ m.Disputed d i) :
    (m.inDialect d).execute w = (m.execute w).map (·.inDialect d) := by
  change (m.inDialect d).execute w = _ <$> m.execute w
  rw [execute, execute, map_bind]
  cases hi : decode w with
  | error fault => rfl
  | ok i => exact perform_change (mt notices_toDialect_iff.mp (h i hi))

/-- The word of a transfer of registers fails alike in every dialect, and its results agree on all
but the index. -/
theorem execute_transfer_inDialect {w : Int} (hi : decode w = .ok i)
    (hop : i.op = .store ∨ i.op = .load) :
    (m.inDialect d).execute w = (m.execute w).map fun n =>
      { n.inDialect d with index := (m.inDialect d).indexAfterTransfer i.x } := by
  rw [execute, execute, hi]
  exact transfer_change (m := m) (c := .toDialect d) hop

end Machine

end Chip8
