import Chip8.Proofs.Machine.Cycle

/-!
# Saving and restoring registers

A program saves the first registers of several register files by storing them one after another and
restores them by loading them in the same order. If the index moves along with the transfers, the
blocks lie side by side in memory, and each load finds the block of its store. If it does not, every
store overwrites the one before, and a single store can still be undone.
-/

namespace Chip8

/-- The registers up to one of a register file. -/
structure RegisterBlock where
  /-- The last register of the block. -/
  last : Fin registerCount
  /-- The register file. -/
  file : Registers

namespace RegisterBlock

/-- How many bytes a block takes in memory. -/
def size (b : RegisterBlock) : Nat := b.last.val + 1

/-- The bytes of a block, that of `V0` first. -/
def bytes (b : RegisterBlock) : List UInt8 := b.file.toList.take b.size

/-- How many bytes several blocks take. -/
def totalSize : List RegisterBlock → Nat
  | [] => 0
  | b :: blocks => b.size + totalSize blocks

/-- The bytes of several blocks, one block after the other. -/
def contents (blocks : List RegisterBlock) : List UInt8 := blocks.flatMap bytes

@[simp] theorem length_bytes (b : RegisterBlock) : b.bytes.length = b.size :=
  Machine.length_take_registers b.file b.last

@[simp] theorem totalSize_cons (b : RegisterBlock) (blocks : List RegisterBlock) :
    totalSize (b :: blocks) = b.size + totalSize blocks := rfl

@[simp] theorem totalSize_append (first second : List RegisterBlock) :
    totalSize (first ++ second) = totalSize first + totalSize second := by
  induction first with
  | nil => exact (Nat.zero_add _).symm
  | cons b first ih => rw [List.cons_append, totalSize_cons, totalSize_cons, ih, Nat.add_assoc]

@[simp] theorem contents_append (first second : List RegisterBlock) :
    contents (first ++ second) = contents first ++ contents second :=
  List.flatMap_append

@[simp] theorem contents_cons (b : RegisterBlock) (blocks : List RegisterBlock) :
    contents (b :: blocks) = b.bytes ++ contents blocks :=
  List.flatMap_cons

@[simp] theorem length_contents (blocks : List RegisterBlock) :
    (contents blocks).length = totalSize blocks := by
  induction blocks with
  | nil => rfl
  | cons b blocks ih =>
    rw [contents_cons, totalSize_cons, List.length_append, length_bytes, ih]

/-- A register of a block is found at its number. -/
theorem getElem?_bytes_of_le (b : RegisterBlock) {z : Fin registerCount} (hz : z ≤ b.last) :
    b.bytes[z.val]? = some (b.file.get z) := by
  have hlt : z.val < b.size := Nat.lt_succ_of_le hz
  rw [bytes, List.getElem?_take_of_lt hlt, Vector.getElem?_toList]
  exact Vector.getElem?_eq_getElem z.isLt

/-- A register above a block is not found. -/
theorem getElem?_bytes_of_lt (b : RegisterBlock) {z : Fin registerCount} (hz : b.last < z) :
    b.bytes[z.val]? = none := by
  apply List.getElem?_eq_none
  rw [length_bytes]
  exact hz

end RegisterBlock

namespace Op

/-- The word that stores the registers up to one. -/
def storeWord (x : Fin registerCount) : Nat := 0xF055 + 256 * x.val

/-- The word that loads the registers up to one. -/
def loadWord (x : Fin registerCount) : Nat := 0xF065 + 256 * x.val

theorem decode_storeWord (x : Fin registerCount) :
    ∃ i, decode (storeWord x) = .ok i ∧ i.op = .store ∧ i.x = x := by
  refine decode_misc (b := 0x55) ?_ (by decide) rfl
  unfold storeWord
  omega

theorem decode_loadWord (x : Fin registerCount) :
    ∃ i, decode (loadWord x) = .ok i ∧ i.op = .load ∧ i.x = x := by
  refine decode_misc (b := 0x65) ?_ (by decide) rfl
  unfold loadWord
  omega

end Op

namespace Machine

open RegisterBlock

variable {m : Machine} {b : RegisterBlock} {blocks : List RegisterBlock} {a : Nat}

/-- A store that stays inside the part of memory that programs own succeeds. -/
theorem execute_storeWord (x : Fin registerCount) (hstart : programStart ≤ m.index.toNat)
    (hend : m.index.toNat + (x.val + 1) ≤ memorySize) :
    m.execute (Op.storeWord x) = .ok { m with
      memory := m.memory.patch m.index.toNat (m.registers.toList.take (x.val + 1))
      index := m.indexAfterTransfer x } := by
  obtain ⟨i, hi, hop, rfl⟩ := Op.decode_storeWord x
  obtain ⟨op, word⟩ := i
  obtain rfl : op = .store := hop
  rw [execute, hi]
  have hlength := length_take_registers m.registers (Instruction.mk .store word).x
  apply storeRegisters_eq_ok_iff.mpr
  refine ⟨_, Memory.writeBytes_eq_ok_iff.mpr ⟨⟨?_, fun _ => ?_⟩, rfl⟩, rfl⟩
  · rw [hlength]
    omega
  · omega

/-- A load that stays inside memory succeeds. -/
theorem execute_loadWord (x : Fin registerCount)
    (hend : m.index.toNat + (x.val + 1) ≤ memorySize) :
    m.execute (Op.loadWord x) = .ok { m with
      registers := overwrite m.registers (m.memory.run m.index.toNat (x.val + 1))
      index := m.indexAfterTransfer x } := by
  obtain ⟨i, hi, hop, rfl⟩ := Op.decode_loadWord x
  obtain ⟨op, word⟩ := i
  obtain rfl : op = .load := hop
  rw [execute, hi]
  apply loadRegisters_eq_ok_iff.mpr
  exact ⟨_, Memory.readBytes_eq_ok_iff.mpr ⟨hend, rfl⟩, rfl⟩

/-- An index that moves along ends up past the last byte, or at zero after the end of memory. -/
theorem toNat_indexAfterTransfer (h : m.dialect.transferAdvancesIndex = true)
    (x : Fin registerCount) :
    (m.indexAfterTransfer x).toNat = (m.index.toNat + (x.val + 1)) % memorySize := by
  have hx := x.isLt
  simp only [registerCount] at hx
  rw [indexAfterTransfer, if_pos h]
  simp only [UInt16.toNat_mod, UInt16.toNat_add, UInt16.toNat_ofNat', UInt16.reduceToNat,
    memorySize]
  omega

theorem indexAfterTransfer_of_stays (h : m.dialect.transferAdvancesIndex = false)
    (x : Fin registerCount) : m.indexAfterTransfer x = m.index := by
  rw [indexAfterTransfer, if_neg (Bool.eq_false_iff.mp h)]

/-- Put a register file in place and store a block of it. -/
def save (m : Machine) (b : RegisterBlock) : Except Fault Machine :=
  { m with registers := b.file }.execute (Op.storeWord b.last)

/-- A block inside the part of memory that programs own can be saved. -/
theorem save_eq (hstart : programStart ≤ m.index.toNat)
    (hend : m.index.toNat + b.size ≤ memorySize) :
    m.save b = .ok { m with
      memory := m.memory.patch m.index.toNat b.bytes
      registers := b.file
      index := m.indexAfterTransfer b.last } :=
  execute_storeWord b.last hstart hend

/-- Load as many registers as a block has. -/
def restore (m : Machine) (b : RegisterBlock) : Except Fault Machine :=
  m.execute (Op.loadWord b.last)

/-- A block inside memory can be loaded. -/
theorem restore_eq (hend : m.index.toNat + b.size ≤ memorySize) :
    m.restore b = .ok { m with
      registers := overwrite m.registers (m.memory.run m.index.toNat b.size)
      index := m.indexAfterTransfer b.last } :=
  execute_loadWord b.last hend

/-- Save several blocks in turn. -/
def saveAll (m : Machine) (blocks : List RegisterBlock) : Except Fault Machine :=
  blocks.foldlM save m

/-- Restore several blocks in turn. -/
def restoreAll (m : Machine) (blocks : List RegisterBlock) : Except Fault Machine :=
  blocks.foldlM restore m

theorem saveAll_cons {n : Machine} (h : m.save b = .ok n) :
    m.saveAll (b :: blocks) = n.saveAll blocks := by
  rw [saveAll, List.foldlM_cons, h]
  rfl

theorem restoreAll_cons {n : Machine} (h : m.restore b = .ok n) :
    m.restoreAll (b :: blocks) = n.restoreAll blocks := by
  rw [restoreAll, List.foldlM_cons, h]
  rfl

/-- A block that is restored: its registers are back, the ones above and memory are as before. -/
structure BringsBack (before : Machine) (b : RegisterBlock) (after : Machine) : Prop where
  restore : before.restore b = .ok after
  restored : ∀ z ≤ b.last, after.register z = b.file.get z
  kept : ∀ z, b.last < z → after.register z = before.register z
  memory : after.memory = before.memory

/-- A block whose bytes stand at the index is restored. -/
theorem bringsBack_of_run (hend : m.index.toNat + b.size ≤ memorySize)
    (hrun : m.memory.run m.index.toNat b.size = b.bytes) :
    ∃ after, m.BringsBack b after ∧ after.index = m.indexAfterTransfer b.last := by
  have hload := restore_eq hend
  have hregister := get_overwrite m.registers (m.memory.run m.index.toNat b.size)
  refine ⟨_, ⟨hload, fun z hz => ?_, fun z hz => ?_, rfl⟩, rfl⟩
  · refine (hregister z).trans ?_
    rw [hrun, b.getElem?_bytes_of_le hz, Option.getD_some]
  · refine (hregister z).trans ?_
    rw [hrun, b.getElem?_bytes_of_lt hz, Option.getD_none]
    rfl

/-- An index that moves along passes over the blocks that are saved, and they end up one after the
other where it started. It is at zero after the end of memory. -/
theorem saveAll_of_advances (hadv : m.dialect.transferAdvancesIndex = true)
    (hindex : m.index.toNat = a % memorySize) (hstart : programStart ≤ a)
    (hend : a + totalSize blocks ≤ memorySize) :
    ∃ registers index,
      m.saveAll blocks = .ok { m with
        memory := m.memory.patch a (contents blocks), registers, index } ∧
      index.toNat = (a + totalSize blocks) % memorySize := by
  induction blocks generalizing m a with
  | nil => exact ⟨m.registers, m.index, rfl, hindex⟩
  | cons b blocks ih =>
    rw [totalSize_cons] at hend ⊢
    have hpos : 0 < b.size := Nat.succ_pos _
    have hinside : m.index.toNat = a := hindex.trans (Nat.mod_eq_of_lt (by omega))
    have hsave := m.save_eq (b := b) (by omega) (by omega)
    rw [hinside] at hsave
    have hnext : (m.indexAfterTransfer b.last).toNat = (a + b.size) % memorySize := by
      rw [toNat_indexAfterTransfer hadv, hinside]
      rfl
    obtain ⟨registers, index, hrest, hlast⟩ := ih (m := { m with
      memory := m.memory.patch a b.bytes
      registers := b.file
      index := m.indexAfterTransfer b.last }) hadv hnext (by omega) (by omega)
    refine ⟨registers, index, ?_, by rw [← Nat.add_assoc]; exact hlast⟩
    rw [saveAll_cons hsave, hrest, contents_cons, Memory.patch_append, length_bytes]

/-- An index that moves along passes over the blocks that are restored; nothing but the registers
changes otherwise. -/
theorem restoreAll_of_advances (hadv : m.dialect.transferAdvancesIndex = true)
    (hindex : m.index.toNat = a % memorySize) (hend : a + totalSize blocks ≤ memorySize) :
    ∃ registers index,
      m.restoreAll blocks = .ok { m with registers, index } ∧
      index.toNat = (a + totalSize blocks) % memorySize := by
  induction blocks generalizing m a with
  | nil => exact ⟨m.registers, m.index, rfl, hindex⟩
  | cons b blocks ih =>
    rw [totalSize_cons] at hend ⊢
    have hpos : 0 < b.size := Nat.succ_pos _
    have hinside : m.index.toNat = a := hindex.trans (Nat.mod_eq_of_lt (by omega))
    have hload := m.restore_eq (b := b) (by omega)
    have hnext : (m.indexAfterTransfer b.last).toNat = (a + b.size) % memorySize := by
      rw [toNat_indexAfterTransfer hadv, hinside]
      rfl
    obtain ⟨registers, index, hrest, hlast⟩ := ih (m := { m with
      registers := overwrite m.registers (m.memory.run m.index.toNat b.size)
      index := m.indexAfterTransfer b.last }) hadv hnext (by omega)
    refine ⟨registers, index, ?_, by rw [← Nat.add_assoc]; exact hlast⟩
    rw [restoreAll_cons hload, hrest]

/-- A block of a chain is restored after the ones before it. -/
theorem bringsBack_of_advances {earlier later : List RegisterBlock}
    (hadv : m.dialect.transferAdvancesIndex = true) (hindex : m.index.toNat = a)
    (hend : a + totalSize blocks ≤ memorySize)
    (hrun : m.memory.run a (totalSize blocks) = contents blocks)
    (hcut : blocks = earlier ++ b :: later) :
    ∃ before after, m.restoreAll earlier = .ok before ∧ before.BringsBack b after ∧
      after.memory = m.memory := by
  rw [hcut, totalSize_append, totalSize_cons] at hend hrun
  have hpos : 0 < b.size := Nat.succ_pos _
  have hstart : m.index.toNat = a % memorySize :=
    hindex.trans (Nat.mod_eq_of_lt (by omega)).symm
  have hfirst : a + totalSize earlier ≤ memorySize := by omega
  obtain ⟨registers, index, hbefore, hreached⟩ := restoreAll_of_advances hadv hstart hfirst
  have hreached' : index.toNat = a + totalSize earlier :=
    hreached.trans (Nat.mod_eq_of_lt (by omega))
  -- The bytes of the block are cut out of the bytes of the chain.
  have hbytes : m.memory.run (a + totalSize earlier) b.size = b.bytes := by
    rw [Memory.run_add, Memory.run_add, contents_append, contents_cons] at hrun
    have htail := List.append_inj_right hrun (by simp)
    exact List.append_inj_left htail (by simp)
  obtain ⟨after, hback, -⟩ := bringsBack_of_run (m := { m with registers, index }) (b := b)
    (by simp only [hreached']; omega) (by simp only [hreached']; exact hbytes)
  exact ⟨_, after, hbefore, hback, hback.memory⟩

/-- An index that stays put is the same after any number of blocks that are saved. -/
theorem saveAll_of_stays (hstays : m.dialect.transferAdvancesIndex = false)
    (hstart : programStart ≤ m.index.toNat)
    (hend : m.index.toNat + totalSize blocks ≤ memorySize) :
    ∃ saved, m.saveAll blocks = .ok saved ∧ saved.index = m.index ∧ saved.dialect = m.dialect := by
  induction blocks generalizing m with
  | nil => exact ⟨m, rfl, rfl, rfl⟩
  | cons b blocks ih =>
    rw [totalSize_cons] at hend
    have hsave := m.save_eq (b := b) hstart (by omega)
    rw [indexAfterTransfer_of_stays hstays] at hsave
    obtain ⟨saved, hrest, hindex, hdialect⟩ := ih (m := { m with
      memory := m.memory.patch m.index.toNat b.bytes
      registers := b.file }) hstays hstart (by simp only; omega)
    exact ⟨saved, (saveAll_cons hsave).trans hrest, hindex, hdialect⟩

/-- An index that stays put is the same after any number of blocks that are restored. -/
theorem restoreAll_of_stays (hstays : m.dialect.transferAdvancesIndex = false)
    (hend : m.index.toNat + totalSize blocks ≤ memorySize) :
    ∃ restored, m.restoreAll blocks = .ok restored ∧ restored.index = m.index := by
  induction blocks generalizing m with
  | nil => exact ⟨m, rfl, rfl⟩
  | cons b blocks ih =>
    rw [totalSize_cons] at hend
    have hload := m.restore_eq (b := b) (by omega)
    rw [indexAfterTransfer_of_stays hstays] at hload
    obtain ⟨restored, hrest, hindex⟩ := ih (m := { m with
      registers := overwrite m.registers (m.memory.run m.index.toNat b.size) }) hstays
      (by simp only; omega)
    exact ⟨restored, (restoreAll_cons hload).trans hrest, hindex⟩

/-- Where a block fits there is an address. -/
theorem index_lt_of_fits (hne : blocks ≠ []) (hend : a + totalSize blocks ≤ memorySize) :
    a < memorySize := by
  obtain ⟨b, rest, rfl⟩ := List.exists_cons_of_ne_nil hne
  have hpos : 0 < b.size := Nat.succ_pos _
  rw [totalSize_cons] at hend
  omega

/-- The bytes of several blocks stand one block after the other from an address on, and every other
byte is that of an earlier memory. -/
structure Holds (saved : Memory) (blocks : List RegisterBlock) (a : Nat) (before : Memory) : Prop where
  bytes : saved.run a (totalSize blocks) = contents blocks
  others : ∀ k : Fin memorySize, k.val < a ∨ a + totalSize blocks ≤ k.val →
    saved.get k = before.get k

theorem holds_patch (memory : Memory) (hend : a + totalSize blocks ≤ memorySize) :
    Holds (memory.patch a (contents blocks)) blocks a memory where
  bytes := by
    have hrun := memory.run_patch (by rw [length_contents]; exact hend)
    rw [length_contents] at hrun
    exact hrun
  others k hk := by
    apply Memory.get_patch_of_outside
    rw [length_contents]
    exact hk

/-- Loads that bring back several blocks in turn and leave the index at an address. -/
structure Restores (start : Machine) (blocks : List RegisterBlock) (past : Nat) : Prop where
  all : ∃ restored, start.restoreAll blocks = .ok restored ∧ restored.memory = start.memory ∧
    restored.index.toNat = past
  each : ∀ earlier b later, blocks = earlier ++ b :: later →
    ∃ before after, start.restoreAll earlier = .ok before ∧ before.BringsBack b after ∧
      after.memory = start.memory

/-- An index that moves along restores the blocks that stand in memory from it on. -/
theorem restores_of_advances (hadv : m.dialect.transferAdvancesIndex = true) (hne : blocks ≠ [])
    (hend : m.index.toNat + totalSize blocks ≤ memorySize)
    (hrun : m.memory.run m.index.toNat (totalSize blocks) = contents blocks) :
    m.Restores blocks ((m.index.toNat + totalSize blocks) % memorySize) where
  all := by
    have hinside := Nat.mod_eq_of_lt (index_lt_of_fits hne hend)
    obtain ⟨registers, index, hrestored, hindex⟩ := restoreAll_of_advances hadv hinside.symm hend
    exact ⟨_, hrestored, rfl, hindex⟩
  each _ _ _ hcut := bringsBack_of_advances hadv rfl hend hrun hcut

/-- An index that stays put restores the block that has just been saved. -/
theorem bringsBack_of_stays {saved : Machine} (hstays : m.dialect.transferAdvancesIndex = false)
    (hstart : programStart ≤ m.index.toNat) (hend : m.index.toNat + totalSize [b] ≤ memorySize)
    (hsaved : m.saveAll [b] = .ok saved) :
    Holds saved.memory [b] m.index.toNat m.memory ∧
      ∀ registers, ∃ after, { saved with registers }.BringsBack b after ∧
        after.index = m.index := by
  have hcontents : contents [b] = b.bytes := List.flatMap_singleton bytes b
  have hsize : totalSize [b] = b.size := by simp [totalSize]
  have hholds := holds_patch m.memory hend
  rw [hsize] at hend
  have hsave := m.save_eq (b := b) hstart hend
  rw [saveAll_cons hsave] at hsaved
  obtain rfl := Except.ok.inj hsaved
  rw [hcontents] at hholds
  refine ⟨hholds, fun registers => ?_⟩
  have hrun := hholds.bytes
  rw [hsize, hcontents] at hrun
  have hindex := indexAfterTransfer_of_stays hstays b.last
  obtain ⟨after, hback, hafter⟩ := bringsBack_of_run (b := b) (m := { m with
    memory := m.memory.patch m.index.toNat b.bytes
    registers
    index := m.indexAfterTransfer b.last })
    (by simp only [hindex]; exact hend) (by simp only [hindex]; exact hrun)
  refine ⟨after, hback, hafter.trans ?_⟩
  rw [indexAfterTransfer_of_stays hstays]
  exact hindex

/-- What is saved can be restored. If the index moves along, any number of blocks saved one after the
other inside the part of memory that programs own stand there one after the other, the index ends
up past them, and from their start on they can be restored one after the other into any registers.
If the index stays put, it does so under any number of transfers, and a single block that is saved
can be restored right away. -/
theorem restoreAll_undoes_saveAll (hne : blocks ≠ []) (hstart : 0x200 ≤ m.index.toNat)
    (hend : m.index.toNat + totalSize blocks ≤ 4096) :
    (m.dialect.transferAdvancesIndex = true →
      ∃ saved, m.saveAll blocks = .ok saved ∧
        Holds saved.memory blocks m.index.toNat m.memory ∧
        saved.index.toNat = (m.index.toNat + totalSize blocks) % 4096 ∧
        ∀ registers, { saved with index := m.index, registers }.Restores blocks
          ((m.index.toNat + totalSize blocks) % 4096)) ∧
    (m.dialect.transferAdvancesIndex = false →
      (∀ earlier later, blocks = earlier ++ later →
        ∃ saved, m.saveAll earlier = .ok saved ∧ saved.index = m.index) ∧
      ∃ saved, m.saveAll blocks = .ok saved ∧
        (∀ registers earlier later, blocks = earlier ++ later →
          ∃ restored, { saved with registers }.restoreAll earlier = .ok restored ∧
            restored.index = m.index) ∧
        ∀ b, blocks = [b] → Holds saved.memory [b] m.index.toNat m.memory ∧
          ∀ registers, ∃ after,
            { saved with registers }.BringsBack b after ∧ after.index = m.index) := by
  have hfits : m.index.toNat + totalSize blocks ≤ memorySize := hend
  constructor
  · intro hadv
    have hinside := Nat.mod_eq_of_lt (index_lt_of_fits hne hfits)
    obtain ⟨file, index, hsaved, hindex⟩ := saveAll_of_advances hadv hinside.symm hstart hfits
    have hholds := holds_patch m.memory hfits
    refine ⟨_, hsaved, hholds, hindex, fun registers => ?_⟩
    exact restores_of_advances hadv hne hfits hholds.bytes
  · intro hstays
    obtain ⟨saved, hsaved, hindex, hdialect⟩ := saveAll_of_stays hstays hstart hfits
    refine ⟨fun earlier later hcut => ?_, saved, hsaved, fun registers earlier later hcut => ?_,
      fun b hb => ?_⟩
    · rw [hcut, totalSize_append] at hfits
      have hfirst : m.index.toNat + totalSize earlier ≤ memorySize := by omega
      obtain ⟨saved, hsaved, hindex, -⟩ := saveAll_of_stays hstays hstart hfirst
      exact ⟨saved, hsaved, hindex⟩
    · rw [hcut, totalSize_append] at hfits
      rw [← hdialect] at hstays
      rw [← hindex] at hfits ⊢
      exact restoreAll_of_stays (m := { saved with registers }) hstays (by simp only; omega)
    · subst hb
      exact bringsBack_of_stays hstays hstart hfits hsaved

/-- Two blocks of one register each fill memory to its end; the index comes out at zero. -/
theorem restoreAll_undoes_saveAll_at_end :
    ∃ (m : Machine) (blocks : List RegisterBlock),
      m = { initial ⟨0, 0⟩ .cosmac with index := 0xFFE } ∧
      blocks = [⟨0, Vector.replicate 16 7⟩, ⟨0, Vector.replicate 16 9⟩] ∧
      blocks ≠ [] ∧ 0x200 ≤ m.index.toNat ∧ m.index.toNat + totalSize blocks ≤ 4096 ∧
      m.dialect.transferAdvancesIndex = true ∧
      ∃ saved, m.saveAll blocks = .ok saved ∧ Holds saved.memory blocks 0xFFE m.memory ∧
        saved.index.toNat = 0 ∧
        ∀ registers, { saved with index := m.index, registers }.Restores blocks 0 := by
  obtain ⟨m, hm⟩ : ∃ m : Machine, m = { initial ⟨0, 0⟩ .cosmac with index := 0xFFE } := ⟨_, rfl⟩
  obtain ⟨blocks, hblocks⟩ : ∃ blocks : List RegisterBlock,
    blocks = [⟨0, Vector.replicate 16 7⟩, ⟨0, Vector.replicate 16 9⟩] := ⟨_, rfl⟩
  have hindex : m.index.toNat = 0xFFE := by
    rw [hm]
    rfl
  have hsize : totalSize blocks = 2 := by
    rw [hblocks]
    rfl
  have hadv : m.dialect.transferAdvancesIndex = true := by
    rw [hm]
    rfl
  have hne : blocks ≠ [] := by
    rw [hblocks]
    exact List.cons_ne_nil _ _
  have hstart : 0x200 ≤ m.index.toNat := by omega
  have hend : m.index.toNat + totalSize blocks ≤ 4096 := by omega
  have hround := (restoreAll_undoes_saveAll hne hstart hend).1 hadv
  rw [hindex, hsize] at hround
  exact ⟨m, blocks, hm, hblocks, hne, hstart, hend, hadv, hround⟩

end Machine

end Chip8
