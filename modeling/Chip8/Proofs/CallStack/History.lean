import Chip8.Proofs.CallStack
import Mathlib.Data.List.Induction

/-!
# Histories of a call stack

A caller pushes and pops in any order, and what fails changes nothing. The stack then always works
as a list of at most sixteen addresses. What a pop hands out is the address of the newest push that
no pop has matched, where matching is read off the record of pushes and pops alone.
-/

namespace Chip8.CallStack

variable {s t : CallStack} {addresses : List UInt16} {address : UInt16} {fault : Fault}

/-- A stack stands for a list of addresses: the first slots hold them in order, the others are
clear, and the depth is their number. -/
structure Represents (s : CallStack) (addresses : List UInt16) : Prop where
  depth : s.depth = addresses.length
  length_le : addresses.length ≤ stackFrames
  used : ∀ (k : Fin stackFrames) (h : k.val < addresses.length), s.slot k = addresses[k.val]
  clear : ∀ k : Fin stackFrames, addresses.length ≤ k → s.slot k = 0

theorem represents_empty : empty.Represents [] :=
  ⟨rfl, Nat.zero_le _, nofun, fun k _ => slot_empty k⟩

/-- A push appends the masked address. -/
theorem Represents.push (hs : s.Represents addresses) (h : s.push address = .ok t) :
    t.Represents (addresses ++ [address % 4096]) := by
  obtain ⟨hlt, hdepth, hslot⟩ := push_eq_ok_iff.mp h
  have hlength : (addresses ++ [address % 4096]).length = t.depth := by
    rw [List.length_append, List.length_singleton, ← hs.depth, hdepth]
  refine ⟨hlength.symm, hlength ▸ t.depth_le, fun k hk => ?_, fun k hk => ?_⟩
  · rw [hslot k, List.getElem_append]
    by_cases hold : k.val < addresses.length
    · rw [dif_pos hold, if_neg (hs.depth ▸ Nat.ne_of_lt hold), hs.used k hold]
    · have hnew : k.val = s.depth := by
        have hle := hs.depth
        omega
      rw [dif_neg hold, if_pos hnew, List.getElem_singleton]
  · have hfree : addresses.length ≤ k.val ∧ k.val ≠ s.depth := by
      have hle := hs.depth
      omega
    rw [hslot k, if_neg hfree.2, hs.clear k hfree.1]

/-- A pop hands out the last address and removes it. -/
theorem Represents.pop (hs : s.Represents addresses) (h : s.pop = .ok (address, t)) :
    ∃ rest, addresses = rest ++ [address] ∧ t.Represents rest := by
  obtain ⟨hdepth, htop, hslot⟩ := pop_eq_ok_iff.mp h
  rw [hs.depth] at hdepth
  cases addresses using List.reverseRecOn with
  | nil => cases hdepth
  | append_singleton rest last =>
    rw [List.length_append, List.length_singleton, Nat.add_right_cancel_iff] at hdepth
    have hin (k : Nat) (hk : k ≤ rest.length) : k < (rest ++ [last]).length := by
      rw [List.length_append, List.length_singleton]
      exact Nat.lt_succ_of_le hk
    have hlast : address = last := by
      have hfits := hs.length_le
      rw [htop ⟨rest.length, Nat.lt_of_lt_of_le (hin _ (Nat.le_refl _)) hfits⟩ hdepth,
        hs.used _ (hin _ (Nat.le_refl _)), List.getElem_concat_length rfl]
    refine ⟨rest, by rw [hlast], hdepth.symm, hdepth ▸ t.depth_le, fun k hk => ?_, fun k hk => ?_⟩
    · rw [hslot k, if_neg (hdepth ▸ Nat.ne_of_lt hk), hs.used k (hin k (Nat.le_of_lt hk)),
        List.getElem_append_left hk]
    · rw [hslot k]
      by_cases htaken : k.val = t.depth
      · rw [if_pos htaken]
      · have hfree : (rest ++ [last]).length ≤ k := by
          rw [List.length_append, List.length_singleton]
          omega
        rw [if_neg htaken, hs.clear k hfree]

/-- A stack works as a list of addresses: it stands for the list, pushes append to it and pops take
its last entry away, and they are refused exactly if the list is full and empty. -/
structure WorksAs (s : CallStack) (addresses : List UInt16) : Prop where
  represents : s.Represents addresses
  push_refused : ∀ address fault, s.push address = .error fault ↔
    addresses.length = stackFrames ∧ fault = .stackOverflow stackFrames
  push : ∀ address, addresses.length ≠ stackFrames →
    ∃ t, s.push address = .ok t ∧ t.Represents (addresses ++ [address % 4096])
  pop_refused : ∀ fault, s.pop = .error fault ↔ addresses = [] ∧ fault = .stackUnderflow
  pop : ∀ h : addresses ≠ [],
    ∃ t, s.pop = .ok (addresses.getLast h, t) ∧ t.Represents addresses.dropLast

/-- A stack works as the list that it stands for. -/
theorem Represents.worksAs (hs : s.Represents addresses) : s.WorksAs addresses := by
  have hpush : ∀ address fault, s.push address = .error fault ↔
      addresses.length = stackFrames ∧ fault = .stackOverflow stackFrames := by
    intro address fault
    rw [push_eq_error_iff, hs.depth]
  have hpop : ∀ fault, s.pop = .error fault ↔ addresses = [] ∧ fault = .stackUnderflow := by
    intro fault
    rw [pop_eq_error_iff, hs.depth, List.length_eq_zero_iff]
  refine ⟨hs, hpush, fun address hroom => ?_, hpop, fun hne => ?_⟩
  · cases h : s.push address with
    | ok t => exact ⟨t, rfl, hs.push h⟩
    | error fault => exact absurd ((hpush address fault).mp h).1 hroom
  · cases h : s.pop with
    | ok result =>
      obtain ⟨address, t⟩ := result
      obtain ⟨rest, rfl, ht⟩ := hs.pop h
      rw [List.getLast_concat, List.dropLast_concat]
      exact ⟨t, rfl, ht⟩
    | error fault => exact absurd ((hpop fault).mp h).1 hne

/-- What a caller can ask of a stack. -/
inductive Operation where
  /-- Put an address on the stack. -/
  | push (address : UInt16)
  /-- Take the newest address back. -/
  | pop
  deriving DecidableEq, Repr

/-- What came of an operation. -/
inductive Event where
  /-- An address, as the caller gave it, was put on the stack. -/
  | pushed (address : UInt16)
  /-- An address was taken back. -/
  | popped (address : UInt16)
  /-- The operation failed. -/
  | refused (fault : Fault)
  deriving DecidableEq, Repr

/-- Carry out an operation. One that fails leaves the stack as it is. -/
def operate (s : CallStack) : Operation → Event × CallStack
  | .push address =>
    match s.push address with
    | .ok t => (.pushed address, t)
    | .error fault => (.refused fault, s)
  | .pop =>
    match s.pop with
    | .ok (address, t) => (.popped address, t)
    | .error fault => (.refused fault, s)

/-- A stack after several operations in turn. -/
def after (s : CallStack) : List Operation → CallStack
  | [] => s
  | operation :: rest => (s.operate operation).2.after rest

/-- What came of several operations in turn. -/
def events (s : CallStack) : List Operation → List Event
  | [] => []
  | operation :: rest => (s.operate operation).1 :: (s.operate operation).2.events rest

/-- An event leads from one stack to another. -/
inductive Happens (s : CallStack) : Event → CallStack → Prop
  | pushed {address : UInt16} {t : CallStack} (h : s.push address = .ok t) :
    Happens s (.pushed address) t
  | popped {address : UInt16} {t : CallStack} (h : s.pop = .ok (address, t)) :
    Happens s (.popped address) t
  | refused (fault : Fault) : Happens s (.refused fault) s

theorem happens_operate (s : CallStack) (operation : Operation) :
    s.Happens (s.operate operation).1 (s.operate operation).2 := by
  cases operation with
  | push address =>
    rw [operate]
    cases h : s.push address with
    | ok t => exact .pushed h
    | error fault => exact .refused fault
  | pop =>
    rw [operate]
    cases h : s.pop with
    | ok result => exact .popped h
    | error fault => exact .refused fault

@[simp] theorem length_events (s : CallStack) (operations : List Operation) :
    (s.events operations).length = operations.length := by
  induction operations generalizing s with
  | nil => rfl
  | cons operation rest ih => exact congrArg Nat.succ (ih (s.operate operation).2)

theorem after_append (s : CallStack) (first second : List Operation) :
    s.after (first ++ second) = (s.after first).after second := by
  induction first generalizing s with
  | nil => rfl
  | cons operation rest ih => exact ih (s.operate operation).2

theorem events_append (s : CallStack) (first second : List Operation) :
    s.events (first ++ second) = s.events first ++ (s.after first).events second := by
  induction first generalizing s with
  | nil => rfl
  | cons operation rest ih => exact congrArg (_ :: ·) (ih (s.operate operation).2)

/-- The event at a place is what came of the operation there on the stack that the operations before
it had left. -/
theorem exists_operation_of_event {operations : List Operation} {place : Nat} {event : Event}
    (h : (s.events operations)[place]? = some event) :
    ∃ operation, ((s.after (operations.take place)).operate operation).1 = event ∧
      (s.events operations).take place = s.events (operations.take place) := by
  obtain ⟨hlt, hevent⟩ := List.getElem?_eq_some_iff.mp h
  rw [length_events] at hlt
  have hlength : (s.events (operations.take place)).length = place := by
    rw [length_events, List.length_take, Nat.min_eq_left (Nat.le_of_lt hlt)]
  have hsplit : s.events operations = s.events (operations.take place) ++
      (s.after (operations.take place)).events (operations.drop place) := by
    rw [← events_append, List.take_append_drop]
  refine ⟨operations[place], ?_, ?_⟩
  · rw [hsplit, List.getElem?_append_right (Nat.le_of_eq hlength), hlength, Nat.sub_self,
      List.drop_eq_getElem_cons hlt] at h
    exact Option.some.inj h
  · rw [hsplit, List.take_left' hlength]

/-- How an event changes the number of addresses that have not been taken back. -/
def Event.change : Event → Int
  | .pushed _ => 1
  | .popped _ => -1
  | .refused _ => 0

/-- How many more addresses have been put on a stack than taken back. -/
def rise : List Event → Int
  | [] => 0
  | event :: rest => event.change + rise rest

/-- The push at a place is unmatched: the pops after it have only taken back addresses that came
later, so ever since there have been more addresses than just before it. -/
structure Unmatched (events : List Event) (place : Nat) (address : UInt16) : Prop where
  pushed : events[place]? = some (.pushed address)
  above : ∀ k, place < k → k ≤ events.length → rise (events.take place) < rise (events.take k)

variable {events : List Event} {event : Event} {place : Nat}

theorem rise_concat (events : List Event) (event : Event) :
    rise (events ++ [event]) = rise events + event.change := by
  induction events with
  | nil => exact Int.add_comm _ _
  | cons first rest ih => rw [List.cons_append, rise, rise, ih, Int.add_assoc]

theorem Unmatched.lt (h : Unmatched events place address) : place < events.length :=
  (List.getElem?_eq_some_iff.mp h.pushed).1

/-- A push stays unmatched as long as the stack stays higher than before it. -/
theorem Unmatched.concat (h : Unmatched events place address)
    (habove : rise (events.take place) < rise (events ++ [event])) :
    Unmatched (events ++ [event]) place address := by
  have hlt := h.lt
  refine ⟨?_, fun k hk hle => ?_⟩
  · rw [List.getElem?_append_left hlt, h.pushed]
  · rw [List.take_append_of_le_length (Nat.le_of_lt hlt)]
    by_cases hold : k ≤ events.length
    · rw [List.take_append_of_le_length hold]
      exact h.above k hk hold
    · have hall : (events ++ [event]).length ≤ k := by
        rw [List.length_append, List.length_singleton]
        omega
      rwa [List.take_of_length_le hall]

/-- A push that has just been made is unmatched. -/
theorem unmatched_concat (events : List Event) (address : UInt16) :
    Unmatched (events ++ [.pushed address]) events.length address := by
  refine ⟨List.getElem?_concat_length, fun k hk hle => ?_⟩
  have hall : (events ++ [Event.pushed address]).length ≤ k := by
    rw [List.length_append, List.length_singleton]
    omega
  rw [List.take_left, List.take_of_length_le hall, rise_concat]
  exact Int.lt_add_one_of_le (Int.le_refl _)

/-- An unmatched push since which only its own address is left over is the newest one. -/
theorem Unmatched.newest {later : Nat} {other : UInt16} (h : Unmatched events place address)
    (hlater : Unmatched events later other)
    (htop : rise events ≤ rise (events.take place) + 1) : later ≤ place := by
  refine Nat.not_lt.mp fun hlt => ?_
  have hbetween := h.above later hlt (Nat.le_of_lt hlater.lt)
  have hend := hlater.above events.length hlater.lt (Nat.le_refl _)
  rw [List.take_length] at hend
  omega

/-- A list is made of the unmatched pushes of a record: the entry at a depth is the masked address
of an unmatched push before which the list was as long as that. -/
structure Gathers (events : List Event) (addresses : List UInt16) : Prop where
  length : rise events = addresses.length
  origin : ∀ (p : Nat) (entry : UInt16), addresses[p]? = some entry →
    ∃ place address, Unmatched events place address ∧ rise (events.take place) = p ∧
      entry = address % 4096

theorem gathers_nil : Gathers [] [] := ⟨rfl, nofun⟩

/-- An entry keeps its unmatched push as long as the record rises above it. -/
theorem Gathers.origin_concat (h : Gathers events addresses) {p : Nat} {entry : UInt16}
    (hentry : addresses[p]? = some entry) (habove : p < rise (events ++ [event])) :
    ∃ place address, Unmatched (events ++ [event]) place address ∧
      rise ((events ++ [event]).take place) = p ∧ entry = address % 4096 := by
  obtain ⟨place, address, hplace, hp, hmask⟩ := h.origin p entry hentry
  refine ⟨place, address, hplace.concat (hp ▸ habove), ?_, hmask⟩
  rw [List.take_append_of_le_length (Nat.le_of_lt hplace.lt), hp]

/-- A push adds its own entry. -/
theorem Gathers.pushed (h : Gathers events addresses) (address : UInt16) :
    Gathers (events ++ [.pushed address]) (addresses ++ [address % 4096]) := by
  have hrise : rise (events ++ [.pushed address]) = (addresses.length : Int) + 1 := by
    rw [rise_concat, h.length, Event.change]
  refine ⟨?_, fun p entry hentry => ?_⟩
  · rw [hrise, List.length_append, List.length_singleton, Int.natCast_add, Int.natCast_one]
  · by_cases hold : p < addresses.length
    · rw [List.getElem?_append_left hold] at hentry
      refine h.origin_concat hentry ?_
      rw [hrise]
      omega
    · have hlt := (List.getElem?_eq_some_iff.mp hentry).1
      rw [List.length_append, List.length_singleton] at hlt
      obtain rfl : p = addresses.length := by omega
      rw [List.getElem?_concat_length, Option.some.injEq] at hentry
      refine ⟨events.length, address, unmatched_concat events address, ?_, hentry.symm⟩
      rw [List.take_left, h.length]

/-- What brings a record down to the first entries of its list leaves those as they are. -/
theorem Gathers.concat {first : List UInt16} (h : Gathers events addresses)
    (hfirst : first <+: addresses) (hrise : rise (events ++ [event]) = first.length) :
    Gathers (events ++ [event]) first := by
  obtain ⟨gone, rfl⟩ := hfirst
  refine ⟨hrise, fun p entry hentry => ?_⟩
  have hlt : p < first.length := (List.getElem?_eq_some_iff.mp hentry).1
  have hwhole : (first ++ gone)[p]? = some entry := by
    rw [List.getElem?_append_left hlt, hentry]
  refine h.origin_concat hwhole ?_
  rw [hrise]
  exact Int.ofNat_lt.mpr hlt

/-- What an event does to a plain list of addresses. -/
def Event.apply (addresses : List UInt16) : Event → List UInt16
  | .pushed address => addresses ++ [address % 4096]
  | .popped _ => addresses.dropLast
  | .refused _ => addresses

/-- The list that is left of an empty one after several events. -/
def held (events : List Event) : List UInt16 := events.foldl Event.apply []

theorem held_concat (events : List Event) (event : Event) :
    held (events ++ [event]) = event.apply (held events) := by
  rw [held, List.foldl_append]
  rfl

/-- What happens to a stack happens to the list that it stands for, and to the record of where its
entries come from. -/
theorem Happens.step (h : s.Happens event t) (hs : s.Represents addresses)
    (hevents : Gathers events addresses) :
    t.Represents (event.apply addresses) ∧
      Gathers (events ++ [event]) (event.apply addresses) := by
  cases h with
  | pushed h => exact ⟨hs.push h, hevents.pushed _⟩
  | popped h =>
    obtain ⟨rest, rfl, ht⟩ := hs.pop h
    rw [Event.apply, List.dropLast_concat]
    refine ⟨ht, hevents.concat (List.prefix_append rest _) ?_⟩
    rw [rise_concat, hevents.length, List.length_append, List.length_singleton, Event.change]
    omega
  | refused fault =>
    refine ⟨hs, hevents.concat (List.prefix_refl addresses) ?_⟩
    rw [rise_concat, hevents.length, Event.change, Int.add_zero, Event.apply]

/-- After operations in any order, a stack stands for the list that its record leaves, and that list
is made of the unmatched pushes. -/
theorem represents_after (operations : List Operation) :
    (empty.after operations).Represents (held (empty.events operations)) ∧
      Gathers (empty.events operations) (held (empty.events operations)) := by
  induction operations using List.reverseRecOn with
  | nil => exact ⟨represents_empty, gathers_nil⟩
  | append_singleton operations operation ih =>
    obtain ⟨hs, hevents⟩ := ih
    simp only [after_append, events_append, after, events, held_concat]
    exact ((empty.after operations).happens_operate operation).step hs hevents

/-- After operations in any order, of which those that fail change nothing, a stack works as the
list of at most sixteen addresses that its record leaves. Every address that was taken back is the
masked address of the newest push that was unmatched then. -/
theorem works_as_list (operations : List Operation) :
    (empty.after operations).WorksAs (held (empty.events operations)) ∧
    ∀ place popped, (empty.events operations)[place]? = some (.popped popped) →
      ∃ origin address, Unmatched ((empty.events operations).take place) origin address ∧
        (∀ later other, Unmatched ((empty.events operations).take place) later other →
          later ≤ origin) ∧
        popped = address % 4096 := by
  constructor
  · exact (represents_after operations).1.worksAs
  · intro place popped hevent
    obtain ⟨operation, hoperate, htake⟩ := exists_operation_of_event hevent
    obtain ⟨hs, hevents⟩ := represents_after (operations.take place)
    have hhappens := (empty.after (operations.take place)).happens_operate operation
    rw [hoperate] at hhappens
    rw [htake]
    generalize held (empty.events (operations.take place)) = addresses at hs hevents
    cases hhappens with
    | popped h =>
      obtain ⟨rest, rfl, -⟩ := hs.pop h
      obtain ⟨origin, address, horigin, hrise, hmask⟩ :=
        hevents.origin rest.length popped List.getElem?_concat_length
      have htop : rise (empty.events (operations.take place)) ≤
          rise ((empty.events (operations.take place)).take origin) + 1 := by
        rw [hrise, hevents.length, List.length_append, List.length_singleton, Int.natCast_add]
        exact Int.le_refl _
      exact ⟨origin, address, horigin, fun later other hlater => horigin.newest hlater htop,
        hmask⟩

/-- Addresses come back masked and in reverse order, around operations that fail. -/
example : empty.events [.pop, .push 0xF234, .push 0x300, .pop, .push 0x400, .pop, .pop, .pop] =
    [.refused .stackUnderflow, .pushed 0xF234, .pushed 0x300, .popped 0x300, .pushed 0x400,
      .popped 0x400, .popped 0x234, .refused .stackUnderflow] := by
  decide

end Chip8.CallStack
