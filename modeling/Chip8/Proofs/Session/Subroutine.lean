import Chip8.Proofs.Session.Create
import Chip8.Proofs.Session.Trail
import Chip8.Proofs.Session.WellFormed

/-!
# Calls and returns

The addresses of the subroutines that are active stay where they are on the stack until their
subroutine returns. So whatever a subroutine does, calls to further subroutines included, its return
goes on behind its call and leaves the stack as the call found it.
-/

namespace Chip8

/-- A slot that is in use before and after a cycle keeps its address. -/
theorem Machine.slot_of_cycle {m n : Machine} {op : Op} (h : m.cycle = .ok (op, n))
    {k : Fin stackFrames} (hbefore : k.val < m.stack.depth) (hafter : k.val < n.stack.depth) :
    n.stack.slot k = m.stack.slot k := by
  obtain ⟨word, next, -, -, hn, rfl⟩ := cycle_eq_ok_iff.mp h
  have hframe := (frame_of_perform hn).stack
  cases op with
  | call =>
    obtain ⟨stack, hpush, rfl⟩ := call_eq_ok_iff.mp hn
    exact CallStack.slot_of_push hpush hbefore
  | ret =>
    obtain ⟨address, stack, hpop, rfl⟩ := ret_eq_ok_iff.mp hn
    exact CallStack.slot_of_pop hpop hafter
  | _ => exact congrArg (CallStack.slot · k) (hframe nofun nofun)

namespace Session

variable {s : Session} {history : List Request} {k : Fin stackFrames}

/-- A slot that is in use before and after an event keeps its address if the event is no load. -/
theorem slot_next {event : Event} (hevent : event.restarts = false)
    (hbefore : k.val < s.machine.stack.depth)
    (hafter : k.val < (s.next event).machine.stack.depth) :
    (s.next event).machine.stack.slot k = s.machine.stack.slot k := by
  cases event with
  | step =>
    change k.val < s.step.2.machine.stack.depth at hafter
    change s.step.2.machine.stack.slot k = _
    rcases s.machine_step_cases with he | ⟨key, ha, hk, he⟩ | ⟨op, -, -, hc⟩
    · rw [he]
    · rw [he, Machine.resume_of_latched ha hk]
      rfl
    · exact Machine.slot_of_cycle hc hbefore hafter
  | tick => rfl
  | key number isDown =>
    change (s.setKey number isDown).2.machine.stack.slot k = _
    rcases s.setKey_cases number isDown with ⟨-, he⟩ | ⟨key, -, he⟩
    · rw [he]
    · rw [he]
      rfl
  | load rom => cases hevent

/-- A history that does not start over and along which more subroutines than a number are active. -/
def StaysAbove (s : Session) (depth : Nat) (history : List Request) : Prop :=
  ∀ e ∈ s.trail history, e.2.restarts = false ∧ depth < e.1.machine.stack.depth

instance (s : Session) (depth : Nat) (history : List Request) :
    Decidable (s.StaysAbove depth history) :=
  inferInstanceAs (Decidable (∀ e ∈ s.trail history, _))

/-- Along a history that stays above a depth, the slots up to that depth keep their addresses. -/
theorem StaysAbove.slot_eq {depth : Nat} (hs : s.StaysAbove depth history) (hk : k.val ≤ depth) :
    (∀ e ∈ s.trail history, e.1.machine.stack.slot k = s.machine.stack.slot k) ∧
      (depth < (s.after history).machine.stack.depth →
        (s.after history).machine.stack.slot k = s.machine.stack.slot k) := by
  -- The last event may be the return that leaves the slot, so the invariant asks for the depth.
  let P : Session → Prop := fun u =>
    depth < u.machine.stack.depth → u.machine.stack.slot k = s.machine.stack.slot k
  have hevent : ∀ u event, (u, event) ∈ s.trail history → P u → P (u.next event) := by
    intro u event hmem hu hafter
    obtain ⟨hstart, hbefore⟩ := hs (u, event) hmem
    rw [slot_next hstart (Nat.lt_of_le_of_lt hk hbefore) (Nat.lt_of_le_of_lt hk hafter)]
    exact hu hbefore
  obtain ⟨htrail, hlast⟩ := holds_along_trail (fun _ _ hu => hu) (fun _ => rfl) hevent
  refine ⟨?_, hlast⟩
  intro e he
  exact htrail e.1 e.2 he (hs e he).2

/-- A step that calls pushes the address behind the call. -/
theorem Executes.push_of_call {i : Instruction} (h : s.Executes i) (hop : i.op = .call) :
    s.machine.stack.push (s.machine.pc + 2) = .ok s.step.2.machine.stack := by
  obtain ⟨next, journal, hn, he⟩ := h.step_eq
  obtain ⟨op, word⟩ := i
  obtain rfl : op = .call := hop
  obtain ⟨stack, hpush, rfl⟩ := Machine.call_eq_ok_iff.mp hn
  rw [he]
  exact hpush

/-- A step that returns pops the address that it goes on at. -/
theorem Executes.pop_of_ret {i : Instruction} (h : s.Executes i) (hop : i.op = .ret) :
    s.machine.stack.pop = .ok (s.step.2.machine.pc, s.step.2.machine.stack) := by
  obtain ⟨next, journal, hn, he⟩ := h.step_eq
  obtain ⟨op, word⟩ := i
  obtain rfl : op = .ret := hop
  obtain ⟨address, stack, hpop, rfl⟩ := Machine.ret_eq_ok_iff.mp hn
  rw [he]
  exact hpop

/-- What a subroutine leaves behind. Until it returns, the return addresses up to its own stay where
they are, whatever it calls in between. Its return goes on behind its call and restores the whole
stack as the call found it. -/
theorem return_undoes_call (hs : s.Reachable) {call : Instruction} (hcall : s.Executes call)
    (hop : call.op = .call) {inner : List Request}
    (hinner : s.step.2.StaysAbove s.machine.stack.depth inner) :
    s.step.2.machine.stack.depth = s.machine.stack.depth + 1 ∧
      (∀ k : Fin stackFrames, k.val ≤ s.machine.stack.depth →
        (∀ e ∈ s.step.2.trail inner,
          e.1.machine.stack.slot k = s.step.2.machine.stack.slot k) ∧
        (s.machine.stack.depth < (s.step.2.after inner).machine.stack.depth →
          (s.step.2.after inner).machine.stack.slot k = s.step.2.machine.stack.slot k)) ∧
      ∀ ret : Instruction, (s.step.2.after inner).Executes ret → ret.op = .ret →
        (s.step.2.after inner).machine.stack.depth = s.machine.stack.depth + 1 →
        (s.step.2.after inner).step.2.machine.pc.toNat = (s.machine.pc.toNat + 2) % 4096 ∧
          (s.step.2.after inner).step.2.machine.stack = s.machine.stack := by
  have hpush := hcall.push_of_call hop
  have hdepth : s.step.2.machine.stack.depth = s.machine.stack.depth + 1 :=
    (CallStack.push_eq_ok_iff.mp hpush).2.1
  refine ⟨hdepth, fun k hk => hinner.slot_eq hk, ?_⟩
  intro ret hret hretop hlevel
  have hpop := hret.pop_of_ret hretop
  have hreturned : (s.step.2.after inner).Reachable := by
    have hafter := hs.after (.step :: inner)
    exact hafter
  have hagree : ∀ k : Fin stackFrames, k.val < s.step.2.machine.stack.depth →
      (s.step.2.after inner).machine.stack.slot k = s.step.2.machine.stack.slot k := by
    intro k hk
    refine (hinner.slot_eq (by omega)).2 ?_
    omega
  obtain ⟨hpc, hstack⟩ := CallStack.pop_undoes_push hs.sound.stack hreturned.sound.stack hpush
    (hlevel.trans hdepth.symm) hagree hpop
  refine ⟨?_, hstack⟩
  obtain ⟨-, ⟨hword, -⟩, -⟩ := hcall
  have hmod : ((s.machine.pc + 2) % 4096).toNat = (s.machine.pc + 2).toNat % 4096 :=
    UInt16.toNat_mod _ 4096
  rw [hpc, hmod, (Machine.toNat_pc_add_two hword).1]

/-- A program that calls a subroutine which calls another one goes on behind its call. -/
theorem return_after_nested_call :
    ∃ s, s = (create (some [0x22, 0x06, 0, 0, 0, 0, 0x22, 0x0A, 0x00, 0xEE, 0x00, 0xEE]) .cosmac
        ⟨0, 0⟩ (.start "chip8" .warning)).2 ∧
      s.Executes ⟨.call, 0x2206⟩ ∧ s.step.2.StaysAbove 0 [.tick, .step, .tick, .step] ∧
      (s.step.2.after [.tick, .step, .tick, .step]).Executes ⟨.ret, 0x00EE⟩ ∧
      (s.step.2.after [.tick, .step, .tick, .step]).step.2.machine.pc.toNat = 0x202 ∧
      (s.step.2.after [.tick, .step, .tick, .step]).step.2.machine.stack = .empty := by
  obtain ⟨s, hs⟩ : ∃ s, s = (create (some [0x22, 0x06, 0, 0, 0, 0, 0x22, 0x0A, 0x00, 0xEE, 0x00,
    0xEE]) .cosmac ⟨0, 0⟩ (.start "chip8" .warning)).2 := ⟨_, rfl⟩
  have hreachable : s.Reachable := ⟨_, _, _, _, [], hs⟩
  obtain ⟨hpc, hstack⟩ : s.machine.pc = 0x200 ∧ s.machine.stack = .empty := by
    rw [hs, machine_create (by decide)]
    exact ⟨rfl, rfl⟩
  have hdepth : s.machine.stack.depth = 0 := congrArg CallStack.depth hstack
  obtain ⟨hcall, habove, hret, hlevel⟩ : s.Executes ⟨.call, 0x2206⟩ ∧
      s.step.2.StaysAbove 0 [.tick, .step, .tick, .step] ∧
      (s.step.2.after [.tick, .step, .tick, .step]).Executes ⟨.ret, 0x00EE⟩ ∧
      (s.step.2.after [.tick, .step, .tick, .step]).machine.stack.depth = 1 := by
    rw [hs]
    decide +kernel
  obtain ⟨-, -, hreturn⟩ := return_undoes_call hreachable hcall rfl (hdepth.symm ▸ habove)
  obtain ⟨hreturned, hrestored⟩ := hreturn _ hret rfl (hlevel.trans (congrArg (· + 1) hdepth.symm))
  refine ⟨s, hs, hcall, habove, hret, ?_, hrestored.trans hstack⟩
  rw [hreturned, hpc]
  rfl

end Session

end Chip8
