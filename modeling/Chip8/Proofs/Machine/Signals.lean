import Chip8.Machine.Signals

/-!
# What a signal does to a key wait

A key is latched exactly when it goes down while the machine is blocked. Nothing else about a
wait depends on the keypad, and only the completion of a wait ends it. Apart from latched keys,
ticks and key events reach the timers and the keypad alone.
-/

namespace Chip8.Machine

variable {m n r : Machine}

/-- The key wait after a key event: only a key that goes down while the machine is blocked is
latched. -/
theorem wait_setKey (m : Machine) (k : Fin keyCount) (isDown : Bool) :
    (m.setKey k isDown).wait =
      if isDown && !m.keypad.isDown k && m.wait.blocked then { m.wait with latched := some k }
      else m.wait := by
  unfold setKey
  cases hb : m.wait.blocked with
  | true => simp only [KeyWait.offer_of_blocked hb, Bool.and_true]
  | false => simp [KeyWait.offer_of_not_blocked hb]

@[simp] theorem active_setKey (m : Machine) (k : Fin keyCount) (isDown : Bool) :
    (m.setKey k isDown).wait.active = m.wait.active := by
  rw [wait_setKey]
  split <;> rfl

/-- A completed wait has stored its key, gone past its instruction and ended. -/
theorem resume_of_latched {key : Fin keyCount} (ha : m.wait.active = true)
    (hk : m.wait.latched = some key) :
    m.resume = { m.setRegister m.wait.register (UInt8.ofNat key) with
      pc := m.pc + 2
      wait := ⟨false, m.wait.register, none⟩ } := by
  simp only [resume, ha, hk, ite_true]

/-- The completion of a key wait reaches registers, the program counter and the wait alone. -/
theorem resume_eq (m : Machine) :
    ∃ registers pc wait, m.resume = { m with registers, pc, wait } := by
  unfold resume
  split
  · split
    · exact ⟨_, _, _, rfl⟩
    · exact ⟨_, _, _, rfl⟩
  · exact ⟨_, _, _, rfl⟩

/-- The second machine differs from the first at most in its keypad and its timers. -/
def OnlySignals (m n : Machine) : Prop :=
  ∃ keypad delay sound, n = { m with keypad, delay, sound }

theorem OnlySignals.refl (m : Machine) : m.OnlySignals m := ⟨m.keypad, m.delay, m.sound, rfl⟩

theorem OnlySignals.trans (hmn : m.OnlySignals n) (hnr : n.OnlySignals r) : m.OnlySignals r := by
  obtain ⟨_, _, _, rfl⟩ := hmn
  obtain ⟨keypad, delay, sound, rfl⟩ := hnr
  exact ⟨keypad, delay, sound, rfl⟩

theorem onlySignals_tick (m : Machine) : m.OnlySignals m.tick :=
  ⟨m.keypad, countDown m.delay, countDown m.sound, rfl⟩

/-- A key event reaches the keypad alone, unless a key goes down that the machine waits for. -/
theorem onlySignals_setKey {k : Fin keyCount} {isDown : Bool}
    (h : isDown = true → m.keypad.isDown k = false → m.wait.blocked = false) :
    m.OnlySignals (m.setKey k isDown) := by
  have hwait : (m.setKey k isDown).wait = m.wait := by
    rw [wait_setKey, if_neg]
    simp only [Bool.and_eq_true, Bool.not_eq_true', Bool.not_eq_true, not_and, and_imp]
    exact h
  refine ⟨m.keypad.set k isDown, m.delay, m.sound, ?_⟩
  rw [← hwait]
  rfl

/-- A key that goes down while the machine waits for one is latched. -/
theorem setKey_of_blocked {k : Fin keyCount} (hk : m.keypad.isDown k = false)
    (hb : m.wait.blocked = true) :
    m.setKey k true = { m with
      keypad := m.keypad.set k true
      wait := { m.wait with latched := some k } } := by
  simp only [setKey, hk, KeyWait.offer_of_blocked hb, Bool.not_false, Bool.and_true, ite_true]

/-- A key event that says again what the keypad knows has no effect. -/
theorem setKey_setKey (m : Machine) (k : Fin keyCount) (isDown : Bool) :
    (m.setKey k isDown).setKey k isDown = m.setKey k isDown := by
  have hset : (m.keypad.set k isDown).set k isDown = m.keypad.set k isDown := by
    simp only [Keypad.set, Vector.set_set]
  have hdown : (m.keypad.set k isDown).isDown k = isDown := by simp
  have hedge : (isDown && !isDown) = false := by cases isDown <;> rfl
  unfold setKey
  simp only [hset, hdown, hedge, Bool.false_eq_true, ite_false]

/-- Two different keys can be reported in either order, unless both go down and the machine waits
for one of them. -/
theorem setKey_comm {k k' : Fin keyCount} {isDown isDown' : Bool} (hne : k ≠ k')
    (h : ¬ (m.wait.blocked = true ∧ (isDown = true ∧ m.keypad.isDown k = false) ∧
      isDown' = true ∧ m.keypad.isDown k' = false)) :
    (m.setKey k isDown).setKey k' isDown' = (m.setKey k' isDown').setKey k isDown := by
  have hkeypad : (m.keypad.set k isDown).set k' isDown' =
      (m.keypad.set k' isDown').set k isDown := by
    simp only [Keypad.set]
    rw [Vector.set_comm _ _ fun he => hne (Fin.ext he)]
  have hk : (m.keypad.set k isDown).isDown k' = m.keypad.isDown k' := by
    rw [Keypad.isDown_set, if_neg hne]
  have hk' : (m.keypad.set k' isDown').isDown k = m.keypad.isDown k := by
    rw [Keypad.isDown_set, if_neg (Ne.symm hne)]
  cases hb : m.wait.blocked with
  | false => simp only [setKey, KeyWait.offer_of_not_blocked hb, ite_self, hkeypad]
  | true =>
    -- At most one of the two keys goes down.
    have hone : (isDown && !m.keypad.isDown k) = false ∨
        (isDown' && !m.keypad.isDown k') = false := by
      rw [hb] at h
      grind
    rcases hone with he | he
    · simp only [setKey, hkeypad, hk, hk', he, Bool.false_eq_true, ite_false]
    · simp only [setKey, hkeypad, hk, hk', he, Bool.false_eq_true, ite_false]

/-- Two keys that go down while the machine waits for one are told apart by their order. -/
theorem setKey_ne_of_blocked {k k' : Fin keyCount} (hne : k ≠ k') (hb : m.wait.blocked = true)
    (hk : m.keypad.isDown k = false) (hk' : m.keypad.isDown k' = false) :
    (m.setKey k true).setKey k' true ≠ (m.setKey k' true).setKey k true := by
  have hfirst (j j' : Fin keyCount) (hj : m.keypad.isDown j = false) :
      ((m.setKey j true).setKey j' true).wait.latched = some j := by
    have hlatched : (m.setKey j true).wait = { m.wait with latched := some j } := by
      rw [setKey_of_blocked hj hb]
    have hunblocked : (m.setKey j true).wait.blocked = false := by
      simp [hlatched, KeyWait.blocked]
    rw [wait_setKey, hunblocked, Bool.and_false, if_neg Bool.false_ne_true, hlatched]
  intro he
  have hsame := hfirst k' k hk'
  rw [← he, hfirst k k' hk] at hsame
  exact hne (Option.some.inj hsame)

end Chip8.Machine
