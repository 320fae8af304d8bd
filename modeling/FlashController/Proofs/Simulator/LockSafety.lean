import FlashController.Proofs.Simulator.Call

/-! Locks over whole runs of calls. A domain is unlocked only right after its two keys, in order
and with no other key, lock or reset between them; the memory and the committed option bytes
change only while their domain is unlocked. -/
namespace FlashController.Simulator
variable {device : Device}

namespace Call

/-- Calls that a key sequence of a domain cannot span: keys, writes of the lock bit, resets. -/
def turnsLock (d : Domain) : Call → Bool
  | .access (.key e _) => decide (e = d)
  | .access (.write .cr v) => decide (d = .main) && v.has .lock
  | .access (.write .optcr v) => decide (d = .optionBytes) && v.has .optlock
  | .control .reset => true
  | _ => false

/-- Calls that put bytes into the memory behind the controller. -/
def fills : Call → Bool
  | .control (.fill _ _ _) => true
  | _ => false

/-- The call is lost, since one more violation cannot be counted. -/
def overflows (c : Call) (s : Simulator device) : Bool :=
  match c.act s with
  | .error .additionOverflow _ => true
  | _ => false

theorem overflows_write {r : Register} {v : Contents r} {s t : Simulator device}
    (lost : Machine.perform (.write r v) s = .error .additionOverflow t) :
    (Call.access (.write r v)).overflows s = true := by
  have lost : (Call.access (.write r v)).act s = .error .additionOverflow t := bind_error lost
  simp only [overflows, lost]

end Call

/-- No call is lost to the overflow of the violation counter. -/
def counted : List Call → Simulator device → Bool
  | [], _ => true
  | c :: rest, s => !c.overflows s && counted rest (c.after s)

/-- The calls that turned the lock of a domain, as far as the state of its lock tells of them. -/
structure KeyHistory (d : Domain) (history : List Call) (s : Simulator device) : Prop where
  unlocked : s.isLocked d = false → ∃ earlier,
    history = earlier ++ [.access (.key d d.firstKey), .access (.key d d.secondKey)]
  begun : s.keyStage d = .first → ∃ earlier, history = earlier ++ [.access (.key d d.firstKey)]

theorem turnKey_unlocks {d : Domain} {k : BitVec 32} {v : Contents d.register} {stage : KeyStage}
    (unlocked : (turnKey d k v stage).1.has d.lockFlag = false) :
    stage = .first ∧ k = d.secondKey := by
  unfold turnKey at unlocked
  by_cases locked : v.has d.lockFlag = true
  · rw [if_pos locked] at unlocked
    cases stage with
    | idle => exact absurd (locked.symm.trans unlocked) nofun
    | first =>
      by_cases second : k = d.secondKey
      · exact ⟨rfl, second⟩
      · simp only [if_neg second] at unlocked
        exact absurd (locked.symm.trans unlocked) nofun
  · rw [if_neg locked] at unlocked
    exact absurd ((Contents.has_set v _ _ true).symm.trans unlocked) (by simp)

theorem turnKey_begins {d : Domain} {k : BitVec 32} {v : Contents d.register} {stage : KeyStage}
    (begun : (turnKey d k v stage).2 = .first) : k = d.firstKey := by
  unfold turnKey at begun
  by_cases locked : v.has d.lockFlag = true
  · rw [if_pos locked] at begun
    cases stage with
    | idle =>
      by_cases first : k = d.firstKey
      · exact first
      · simp only [if_neg first] at begun
        exact absurd begun nofun
    | first => exact absurd begun nofun
  · rw [if_neg locked] at begun
    exact absurd begun nofun

/-- The call leaves the lock and the key stage of a domain alone. -/
def SameLock (d : Domain) (s t : Simulator device) : Prop :=
  t.isLocked d = s.isLocked d ∧ t.keyStage d = s.keyStage d

theorem lock_atReset : (Register.atReset .cr).has .lock = true := by decide

theorem control_lock (d : Domain) (c : Control) (s : Simulator device) :
    ((Call.control c).turnsLock d = true ∧ (leaves (control c) s).isLocked d = true ∧
      (leaves (control c) s).keyStage d = .idle) ∨
    ((Call.control c).turnsLock d = false ∧ SameLock d s (leaves (control c) s)) := by
  cases turns : (Call.control c).turnsLock d with
  | true =>
    obtain rfl : c = .reset := by
      cases c with
      | reset => rfl
      | _ => cases turns
    cases d with
    | main => exact .inl ⟨rfl, lock_atReset, rfl⟩
    | optionBytes => exact .inl ⟨rfl, s.committed.has_set .optlock .optlock true, rfl⟩
  | false =>
    obtain rfl | ⟨memory, flags, busy, latency, frame, _⟩ := control_frame c s
    · cases turns
    · rw [frame]
      cases d <;> exact .inr ⟨rfl, rfl, rfl⟩

/-- Once set, a lock bit is not cleared by a write; the start bit is another one. -/
theorem has_lock_written {r : Register} (old new : Contents r) {guard start : Flag r}
    (other : start.bit ≠ guard.bit) :
    (if old.has guard then old else new.set start false).has guard =
      (old.has guard || new.has guard) := by
  cases locked : old.has guard with
  | true => exact locked
  | false =>
    show (new.set start false).has guard = new.has guard
    rw [Contents.has_set, if_neg other]

theorem write_lock (d : Domain) {r : Register} (v : Contents r) (s : Simulator device)
    (kept : (Call.access (.write r v)).overflows s = false) :
    ((Call.access (.write r v)).turnsLock d = true ∧
      (leaves (Machine.perform (.write r v)) s).isLocked d = true ∧
      (leaves (Machine.perform (.write r v)) s).keyStage d = .idle) ∨
    ((Call.access (.write r v)).turnsLock d = false ∧
      SameLock d s (leaves (Machine.perform (.write r v)) s)) := by
  cases r with
  | sr | acr => cases d <;> exact .inr ⟨rfl, rfl, rfl⟩
  | cr =>
    obtain ⟨t, lost, _⟩ | ⟨memory, flags, busy, violations, events, written, _⟩ :=
      writeControl_frame v s
    · exact absurd (kept.symm.trans (Call.overflows_write lost)) nofun
    · have written : Machine.perform (.write .cr v) s = _ := written
      have other : Flag.strt.bit ≠ Flag.lock.bit := by decide
      have lock := has_lock_written s.cr v other
      rw [leaves_ok written]
      cases d with
      | optionBytes => exact .inr ⟨rfl, rfl, rfl⟩
      | main =>
        cases locks : v.has .lock with
        | true =>
          rw [locks, Bool.or_true] at lock
          exact .inl ⟨locks, lock, rfl⟩
        | false =>
          rw [locks, Bool.or_false] at lock
          exact .inr ⟨locks, lock, rfl⟩
  | optcr =>
    obtain ⟨t, lost, _⟩ | ⟨committed, busy, violations, events, written, _⟩ :=
      writeOptions_frame v s
    · exact absurd (kept.symm.trans (Call.overflows_write lost)) nofun
    · have written : Machine.perform (.write .optcr v) s = _ := written
      have other : Flag.optstrt.bit ≠ Flag.optlock.bit := by decide
      have lock := has_lock_written s.optcr v other
      rw [leaves_ok written]
      cases d with
      | main => exact .inr ⟨rfl, rfl, rfl⟩
      | optionBytes =>
        cases locks : v.has .optlock with
        | true =>
          rw [locks, Bool.or_true] at lock
          exact .inl ⟨locks, lock, rfl⟩
        | false =>
          rw [locks, Bool.or_false] at lock
          exact .inr ⟨locks, lock, rfl⟩

/-- How one call treats the lock of a domain: it is a key, it locks, or it leaves the lock and the
key stage alone. -/
theorem lock_step (d : Domain) (c : Call) (s : Simulator device) (kept : c.overflows s = false) :
    (∃ k, c = .access (.key d k) ∧
      (c.after s).guarded d = (turnKey d k (s.guarded d) (s.keyStage d)).1 ∧
      (c.after s).keyStage d = (turnKey d k (s.guarded d) (s.keyStage d)).2) ∨
    (c.turnsLock d = true ∧ (c.after s).isLocked d = true ∧ (c.after s).keyStage d = .idle) ∨
    (c.turnsLock d = false ∧ SameLock d s (c.after s)) := by
  cases c with
  | settle => cases d <;> exact .inr (.inr ⟨rfl, rfl, rfl⟩)
  | control c => exact .inr (control_lock d c s)
  | access a =>
    rw [Call.after_access]
    cases a with
    | read r =>
      obtain ⟨busy, events, frame, _⟩ := read_frame r s
      rw [frame]
      cases d <;> exact .inr (.inr ⟨rfl, rfl, rfl⟩)
    | barrier => cases d <;> exact .inr (.inr ⟨rfl, rfl, rfl⟩)
    | store a w =>
      obtain ⟨memory, flags, busy, violations, events, frame, _⟩ := storeWord_frame a w s
      have frame : leaves (Machine.perform (.store a w)) s = _ := frame
      rw [frame]
      cases d <;> exact .inr (.inr ⟨rfl, rfl, rfl⟩)
    | key e k =>
      cases d <;> cases e
      · exact .inl ⟨k, rfl, rfl, rfl⟩
      · exact .inr (.inr ⟨rfl, rfl, rfl⟩)
      · exact .inr (.inr ⟨rfl, rfl, rfl⟩)
      · exact .inl ⟨k, rfl, rfl, rfl⟩
    | write r v => exact .inr (write_lock d v s kept)

theorem KeyHistory.step {d : Domain} {history : List Call} {s : Simulator device}
    (h : KeyHistory d history s) (c : Call) (kept : c.overflows s = false) :
    KeyHistory d (history ++ [c].filter (·.turnsLock d)) (c.after s) := by
  obtain ⟨k, rfl, register, stage⟩ | ⟨turns, locked, idle⟩ | ⟨spans, lock, stage⟩ :=
    lock_step d c s kept
  · have turns : (Call.access (.key d k)).turnsLock d = true := decide_eq_true rfl
    rw [List.filter_cons_of_pos turns]
    constructor
    · intro unlocked
      rw [isLocked, register] at unlocked
      obtain ⟨first, rfl⟩ := turnKey_unlocks unlocked
      obtain ⟨earlier, rfl⟩ := h.begun first
      exact ⟨earlier, List.append_assoc _ _ _⟩
    · intro begun
      obtain rfl := turnKey_begins (stage ▸ begun)
      exact ⟨history, rfl⟩
  · constructor
    · intro unlocked
      exact absurd (locked.symm.trans unlocked) nofun
    · intro begun
      exact absurd (idle.symm.trans begun) nofun
  · rw [List.filter_cons_of_neg (by simp [spans]), List.filter_nil, List.append_nil]
    exact ⟨fun unlocked => h.unlocked (lock.symm.trans unlocked),
      fun begun => h.begun (stage.symm.trans begun)⟩

theorem KeyHistory.run {d : Domain} {history calls : List Call} {s : Simulator device}
    (h : KeyHistory d history s) (kept : counted calls s = true) :
    KeyHistory d (history ++ calls.filter (·.turnsLock d)) (afterAll calls s) := by
  induction calls generalizing history s with
  | nil => rwa [List.filter_nil, List.append_nil]
  | cons c rest ih =>
    simp only [counted, Bool.and_eq_true, Bool.not_eq_true'] at kept
    have step := ih (h.step c kept.1) kept.2
    rwa [List.append_assoc, ← List.filter_append] at step

theorem keyHistory_start (d : Domain) (v : Contents .optcr) :
    KeyHistory d [] (withOptionBytes device v) := by
  have locked : (withOptionBytes device v).isLocked d = true := by
    cases d with
    | main => exact lock_atReset
    | optionBytes => exact v.optionBytes.has_set .optlock .optlock true
  constructor
  · intro unlocked
    exact absurd (locked.symm.trans unlocked) nofun
  · intro begun
    cases d <;> exact absurd begun nofun

/-- What a locked domain guards is the same in both states. -/
structure SameGuarded (s t : Simulator device) : Prop where
  memory : s.isLocked .main = true → t.memory = s.memory
  committed : s.isLocked .optionBytes = true → t.committed = s.committed

theorem SameGuarded.of_eq {s t : Simulator device} (memory : t.memory = s.memory)
    (committed : t.committed = s.committed) : SameGuarded s t :=
  ⟨fun _ => memory, fun _ => committed⟩

theorem perform_sameGuarded (a : Access) (s : Simulator device) :
    SameGuarded s (leaves (Machine.perform a) s) := by
  cases a with
  | read r =>
    obtain ⟨busy, events, frame, _⟩ := read_frame r s
    exact frame ▸ .of_eq rfl rfl
  | barrier => exact .of_eq rfl rfl
  | key d k => cases d <;> exact .of_eq rfl rfl
  | store a w =>
    obtain ⟨memory, flags, busy, violations, events, frame, _, same⟩ := storeWord_frame a w s
    have frame : leaves (Machine.perform (.store a w)) s = _ := frame
    rw [frame]
    exact ⟨same, fun _ => rfl⟩
  | write r v =>
    cases r with
    | sr | acr => exact .of_eq rfl rfl
    | cr =>
      obtain ⟨t, lost, _, rfl⟩ | ⟨memory, flags, busy, violations, events, written, _, same⟩ :=
        writeControl_frame v s
      · have lost : Machine.perform (.write .cr v) s = _ := lost
        rw [leaves_error lost]
        exact .of_eq rfl rfl
      · have written : Machine.perform (.write .cr v) s = _ := written
        rw [leaves_ok written]
        exact ⟨same, fun _ => rfl⟩
    | optcr =>
      obtain ⟨t, lost, _, rfl⟩ | ⟨committed, busy, violations, events, written, same⟩ :=
        writeOptions_frame v s
      · have lost : Machine.perform (.write .optcr v) s = _ := lost
        rw [leaves_error lost]
        exact .of_eq rfl rfl
      · have written : Machine.perform (.write .optcr v) s = _ := written
        rw [leaves_ok written]
        exact ⟨fun _ => rfl, same⟩

theorem Call.sameGuarded {c : Call} (honest : c.fills = false) (s : Simulator device) :
    SameGuarded s (c.after s) := by
  cases c with
  | settle => exact .of_eq rfl rfl
  | access a => exact Call.after_access a s ▸ perform_sameGuarded a s
  | control c =>
    show SameGuarded s (leaves (Simulator.control c) s)
    obtain rfl | ⟨memory, flags, busy, latency, frame, _, kept | ⟨_, _, _, rfl⟩, _⟩ :=
      control_frame c s
    · exact .of_eq rfl rfl
    · exact frame ▸ .of_eq kept rfl
    · exact absurd honest nofun

/-- Lock safety of every run of calls that starts at a reset. -/
theorem lock_safety {v : Contents .optcr} {calls : List Call}
    (kept : counted calls (withOptionBytes device v) = true) :
    (∀ d, (afterAll calls (withOptionBytes device v)).isLocked d = false →
      ∃ earlier, calls.filter (·.turnsLock d) =
        earlier ++ [.access (.key d d.firstKey), .access (.key d d.secondKey)]) ∧
    ∀ before c later, calls = before ++ c :: later → c.fills = false →
      let s := afterAll before (withOptionBytes device v)
      ((∃ i, (c.after s).memory.get? i ≠ s.memory.get? i) → s.isLocked .main = false) ∧
      ((c.after s).committed ≠ s.committed → s.isLocked .optionBytes = false) := by
  constructor
  · intro d unlocked
    exact ((keyHistory_start d v).run kept).unlocked unlocked
  · intro before c later _ honest
    have same := Call.sameGuarded honest (afterAll before (withOptionBytes device v))
    constructor
    · rintro ⟨i, changed⟩
      refine Bool.eq_false_iff.mpr fun locked => changed ?_
      rw [same.memory locked]
    · intro changed
      exact Bool.eq_false_iff.mpr fun locked => changed (same.committed locked)

theorem lock_safety_unlocked :
    let calls : List Call := [
      .access (.key .main (Domain.firstKey .main)),
      .access (.write .cr ⟨0x80000000⟩),
      .access (.key .main (Domain.firstKey .main)),
      .control (.setBusy 2),
      .access (.key .main (Domain.secondKey .main)),
      .access (.write .cr ⟨0x00000101⟩)]
    counted calls (new .generic) = true ∧ (afterAll calls (new .generic)).isLocked .main = false ∧
      ∃ earlier, calls.filter (·.turnsLock .main) = earlier ++
        [.access (.key .main (Domain.firstKey .main)),
          .access (.key .main (Domain.secondKey .main))] := by
  intro calls
  have kept : counted calls (withOptionBytes .generic (Register.atReset .optcr)) = true := by decide
  exact ⟨kept, by decide, (lock_safety kept).1 .main (by decide)⟩

end FlashController.Simulator
