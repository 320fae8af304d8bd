import FlashController.Proofs.Simulator.Access

/-! Calls to the simulated controller from outside, in any order and with any arguments. A state
is reachable if some calls lead to it from a device that was reset; the driver is one of many
callers, so every procedure leads from reachable states to reachable ones. -/
namespace FlashController.Simulator
variable {device : Device}

inductive Call
  | access (a : Access)
  | control (c : Control)
  /-- Drops the account of what happened. -/
  | settle

namespace Call

def act : Call → MachineM (Simulator device) Reply
  | .access a => a.run
  | .control c => Simulator.control c
  | .settle => do
    modify Machine.settle
    return .done

/-- The state that a call leaves, also when it halts. -/
def after (c : Call) (s : Simulator device) : Simulator device := leaves c.act s

theorem after_access (a : Access) (s : Simulator device) :
    (Call.access a).after s = leaves (Machine.perform a) s := leaves_run a s

end Call

def afterAll (calls : List Call) (s : Simulator device) : Simulator device :=
  calls.foldl (fun s c => c.after s) s

inductive Reachable : Simulator device → Prop
  | start (v : Contents .optcr) : Reachable (withOptionBytes device v)
  | call (c : Call) {s : Simulator device} : Reachable s → Reachable (c.after s)

/-- Whatever the driver does is a sequence of accesses. -/
theorem run_calls (p : Procedure α) (s : Simulator device) :
    ∃ accesses : List Access, leaves p.run s = afterAll (accesses.map .access) s := by
  refine p.run_keeps (P := fun t => ∃ accesses : List Access, t = afterAll (accesses.map .access) s)
    (fun a t ht => ?_) s ⟨[], rfl⟩
  obtain ⟨accesses, rfl⟩ := ht
  refine ⟨accesses ++ [a], ?_⟩
  rw [← Call.after_access, List.map_append, afterAll, afterAll, List.foldl_append]
  rfl

theorem Reachable.calls {s : Simulator device} (h : Reachable s) (calls : List Call) :
    Reachable (afterAll calls s) := by
  induction calls generalizing s with
  | nil => exact h
  | cons c rest ih => exact ih (h.call c)

theorem Reachable.procedure {s : Simulator device} (h : Reachable s) (p : Procedure α) :
    Reachable (leaves p.run s) := by
  obtain ⟨accesses, run⟩ := run_calls p s
  exact run ▸ h.calls _

/-- What holds after every reset and is kept by every call holds in every reachable state. -/
theorem Reachable.invariant {P : Simulator device → Prop}
    (starts : ∀ v, P (withOptionBytes device v))
    (performs : ∀ a s, P s → P (leaves (Machine.perform a) s))
    (controls : ∀ c s, P s → P (leaves (control c) s)) (settles : ∀ s, P s → P (Machine.settle s))
    {s : Simulator device} (h : Reachable s) : P s := by
  induction h with
  | start v => exact starts v
  | call c _ ih =>
    cases c with
    | access a => exact Call.after_access a _ ▸ performs a _ ih
    | control c => exact controls c _ ih
    | settle => exact settles _ ih

theorem start_clear_atReset : (Register.atReset .cr).has .strt = false := by decide

theorem busy_clear_atReset : (Register.atReset .sr).has .bsy = false := by decide

theorem busy_clear_or {v u : Contents .sr} (clear : v.has .bsy = false) :
    (⟨v.raw ||| u.raw &&& stickyMask⟩ : Contents .sr).has .bsy = false := by
  have unsticky : stickyMask.getLsbD Flag.bsy.bit = false := by decide
  have clear : v.raw.getLsbD Flag.bsy.bit = false := clear
  simp only [Contents.has, BitVec.getLsbD_or, BitVec.getLsbD_and, unsticky, clear, Bool.and_false,
    Bool.or_false]

theorem busy_clear_and {v : Contents .sr} (mask : BitVec 32) (clear : v.has .bsy = false) :
    (⟨v.raw &&& mask⟩ : Contents .sr).has .bsy = false := by
  have clear : v.raw.getLsbD Flag.bsy.bit = false := clear
  simp only [Contents.has, BitVec.getLsbD_and, clear, Bool.false_and]

/-- What holds between any two calls. -/
structure Sound (s : Simulator device) : Prop where
  memory_size : s.memory.size = memorySize
  /-- The start bit is cleared as soon as it was seen. -/
  start_clear : s.cr.has .strt = false
  /-- The busy flag is never among the sticky ones. -/
  busy_clear : s.flags.has .bsy = false

theorem turnKey_has {d : Domain} {f : Flag d.register} (other : d.lockFlag.bit ≠ f.bit)
    (k : BitVec 32) (v : Contents d.register) (stage : KeyStage) :
    (turnKey d k v stage).1.has f = v.has f := by
  have kept : ∀ on, (v.set d.lockFlag on).has f = v.has f := by
    intro on
    rw [Contents.has_set, if_neg other]
  unfold turnKey
  split
  · cases stage with
    | idle => rfl
    | first =>
      show (if k = d.secondKey then v.set d.lockFlag false else v).has f = v.has f
      split
      · exact kept false
      · rfl
  · exact kept true

theorem Sound.perform {s : Simulator device} (h : Sound s) (a : Access) :
    Sound (leaves (Machine.perform a) s) := by
  cases a with
  | read r =>
    obtain ⟨busy, events, frame, _⟩ := read_frame r s
    exact frame ▸ ⟨h.memory_size, h.start_clear, h.busy_clear⟩
  | write r v =>
    cases r with
    | sr => exact ⟨h.memory_size, h.start_clear, busy_clear_and _ h.busy_clear⟩
    | acr => exact ⟨h.memory_size, h.start_clear, h.busy_clear⟩
    | cr =>
      obtain ⟨t, lost, events, rfl⟩ |
        ⟨memory, flags, busy, violations, events, written, follows, _⟩ := writeControl_frame v s
      · exact leaves_error lost ▸ ⟨h.memory_size, h.start_clear, h.busy_clear⟩
      · refine leaves_ok written ▸
          ⟨follows.size.trans h.memory_size, ?_, follows.busy.trans h.busy_clear⟩
        show (if s.isLocked .main then s.cr else v.set .strt false).has .strt = false
        split
        · exact h.start_clear
        · exact v.has_set .strt .strt false
    | optcr =>
      obtain ⟨t, lost, events, rfl⟩ | ⟨committed, busy, violations, events, written, _⟩ :=
        writeOptions_frame v s
      · exact leaves_error lost ▸ ⟨h.memory_size, h.start_clear, h.busy_clear⟩
      · exact leaves_ok written ▸ ⟨h.memory_size, h.start_clear, h.busy_clear⟩
  | key d k =>
    cases d with
    | main =>
      refine ⟨h.memory_size, ?_, h.busy_clear⟩
      exact (turnKey_has (d := .main) (f := .strt) (by decide) k s.cr s.mainStage).trans
        h.start_clear
    | optionBytes => exact ⟨h.memory_size, h.start_clear, h.busy_clear⟩
  | barrier => exact ⟨h.memory_size, h.start_clear, h.busy_clear⟩
  | store a w =>
    obtain ⟨memory, flags, busy, violations, events, frame, follows, _⟩ := storeWord_frame a w s
    show Sound (leaves (storeWord a w) s)
    rw [frame]
    exact ⟨follows.size.trans h.memory_size, h.start_clear, follows.busy.trans h.busy_clear⟩

theorem Sound.procedure {s : Simulator device} (h : Sound s) (p : Procedure α) :
    Sound (leaves p.run s) :=
  p.run_keeps (P := Sound) (fun a _ h => h.perform a) s h

theorem Sound.control {s : Simulator device} (h : Sound s) (c : Control) :
    Sound (leaves (control c) s) := by
  obtain rfl | ⟨memory, flags, busy, latency, frame, size, _, raised⟩ := control_frame c s
  · exact ⟨h.memory_size, start_clear_atReset, busy_clear_atReset⟩
  · rw [frame]
    refine ⟨size.trans h.memory_size, h.start_clear, ?_⟩
    obtain rfl | ⟨v, rfl⟩ := raised
    · exact h.busy_clear
    · exact busy_clear_or h.busy_clear

theorem Reachable.sound {s : Simulator device} (h : Reachable s) : Sound s := by
  refine h.invariant (fun v => ?_) (fun a _ sound => sound.perform a)
    (fun c _ sound => sound.control c) fun _ sound => ?_
  · exact ⟨Memory.size_filled _ _, start_clear_atReset, busy_clear_atReset⟩
  · exact ⟨sound.memory_size, sound.start_clear, sound.busy_clear⟩

end FlashController.Simulator
