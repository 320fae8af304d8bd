import FlashController.Proofs.Simulator.Protection
import FlashController.Proofs.Simulator.Locking

/-! The representation of the simulated controller. Its fields could hold much that no controller
does: a start bit that nobody cleared, a busy flag among the sticky ones, a key sequence begun in a
domain that is open. Nothing that can be done to a controller, completed or not, leads there. -/
namespace FlashController.Simulator
variable {device : Device}

/-- No bit is set but those of sticky flags. -/
def Sticky (v : Contents .sr) : Prop :=
  ∀ i, v.raw.getLsbD i = true → stickyMask.getLsbD i = true

/-- What holds of the fields between any two calls. -/
structure WellFormed (s : Simulator device) : Prop extends Quiet s where
  sticky : Sticky s.flags
  /-- The reset line of the accelerator is never kept. -/
  reset_clear : s.acr.has .artrst = false
  active : s.active.optionBytes = s.active
  /-- A key sequence is begun only while it has something to unlock. -/
  begun : ∀ d, s.keyStage d = .first → s.isLocked d = true

namespace Sticky
variable {v : Contents .sr}

theorem set (h : Sticky v) (f : Flag .sr) (other : f ≠ .bsy) (on : Bool) : Sticky (v.set f on) := by
  have member : stickyMask.getLsbD f.bit = true := by
    cases f with
    | bsy => exact absurd rfl other
    | _ => decide
  intro i raised
  rw [Contents.getLsbD_set] at raised
  split at raised
  · rename_i here
    rwa [← here]
  · exact h i raised

theorem and (h : Sticky v) (mask : BitVec 32) : Sticky ⟨v.raw &&& mask⟩ := by
  intro i raised
  simp only [BitVec.getLsbD_and, Bool.and_eq_true] at raised
  exact h i raised.1

theorem or (h : Sticky v) (u : Contents .sr) : Sticky ⟨v.raw ||| u.raw &&& stickyMask⟩ := by
  intro i raised
  simp only [BitVec.getLsbD_or, BitVec.getLsbD_and, Bool.or_eq_true, Bool.and_eq_true] at raised
  rcases raised with before | ⟨_, member⟩
  · exact h i before
  · exact member

end Sticky

theorem sticky_atReset : Sticky (Register.atReset .sr) := by
  intro i raised
  exact absurd (BitVec.getLsbD_zero.symm.trans raised) nofun

theorem reset_clear_atReset : (Register.atReset .acr).has .artrst = false := by decide

section Flags
variable {s : Simulator device}

theorem Sticky.verdict (h : Sticky s.flags) (v : Contents .cr) : Sticky (verdict v s) := by
  unfold Simulator.verdict
  split
  · exact h.set .erserr (by decide) true
  · split
    · exact h.set .wrperr (by decide) true
    · split
      · exact h
      · exact h.set .eop (by decide) true

theorem Sticky.accepted (h : Sticky s.flags) (v : Contents .cr) :
    Sticky (acceptControl v s).flags := by
  simp only [acceptControl]
  split
  · rw [triggerErase_eq, erased_eq]
    exact h.verdict v
  · exact h

theorem Sticky.burned (h : Sticky s.flags) (offset : Nat) (w : Word) :
    Sticky (burn offset w s).flags := by
  simp only [burn]
  split
  · exact (h.set .pgperr (by decide) true).set .eop (by decide) true
  · exact h.set .eop (by decide) true

theorem Sticky.writeControl (h : Sticky s.flags) (v : Contents .cr) :
    Sticky (leaves (writeRegister .cr v) s).flags := by
  obtain ⟨_, _, same⟩ | ⟨_, violations, events, accepted⟩ := writeControl_leaves v s
  · rw [same]
    exact h
  · rw [accepted]
    exact Sticky.accepted (s := { s with violations, events }) h v

theorem Sticky.storeWord (h : Sticky s.flags) (a : Address) (w : Word) :
    Sticky (leaves (storeWord a w) s).flags := by
  obtain ⟨t, ⟨_, rfl⟩, same | ⟨_, _, ⟨f, error, refused⟩ | ⟨_, burnt⟩⟩⟩ := storeWord_leaves a w s
  · rw [same]
    exact h
  · rw [refused]
    exact h.set f (storeError?_sticky error) true
  · rw [burnt]
    exact Sticky.burned (by exact h) _ w

end Flags

/-- The key that begins a sequence leaves the register as it is. -/
theorem turnKey_begun {d : Domain} {k : BitVec 32} {v : Contents d.register} {stage : KeyStage}
    (begun : (turnKey d k v stage).2 = .first) :
    (turnKey d k v stage).1.has d.lockFlag = true := by
  unfold turnKey at begun ⊢
  by_cases locked : v.has d.lockFlag = true
  · rw [if_pos locked] at begun ⊢
    cases stage with
    | idle => exact locked
    | first => contradiction
  · rw [if_neg locked] at begun
    contradiction

/-- A write that sets the lock bit ends a key sequence, and one that does not leaves a locked
register alone. -/
theorem begun_written {r : Register} {stage : KeyStage} {old new : Contents r} {guard : Flag r}
    (h : stage = .first → old.has guard = true)
    (begun : (if new.has guard then .idle else stage) = KeyStage.first) (other : Contents r) :
    (if old.has guard then old else other).has guard = true := by
  split at begun
  · contradiction
  · have locked := h begun
    rw [if_pos locked]
    exact locked

section Access
variable {s t : Simulator device}

/-- Only the quiet part and the flags have to be looked at when the locks are left alone. -/
theorem WellFormed.of_same (h : WellFormed s) (quiet : Quiet t) (sticky : Sticky t.flags)
    (acr : t.acr = s.acr) (active : t.active = s.active) (lock : ∀ d, SameLock d s t) :
    WellFormed t where
  toQuiet := quiet
  sticky := sticky
  reset_clear := acr ▸ h.reset_clear
  active := active ▸ h.active
  begun d begun := (lock d).1.trans (h.begun d ((lock d).2.symm.trans begun))

theorem sameLock_of_eq (cr : t.cr = s.cr) (optcr : t.optcr = s.optcr)
    (main : t.mainStage = s.mainStage) (option : t.optionStage = s.optionStage) (d : Domain) :
    SameLock d s t := by
  cases d with
  | main => exact ⟨congrArg (Contents.has · .lock) cr, main⟩
  | optionBytes => exact ⟨congrArg (Contents.has · .optlock) optcr, option⟩

theorem WellFormed.writeControl (h : WellFormed s) (v : Contents .cr) :
    WellFormed (leaves (writeRegister .cr v) s) := by
  have quiet : Quiet (leaves (writeRegister .cr v) s) := h.toQuiet.perform (.write .cr v)
  have sticky := h.sticky.writeControl v
  rcases writeControl_frame v s with
    ⟨t, lost, events, rfl⟩ | ⟨memory, flags, busy, violations, events, written, _⟩
  · rw [leaves_error lost] at quiet sticky ⊢
    exact h.of_same quiet sticky rfl rfl (sameLock_of_eq rfl rfl rfl rfl)
  · rw [leaves_ok written] at quiet sticky ⊢
    refine ⟨quiet, sticky, h.reset_clear, h.active, fun d begun => ?_⟩
    cases d with
    | main => exact begun_written (h.begun .main) begun (v.set .strt false)
    | optionBytes => exact h.begun .optionBytes begun

theorem WellFormed.writeOptions (h : WellFormed s) (v : Contents .optcr) :
    WellFormed (leaves (writeRegister .optcr v) s) := by
  have quiet : Quiet (leaves (writeRegister .optcr v) s) := h.toQuiet.perform (.write .optcr v)
  rcases writeOptions_frame v s with
    ⟨t, lost, events, rfl⟩ | ⟨committed, busy, violations, events, written, _⟩
  · rw [leaves_error lost] at quiet ⊢
    exact h.of_same quiet h.sticky rfl rfl (sameLock_of_eq rfl rfl rfl rfl)
  · rw [leaves_ok written] at quiet ⊢
    refine ⟨quiet, h.sticky, h.reset_clear, h.active, fun d begun => ?_⟩
    cases d with
    | main => exact h.begun .main begun
    | optionBytes => exact begun_written (h.begun .optionBytes) begun (v.set .optstrt false)

theorem WellFormed.key (h : WellFormed s) (d : Domain) (k : BitVec 32) :
    WellFormed (leaves (Machine.perform (.key d k)) s) := by
  have quiet := h.toQuiet.perform (.key d k)
  cases d with
  | main =>
    refine ⟨quiet, h.sticky, h.reset_clear, h.active, fun d begun => ?_⟩
    cases d with
    | main => exact turnKey_begun (d := .main) begun
    | optionBytes => exact h.begun .optionBytes begun
  | optionBytes =>
    refine ⟨quiet, h.sticky, h.reset_clear, h.active, fun d begun => ?_⟩
    cases d with
    | main => exact h.begun .main begun
    | optionBytes => exact turnKey_begun (d := .optionBytes) begun

theorem WellFormed.perform (h : WellFormed s) (a : Access) :
    WellFormed (leaves (Machine.perform a) s) := by
  have quiet := h.toQuiet.perform a
  cases a with
  | read r =>
    obtain ⟨busy, events, frame, _⟩ := read_frame r s
    rw [frame] at quiet ⊢
    exact h.of_same quiet h.sticky rfl rfl (sameLock_of_eq rfl rfl rfl rfl)
  | write r v =>
    cases r with
    | cr => exact h.writeControl v
    | optcr => exact h.writeOptions v
    | sr => exact h.of_same quiet (h.sticky.and _) rfl rfl (sameLock_of_eq rfl rfl rfl rfl)
    | acr =>
      refine ⟨quiet, h.sticky, v.has_set_self .artrst false, h.active, fun d begun => ?_⟩
      cases d with
      | main => exact h.begun .main begun
      | optionBytes => exact h.begun .optionBytes begun
  | key d k => exact h.key d k
  | barrier => exact h.of_same quiet h.sticky rfl rfl (sameLock_of_eq rfl rfl rfl rfl)
  | store a w =>
    have sticky := h.sticky.storeWord a w
    obtain ⟨memory, flags, busy, violations, events, frame, _⟩ := storeWord_frame a w s
    have frame' : leaves (Machine.perform (.store a w)) s = _ := frame
    rw [frame] at sticky
    rw [frame'] at quiet ⊢
    exact h.of_same quiet sticky rfl rfl (sameLock_of_eq rfl rfl rfl rfl)

theorem WellFormed.control (h : WellFormed s) (c : Control) :
    WellFormed (leaves (control c) s) := by
  have quiet := h.toQuiet.control c
  obtain rfl | ⟨memory, flags, busy, latency, frame, _, _, raised⟩ := control_frame c s
  · refine ⟨quiet, sticky_atReset, reset_clear_atReset, h.committed, fun d begun => ?_⟩
    cases d with
    | main => contradiction
    | optionBytes => contradiction
  · rw [frame] at quiet ⊢
    refine h.of_same quiet ?_ rfl rfl (sameLock_of_eq rfl rfl rfl rfl)
    obtain rfl | ⟨v, rfl⟩ := raised
    · exact h.sticky
    · exact h.sticky.or v

theorem WellFormed.start (v : Contents .optcr) : WellFormed (withOptionBytes device v) where
  toQuiet := (Reachable.start v).quiet
  sticky := sticky_atReset
  reset_clear := reset_clear_atReset
  active := v.optionBytes_optionBytes
  begun d begun := by cases d <;> contradiction

theorem WellFormed.act (h : WellFormed s) (x : Step Control) :
    WellFormed (leaves (x.act device) s) :=
  x.act_keeps (fun a _ h => h.perform a) (fun c _ h => h.control c) h

end Access

/-- The state after steps of any kind, each taken whether or not those before it halted. -/
def afterSteps (steps : List (Step Control)) (s : Simulator device) : Simulator device :=
  steps.foldl (fun s x => leaves (x.act device) s) s

/-- Operations, guards and accesses of any kind, with resets, fills and an operation of someone else
between them, leave a controller well formed. -/
theorem wellFormed_afterSteps (v : Contents .optcr) (steps : List (Step Control)) :
    WellFormed (afterSteps steps (withOptionBytes device v)) := by
  suffices ∀ s : Simulator device, WellFormed s → WellFormed (afterSteps steps s) from
    this _ (.start v)
  induction steps with
  | nil => exact fun _ h => h
  | cons x rest ih => exact fun s h => ih _ (h.act x)

end FlashController.Simulator
