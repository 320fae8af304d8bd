import FlashController.Proofs.Simulator.Persistence

/-! A locked controller is inert. Every operation goes through all of its writes and stores, and
each of them is ignored, but for those of the option bytes, which have a lock of their own. Only the
keys of the main domain could end this, and just one operation writes them. -/
namespace FlashController.Simulator
variable {device : Device}

/-- From one state to the other nothing took effect but clearing flags and what was done to the
option bytes and the access control. -/
structure Ignored (s t : Simulator device) : Prop where
  memory : t.memory = s.memory
  cr : t.cr = s.cr
  /-- No flag was set; some may have been cleared. -/
  flags : ∀ i, t.flags.raw.getLsbD i = true → s.flags.raw.getLsbD i = true
  /-- No key of the main domain was noted, be the earlier events dropped or not. -/
  keys : ∃ noted, (t.events = noted ++ s.events ∨ t.events = noted) ∧ ∀ k, .key .main k ∉ noted

section
variable {s t u : Simulator device}

namespace Ignored

theorem refl (s : Simulator device) : Ignored s s :=
  ⟨rfl, rfl, fun _ => id, [], .inl rfl, nofun⟩

theorem isLocked (h : Ignored s t) : t.isLocked .main = s.isLocked .main :=
  congrArg (Contents.has · Flag.lock) h.cr

theorem trans (first : Ignored s t) (second : Ignored t u) : Ignored s u := by
  refine ⟨second.memory.trans first.memory, second.cr.trans first.cr,
    fun i raised => first.flags i (second.flags i raised), ?_⟩
  obtain ⟨early, since, keyless⟩ := first.keys
  obtain ⟨late, since', keyless'⟩ := second.keys
  have both : ∀ k, .key .main k ∉ late ++ early := by
    intro k member
    rcases List.mem_append.mp member with member | member
    · exact keyless' k member
    · exact keyless k member
  rcases since' with kept | dropped
  · refine ⟨late ++ early, ?_, both⟩
    rcases since with since | since
    · exact .inl (by rw [kept, since, List.append_assoc])
    · exact .inr (by rw [kept, since])
  · exact ⟨late, .inr dropped, keyless'⟩

theorem settled (s : Simulator device) : Ignored s (Machine.settle s) :=
  ⟨rfl, rfl, fun _ => id, [], .inr rfl, nofun⟩

/-- One event was noted that is no key of the main domain. -/
theorem of_noted {e : Event} (memory : t.memory = s.memory) (cr : t.cr = s.cr)
    (flags : ∀ i, t.flags.raw.getLsbD i = true → s.flags.raw.getLsbD i = true)
    (events : t.events = e :: s.events) (keyless : ∀ k, e ≠ .key .main k) : Ignored s t := by
  refine ⟨memory, cr, flags, [e], .inl events, ?_⟩
  intro k member
  exact keyless k (List.mem_singleton.mp member).symm

end Ignored

theorem writeOptions_events (v : Contents .optcr) (s : Simulator device) :
    (leaves (writeRegister .optcr v) s).events = .write .optcr v :: s.events := by
  have accepts : ∀ t : Simulator device, (acceptOptions v t).events = t.events := by
    intro t
    obtain ⟨committed, busy, frame⟩ := acceptOptions_frame v t
    rw [frame]
  cases lock : s.isLocked .optionBytes with
  | true => rw [leaves_ok (writeOptions_locked lock)]
  | false =>
    by_cases idle : s.busy = 0
    · rw [leaves_ok (writeOptions_idle lock idle)]
      exact accepts _
    · rw [leaves, writeOptions_busy lock idle]
      by_cases room : s.violations + 1 < UInt32.size
      · rw [if_pos room]
        exact accepts _
      · rw [if_neg room]
        rfl

theorem storeWord_locked (locked : s.isLocked .main = true) (a : Address) (w : Word) :
    ∃ violations, leaves (storeWord a w) s =
      { s with violations, events := .store a w.width :: s.events } := by
  obtain ⟨t, ⟨violations, rfl⟩, same | ⟨_, unlocked, _⟩⟩ := storeWord_leaves a w s
  · exact ⟨violations, same⟩
  · exact absurd (unlocked.symm.trans locked) nofun

theorem writeOptions_ignored (v : Contents .optcr) (s : Simulator device) :
    Ignored s (leaves (writeRegister .optcr v) s) := by
  have events := writeOptions_events v s
  obtain ⟨t, lost, _, rfl⟩ | ⟨committed, busy, violations, _, written, _⟩ :=
    writeOptions_frame v s
  · rw [leaves_error lost] at events ⊢
    exact .of_noted rfl rfl (fun _ => id) events nofun
  · rw [leaves_ok written] at events ⊢
    exact .of_noted rfl rfl (fun _ => id) events nofun

/-- Any access but a key of the main domain. -/
theorem perform_ignored (locked : s.isLocked .main = true) {a : Access}
    (keyless : ∀ k, a ≠ .key .main k) : Ignored s (leaves (Machine.perform a) s) := by
  cases a with
  | read r =>
    cases r with
    | cr | acr | optcr => exact .refl s
    | sr =>
      show Ignored s (pollStatus s).2
      unfold pollStatus
      split <;> exact .of_noted rfl rfl (fun _ => id) rfl nofun
  | barrier => exact .of_noted rfl rfl (fun _ => id) rfl nofun
  | key d k =>
    cases d with
    | main => exact absurd rfl (keyless k)
    | optionBytes => exact .of_noted rfl rfl (fun _ => id) rfl nofun
  | store a w =>
    obtain ⟨violations, ignored⟩ := storeWord_locked locked a w
    have ignored : leaves (Machine.perform (.store a w)) s = _ := ignored
    rw [ignored]
    exact .of_noted rfl rfl (fun _ => id) rfl nofun
  | write r v =>
    cases r with
    | acr => exact ⟨rfl, rfl, fun _ => id, [], .inl rfl, nofun⟩
    | sr =>
      refine .of_noted rfl rfl (fun i raised => ?_) rfl nofun
      have raised : (s.flags.raw &&& ~~~(v.raw &&& stickyMask)).getLsbD i = true := raised
      rw [BitVec.getLsbD_and, Bool.and_eq_true] at raised
      exact raised.1
    | cr =>
      have ignored : Machine.perform (.write .cr v) s = _ := writeControl_locked locked
      rw [leaves_ok ignored]
      exact .of_noted rfl rfl (fun _ => id) rfl nofun
    | optcr => exact writeOptions_ignored v s

/-- Only the write of an option start can start an operation. -/
theorem perform_busy (locked : s.isLocked .main = true) {a : Access}
    (optionless : ∀ v, a ≠ .write .optcr v) : (leaves (Machine.perform a) s).busy ≤ s.busy := by
  cases a with
  | read r =>
    obtain ⟨busy, events, frame, less⟩ := read_frame r s
    exact frame ▸ less
  | barrier => exact Nat.le_refl _
  | key d k => cases d <;> exact Nat.le_refl _
  | store a w =>
    obtain ⟨violations, ignored⟩ := storeWord_locked locked a w
    have ignored : leaves (Machine.perform (.store a w)) s = _ := ignored
    have same := congrArg Simulator.busy ignored
    exact Nat.le_of_eq same
  | write r v =>
    cases r with
    | acr | sr => exact Nat.le_refl _
    | cr =>
      have ignored : Machine.perform (.write .cr v) s = _ := writeControl_locked locked
      have same := congrArg Simulator.busy (leaves_ok ignored)
      exact Nat.le_of_eq same
    | optcr => exact absurd rfl (optionless v)

/-- Nothing took effect, nor was an operation started that would raise the busy flag. -/
structure Inert (s t : Simulator device) : Prop extends Ignored s t where
  busy : t.busy ≤ s.busy

theorem Inert.trans (first : Inert s t) (second : Inert t u) : Inert s u :=
  ⟨first.toIgnored.trans second.toIgnored, Nat.le_trans second.busy first.busy⟩

section Operations
variable {op : Operation}

theorem keyless_of_makes (other : op ≠ .unlock .main) {a : Access} (makes : op.makes (.act a))
    (k : BitVec 32) : a ≠ .key .main k := by
  rintro rfl
  have turns : op.turns? = some .main := makes
  cases op with
  | unlock d =>
    obtain rfl : d = .main := Option.some.inj turns
    exact other rfl
  | _ => cases turns

theorem operate_ignored (locked : s.isLocked .main = true) (other : op ≠ .unlock .main) :
    Ignored s (leaves (op.procedure device).run s) := by
  apply (op.procedure_makes device).run_keeps (P := Ignored s)
  · intro a t makes kept
    exact kept.trans (perform_ignored (kept.isLocked.trans locked) (keyless_of_makes other makes))
  · intro r ready t _ kept
    exact kept.trans (perform_ignored (kept.isLocked.trans locked) nofun)
  · exact .refl s

theorem effect_busy (option : op.domain? = some .optionBytes) (s : Simulator device) :
    (effect op s).busy ≤ s.busy := by
  have same : (charged .optionBytes s).busy = s.busy := by
    unfold charged
    split <;> rfl
  cases op with
  | lock d | unlock d =>
    obtain rfl : d = .optionBytes := Option.some.inj option
    exact Nat.le_of_eq same
  | programOptionBytes v => exact Nat.zero_le _
  | _ => cases option

/-- The option bytes take their time, but an operation that starts them waits for their end. -/
theorem operate_inert (h : Quiet s) (locked : s.isLocked .main = true)
    (other : op ≠ .unlock .main) : Inert s (leaves (op.procedure device).run s) := by
  by_cases writes : op.writes? = some .optcr
  · refine ⟨operate_ignored locked other, ?_⟩
    have option := Operation.option_of_writes writes
    obtain ⟨later, left | left⟩ := options_leaves h option
    · rw [left]
      exact effect_busy option s
    · have same := congrArg Simulator.busy left
      exact Nat.le_of_eq same
  · apply (op.procedure_makes device).run_keeps (P := Inert s)
    · intro a t makes kept
      have locked := kept.isLocked.trans locked
      have optionless : ∀ v, a ≠ .write .optcr v := by
        rintro v rfl
        exact writes makes
      exact kept.trans ⟨perform_ignored locked (keyless_of_makes other makes),
        perform_busy locked optionless⟩
    · intro r ready t _ kept
      have locked := kept.isLocked.trans locked
      exact kept.trans ⟨perform_ignored locked nofun, perform_busy locked nofun⟩
    · exact ⟨.refl s, Nat.le_refl _⟩

end Operations

section Scripts
variable {ops : List Operation}

/-- A locked controller is inert under any operations but the unlocking of the main domain. -/
theorem locked_inert (h : Reachable s) (locked : s.isLocked .main = true)
    (other : ∀ op ∈ ops, op ≠ .unlock .main) :
    let course := (Script.ofList ops).play device id s
    (∀ e ∈ course.entries, Inert s e.seen ∧ e.seen.isLocked .main = true) ∧
      Inert s course.final ∧ course.final.isLocked .main = true := by
  intro course
  have operates : ∀ op, op ≠ Operation.unlock .main → ∀ t, Quiet t ∧ Inert s t →
      Quiet (leaves (op.procedure device).run t) ∧
        Inert s (leaves (op.procedure device).run t) := by
    rintro op other t ⟨quiet, inert⟩
    have later := operate_inert quiet (inert.isLocked.trans locked) other
    exact ⟨quiet.act (.operate op), inert.trans later⟩
  have run : (∀ e ∈ course.entries, Quiet e.seen ∧ Inert s e.seen) ∧
      Quiet course.final ∧ Inert s course.final := by
    apply Script.play_invariant (P := fun t => Quiet t ∧ Inert s t)
    · rintro t ⟨quiet, inert⟩
      exact ⟨quiet.logged [], inert.trans ⟨.settled t, Nat.le_refl _⟩⟩
    · intro t kept
      have closes : leaves ((Operation.lock .main).procedure device).run t = _ :=
        Procedure.leaves_run_pure (Procedure.lock .main) _ t
      exact closes ▸ operates (.lock .main) nofun t kept
    · intro x member t kept
      obtain ⟨op, here, rfl⟩ := step_ofList member
      exact operates op (other op here) t kept
    · exact ⟨h.quiet, .refl s, Nat.le_refl _⟩
  obtain ⟨entries, _, final⟩ := run
  constructor
  · intro e member
    obtain ⟨_, inert⟩ := entries e member
    exact ⟨inert, inert.isLocked.trans locked⟩
  · exact ⟨final, final.isLocked.trans locked⟩

/-- A controller that was locked with a sector erase set up, its first key written again and an
operation in progress; the last operation aims past the end of the memory. -/
theorem locked_inert_begun :
    let s : Simulator .generic := afterAll [
      .access (.key .main (Domain.firstKey .main)),
      .access (.key .main (Domain.secondKey .main)),
      .access (.write .cr ⟨0x8000021A⟩),
      .access (.key .main (Domain.firstKey .main)),
      .control (.setFlags ⟨0x10⟩),
      .control (.setBusy 4)] (new .generic)
    let ops : List Operation := [.eraseSector 3 .x32, .programOptionBytes ⟨0⟩, .unlock .optionBytes,
      .program ⟨0x08000004, by decide⟩ (.ofBytes .x32 [1, 2, 3, 4]), .clear .wrperr, .eraseAll .x8,
      .lock .main, .resetAccelerator, .programBlock ⟨0x080FFFFF, by decide⟩ [1, 2]]
    let course := (Script.ofList ops).play .generic id s
    Reachable s ∧ s.isLocked .main = true ∧ s.mainStage = .first ∧
      (∀ op ∈ ops, op ≠ .unlock .main) ∧
      course.halt = some (.outsideWindow ⟨0x08100000, by decide⟩) ∧
      (∀ e ∈ course.entries, Inert s e.seen ∧ e.seen.isLocked .main = true) ∧
      Inert s course.final ∧ course.final.isLocked .main = true := by
  intro s ops course
  have reachable : Reachable s := (Reachable.start _).calls _
  have locked : s.isLocked .main = true := by decide
  have other : ∀ op ∈ ops, op ≠ .unlock .main := by simp [ops]
  exact ⟨reachable, locked, by decide, other, by decide +kernel,
    locked_inert reachable locked other⟩

end Scripts
end

end FlashController.Simulator
