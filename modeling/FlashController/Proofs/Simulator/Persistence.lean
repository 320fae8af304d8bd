import FlashController.Proofs.Moves
import FlashController.Proofs.Simulator.Separation
import FlashController.Proofs.Steps

/-! Option bytes over whole sessions. There are three copies of them: one register programs, one is
committed, and one is in force. The committed ones are those of the last programming, and a reset
puts them in force; nothing else that the driver does changes either of them. -/
namespace FlashController

theorem Operation.option_of_writes {op : Operation} (writes : op.writes? = some .optcr) :
    op.domain? = some .optionBytes := by
  cases op with
  | lock d | unlock d =>
    cases d with
    | main => cases writes
    | optionBytes => rfl
  | programOptionBytes v => rfl
  | _ => cases writes

namespace Simulator
variable {device : Device}

section History
variable {o : Contents .optcr} {past : List (Step Control)} {x : Step Control}

/-- The option bytes that a step programs. -/
def programs? : Step Control → Option (Contents .optcr)
  | .operate (.programOptionBytes v) => some v
  | _ => none

def resets : Step Control → Bool
  | .control .reset => true
  | _ => false

/-- The option bytes that were programmed last, or those of the start. -/
def lastProgrammed (o : Contents .optcr) (past : List (Step Control)) : Contents .optcr :=
  (past.filterMap programs?).getLastD o

/-- The steps up to the last reset. -/
def untilReset (past : List (Step Control)) : List (Step Control) :=
  (past.reverse.dropWhile fun x => !resets x).reverse

theorem lastProgrammed_some {v : Contents .optcr} (programs : programs? x = some v) :
    lastProgrammed o (past ++ [x]) = v := by
  rw [lastProgrammed, List.filterMap_append, List.filterMap_cons_some programs, List.filterMap_nil,
    List.getLastD_concat]

theorem lastProgrammed_none (programs : programs? x = none) :
    lastProgrammed o (past ++ [x]) = lastProgrammed o past := by
  rw [lastProgrammed, List.filterMap_append, List.filterMap_cons_none programs, List.filterMap_nil,
    List.append_nil, lastProgrammed]

theorem untilReset_reset (reset : resets x = true) : untilReset (past ++ [x]) = past ++ [x] := by
  rw [untilReset, List.reverse_append, List.reverse_singleton, List.singleton_append,
    List.dropWhile_cons_of_neg (by simp [reset]), List.reverse_cons, List.reverse_reverse]

theorem untilReset_other (other : resets x = false) :
    untilReset (past ++ [x]) = untilReset past := by
  rw [untilReset, List.reverse_append, List.reverse_singleton, List.singleton_append,
    List.dropWhile_cons_of_pos (by simp [other]), untilReset]

end History

section Steps
variable {o : Contents .optcr} {past : List (Step Control)} {x : Step Control}
  {s t : Simulator device} {op : Operation}

/-- What the option bytes are, as far as the steps up to here tell. -/
structure Persists (o : Contents .optcr) (past : List (Step Control)) (s : Simulator device) :
    Prop where
  committed : s.committed = (lastProgrammed o past).optionBytes
  active : s.active = (lastProgrammed o (untilReset past)).optionBytes
  /-- Directly after a reset the committed option bytes are read back, locked. -/
  reread : past.getLast? = some (.control .reset) →
    (Operation.optionBytes.procedure device).run s =
      .ok (.parts .optcr (s.committed.set .optlock true)) s

theorem reads_iff {v : Contents .optcr} :
    (Operation.optionBytes.procedure device).run s = .ok (.parts .optcr v) s ↔ s.optcr = v := by
  have reads : (Operation.optionBytes.procedure device).run s = .ok (.parts .optcr s.optcr) s := rfl
  rw [reads]
  constructor
  · intro same
    obtain ⟨same, _⟩ := EStateM.Result.ok.inj same
    exact eq_of_heq (Reply.parts.inj same).2
  · rintro rfl
    rfl

theorem Persists.of_eq (h : Persists o past s) (committed : t.committed = s.committed)
    (active : t.active = s.active) (optcr : t.optcr = s.optcr) : Persists o past t := by
  constructor
  · exact committed.trans h.committed
  · exact active.trans h.active
  · intro last
    rw [committed]
    exact reads_iff.mpr (optcr.trans (reads_iff.mp (h.reread last)))

/-- A step that neither programs option bytes nor resets. -/
theorem Persists.other (h : Persists o past s) (programs : programs? x = none)
    (other : resets x = false) (committed : t.committed = s.committed)
    (active : t.active = s.active) : Persists o (past ++ [x]) t := by
  constructor
  · rw [lastProgrammed_none programs]
    exact committed.trans h.committed
  · rw [untilReset_other other]
    exact active.trans h.active
  · intro last
    rw [List.getLast?_concat] at last
    obtain rfl := Option.some.inj last
    cases other

theorem perform_committed {a : Access} (optionless : ∀ v, a ≠ .write .optcr v) :
    (leaves (Machine.perform a) s).committed = s.committed := by
  cases a with
  | read r =>
    obtain ⟨busy, events, frame, _⟩ := read_frame r s
    rw [frame]
  | barrier => rfl
  | key d k => cases d <;> rfl
  | store a w =>
    obtain ⟨memory, flags, busy, violations, events, frame, _⟩ := storeWord_frame a w s
    have frame : leaves (Machine.perform (.store a w)) s = _ := frame
    rw [frame]
  | write r v =>
    cases r with
    | sr | acr => rfl
    | optcr => exact absurd rfl (optionless v)
    | cr =>
      obtain ⟨t, lost, _, rfl⟩ | ⟨memory, flags, busy, violations, events, written, _⟩ :=
        writeControl_frame v s
      · have lost : Machine.perform (.write .cr v) s = _ := lost
        rw [leaves_error lost]
      · have written : Machine.perform (.write .cr v) s = _ := written
        rw [leaves_ok written]

theorem operate_active (op : Operation) (s : Simulator device) :
    (leaves (op.procedure device).run s).active = s.active :=
  (op.procedure device).run_keeps (P := fun t => t.active = s.active)
    (fun a t same => (perform_memory a t).1.trans same) s rfl

theorem effect_committed (option : op.domain? = some .optionBytes)
    (other : ∀ v, op ≠ .programOptionBytes v) (s : Simulator device) :
    (effect op s).committed = s.committed := by
  have same : (charged .optionBytes s).committed = s.committed := by
    unfold charged
    split <;> rfl
  cases op with
  | lock d | unlock d =>
    obtain rfl : d = .optionBytes := Option.some.inj option
    exact same
  | programOptionBytes v => exact absurd rfl (other v)
  | _ => cases option

/-- Only their own programming commits option bytes. Setting or clearing their lock writes back
what was read, with the start bit clear. -/
theorem operate_committed (h : Quiet s) (other : ∀ v, op ≠ .programOptionBytes v) :
    (leaves (op.procedure device).run s).committed = s.committed := by
  by_cases option : op.domain? = some .optionBytes
  · obtain ⟨later, left | left⟩ := options_leaves h option
    · rw [left]
      exact effect_committed option other s
    · rw [left]
  · refine (op.procedure_makes device).run_keeps
      (P := fun t : Simulator device => t.committed = s.committed) ?_ ?_ rfl
    · intro a t makes same
      have optionless : ∀ v, a ≠ .write .optcr v := by
        rintro v rfl
        exact option (Operation.option_of_writes makes)
      exact (perform_committed optionless).trans same
    · intro r ready t _ same
      have optionless : ∀ v, Access.read r ≠ .write .optcr v := nofun
      exact (perform_committed optionless).trans same

theorem Persists.operate (h : Persists o past s) (quiet : Quiet s) (op : Operation) :
    Persists o (past ++ [.operate op]) (leaves (op.procedure device).run s) := by
  cases programs : programs? (.operate op) with
  | none =>
    have other : ∀ v, op ≠ .programOptionBytes v := by
      rintro v rfl
      cases programs
    exact h.other programs rfl (operate_committed quiet other) (operate_active op s)
  | some v =>
    obtain rfl : op = .programOptionBytes v := by
      cases op with
      | programOptionBytes u => exact congrArg _ (Option.some.inj programs)
      | _ => cases programs
    have unlatched : ∀ d, (Operation.programOptionBytes v).latches? ≠ some d := nofun
    have completes := operation_completes quiet (.programOptionBytes v) trivial
      fun d latches => absurd latches (unlatched d)
    obtain ⟨later, left⟩ := completes.leaves
    rw [left]
    constructor
    · rw [lastProgrammed_some programs]
      rfl
    · rw [untilReset_other rfl]
      exact h.active
    · intro last
      rw [List.getLast?_concat] at last
      cases last

theorem control_committed (c : Control) (s : Simulator device) :
    (leaves (control c) s).committed = s.committed := by
  obtain rfl | ⟨memory, flags, busy, latency, frame, _⟩ := control_frame c s
  · rfl
  · rw [frame]

theorem Persists.control (h : Persists o past s) (c : Control) :
    Persists o (past ++ [.control c]) (leaves (Simulator.control c) s) := by
  cases reset : resets (.control c) with
  | true =>
    obtain rfl : c = .reset := by
      cases c with
      | reset => rfl
      | _ => cases reset
    constructor
    · rw [lastProgrammed_none rfl]
      exact h.committed
    · rw [untilReset_reset rfl, lastProgrammed_none rfl]
      exact h.committed
    · exact fun _ => rfl
  | false =>
    have other : Call.control c ≠ .control .reset := by
      intro same
      obtain rfl := Call.control.inj same
      cases reset
    exact h.other rfl reset (control_committed c s) (Call.active_eq other s)

/-- One step of a session, whether it completes or halts. -/
theorem Persists.step (h : Persists o past s) (quiet : Quiet s) (driven : ∀ a, x ≠ .access a) :
    Persists o (past ++ [x]) (leaves (x.act device) s) := by
  cases x with
  | operate op => exact h.operate quiet op
  | openGuard =>
    obtain ⟨later, run⟩ := driven_completes (x := .openGuard) quiet trivial nofun
    rw [leaves_ok run]
    exact h.other rfl rfl rfl rfl
  | closeGuard =>
    obtain ⟨later, run⟩ := driven_completes (x := .closeGuard) quiet trivial nofun
    rw [leaves_ok run]
    exact h.other rfl rfl rfl rfl
  | access a => exact absurd rfl (driven a)
  | control c => exact h.control c

/-- What programming option bytes makes of any state between calls. -/
structure Programmed (v : Contents .optcr) (s t : Simulator device) : Prop where
  optcr : t.optcr = v.optionBytes
  committed : t.committed = v.optionBytes
  unlocked : t.isLocked .optionBytes = false
  started : t.optcr.has .optstrt = false
  busy : t.busy = 0
  memory : t.memory = s.memory
  cr : t.cr = s.cr
  flags : t.flags = s.flags
  violations : t.violations = s.violations

theorem programOptionBytes_programs (h : Quiet s) (v : Contents .optcr) :
    ∃ t, ((Operation.programOptionBytes v).procedure device).run s = .ok .done t ∧
      Programmed v s t := by
  obtain ⟨later, run⟩ := (programOptionBytes_completes h v).silent s.events
  refine ⟨_, run, ?_⟩
  constructor
  case unlocked => exact v.has_optionBytes (.inl rfl)
  case started => exact v.has_optionBytes (.inr rfl)
  all_goals rfl

theorem access_of_step {commands : List (Command Control)} {a : Access}
    (member : .access a ∈ commands.flatMap Command.steps) : .access a ∈ commands := by
  obtain ⟨c, here, step⟩ := List.mem_flatMap.mp member
  cases c with
  | drive script =>
    obtain ⟨op, same⟩ | same | same := Script.step_cases step <;> cases same
  | access b =>
    obtain rfl := Step.access.inj (List.mem_singleton.mp step)
    exact here
  | control c => cases List.mem_singleton.mp step

theorem session_persists (o : Contents .optcr) {commands : List (Command Control)}
    (driven : ∀ a, .access a ∉ commands) :
    Recounts (fun past t => Quiet t ∧ Persists o past t) (fun past t => Quiet t ∧ Persists o past t)
      (fun past t => Quiet t ∧ Persists o past t) [] (commands.flatMap Command.steps)
      (playAll device id commands (withOptionBytes device o)) := by
  have settles : ∀ past (t : Simulator device), Quiet t ∧ Persists o past t →
      Quiet (Machine.settle t) ∧ Persists o past (Machine.settle t) :=
    fun past t kept => ⟨kept.1.logged [], kept.2.of_eq rfl rfl rfl⟩
  apply playAll_recounts settles settles
  · -- The guards that a halt leaves open are closed by no step.
    rintro past t ⟨quiet, persists⟩
    have locked := quiet.procedure (Procedure.lock .main)
    obtain ⟨later, left⟩ := (lockMain_completes quiet.toSound).leaves
    rw [left] at locked ⊢
    exact ⟨locked, persists.of_eq rfl rfl rfl⟩
  · intro x member
    apply carries_same
    rintro past t ⟨quiet, persists⟩
    refine ⟨quiet.act x, persists.step quiet ?_⟩
    rintro a rfl
    exact driven a (access_of_step member)
  · exact ⟨(Reachable.start o).quiet, rfl, rfl, nofun⟩

/-- Option bytes persist, and take effect at a reset. In every session of the driver, whatever is
done around it, the committed option bytes are those of the last programming, and the ones in force
those that were committed at the last reset. From any state, programming option bytes changes
nothing but them. -/
theorem option_bytes_persist (o : Contents .optcr) {commands : List (Command Control)}
    (driven : ∀ a, .access a ∉ commands) :
    let steps := commands.flatMap Command.steps
    let course := playAll device id commands (withOptionBytes device o)
    (∀ k e, course.entries[k]? = some e → Persists o (steps.take (k + 1)) e.seen) ∧
      Persists o (steps.take (course.entries.length + 1)) course.final ∧
      ∀ s : Simulator device, Reachable s → ∀ v, ∃ t,
        ((Operation.programOptionBytes v).procedure device).run s = .ok .done t ∧
          Programmed v s t := by
  intro steps course
  have told : Recounts _ _ _ [] steps course := session_persists o driven
  refine ⟨fun k e found => (told.entries k e found).2, ?_,
    fun s reachable v => programOptionBytes_programs reachable.quiet v⟩
  cases ended : course.halt with
  | none =>
    obtain ⟨length, _, persists⟩ := told.whole ended
    have all : steps.take (course.entries.length + 1) = steps :=
      List.take_of_length_le (Nat.le_succ_of_le (Nat.le_of_eq length.symm))
    rwa [all]
  | some h => exact (told.halted h ended).2.2

/-- Two programmings with a reset between them. The first finds the domain unlocked and an operation
in progress, the second finds it locked, and the session ends in a guard with a store below the
memory. -/
theorem option_bytes_persist_reset :
    let commands : List (Command Control) := [
      .drive (.step (.unlock .optionBytes) .done),
      .control (.setBusy 3),
      .drive (.guarded (.step (.programOptionBytes ⟨0xCFFDAAEF⟩)
        (.step (.eraseSector 1 .x32) .done)) (.step (.lock .optionBytes) .done)),
      .control .reset,
      .drive (.step .optionBytes (.step (.programOptionBytes ⟨7⟩)
        (.guarded (.step (.program ⟨0x07FFFFFF, by decide⟩ (.ofByte 0)) .done) .done)))]
    let steps := commands.flatMap Command.steps
    let course := playAll .generic id commands (withOptionBytes .generic ⟨0xCFFFAAED⟩)
    (∀ a, .access a ∉ commands) ∧ course.entries.length = 11 ∧
      course.halt = some (.outsideWindow ⟨0x07FFFFFF, by decide⟩) ∧
      lastProgrammed ⟨0xCFFFAAED⟩ (steps.take (course.entries.length + 1)) = ⟨7⟩ ∧
      lastProgrammed ⟨0xCFFFAAED⟩ (untilReset (steps.take (course.entries.length + 1))) =
        ⟨0xCFFDAAEF⟩ ∧
      (∀ k e, course.entries[k]? = some e →
        Persists ⟨0xCFFFAAED⟩ (steps.take (k + 1)) e.seen) ∧
      Persists ⟨0xCFFFAAED⟩ (steps.take (course.entries.length + 1)) course.final := by
  intro commands steps course
  have driven : ∀ a, Command.access a ∉ commands := by simp [commands]
  obtain ⟨entries, final, _⟩ := option_bytes_persist ⟨0xCFFFAAED⟩ driven
  exact ⟨driven, by decide +kernel, by decide +kernel, by decide +kernel, by decide +kernel,
    entries, final⟩

end Steps

end Simulator
end FlashController
