import FlashController.Proofs.Simulator.Operations
import FlashController.Proofs.Simulator.Protection

/-! Separation of the two register domains. They share the busy count, the barrier and the waits;
still, what operations of one domain leave behind is the same whatever operations of the other are
interleaved with them. Protection follows the option bytes in force, which neither list changes. -/
namespace FlashController

/-- The domain that the operation works on. Looking, waiting and the acceleration belong to none. -/
def Operation.domain? : Operation → Option Domain
  | .lock d | .unlock d => some d
  | .eraseAll _ | .eraseSector _ _ | .program _ _ | .programBlock _ _ | .programBlockWide _ _ _
  | .clear _ | .clearStatus => some .main
  | .programOptionBytes _ => some .optionBytes
  | .waitUntilIdle | .pollIdle | .isLocked _ | .ensureUnlocked _ | .optionBytes | .status
  | .setWaitStates _ | .setPrefetch _ | .setAccelerator _ | .resetAccelerator => none

namespace Simulator
variable {device : Device}

/-- The same main domain, with the memory and the protection in force. -/
structure SameMain (s t : Simulator device) : Prop where
  memory : t.memory = s.memory
  cr : t.cr = s.cr
  flags : t.flags = s.flags
  stage : t.mainStage = s.mainStage
  active : t.active = s.active

/-- The same domain of the option bytes. -/
structure SameOptions (s t : Simulator device) : Prop where
  optcr : t.optcr = s.optcr
  committed : t.committed = s.committed
  stage : t.optionStage = s.optionStage

section Main
variable {s t : Simulator device}

namespace SameMain

theorem isProtected (h : SameMain s t) : t.isProtected = s.isProtected := by
  funext sector
  rw [Simulator.isProtected, h.active, Simulator.isProtected]

theorem isLocked (h : SameMain s t) : t.isLocked .main = s.isLocked .main :=
  congrArg (Contents.has · Flag.lock) h.cr

theorem raise (h : SameMain s t) (f : Flag .sr) : SameMain (raise f s) (raise f t) :=
  ⟨h.memory, h.cr, congrArg (·.set f true) h.flags, h.stage, h.active⟩

theorem burnByte (h : SameMain s t) (offset : Nat) (b : UInt8) :
    SameMain (burnByte offset b s) (burnByte offset b t) := by
  have guards : t.guards offset = s.guards offset := by
    rw [Simulator.guards, h.isProtected, Simulator.guards]
  unfold Simulator.burnByte
  rw [guards]
  split
  · exact h.raise .wrperr
  · exact ⟨by rw [h.memory], h.cr, by rw [h.memory, h.flags], h.stage, h.active⟩

theorem burnBytes (h : SameMain s t) (offset : Nat) (data : List UInt8) :
    SameMain (burnBytes offset data s) (burnBytes offset data t) := by
  induction data generalizing offset s t with
  | nil => exact h
  | cons b rest ih => exact ih (h.burnByte offset b) (offset + 1)

theorem stored (h : SameMain s t) (a : Address) (w : Word) :
    SameMain (stored a w s) (stored a w t) := by
  unfold Simulator.stored
  split
  · exact h.burnBytes _ _
  · exact h.raise .pgaerr

theorem programmed (h : SameMain s t) (w : Width)
    {effect : Simulator device → Simulator device} (same : SameMain (effect s) (effect t)) :
    SameMain (programmed w effect s) (programmed w effect t) := by
  cases lock : s.isLocked .main with
  | true =>
    rw [programmed_locked lock, programmed_locked (h.isLocked.trans lock)]
    exact ⟨h.memory, h.cr, h.flags, rfl, h.active⟩
  | false =>
    rw [programmed_unlocked lock, programmed_unlocked (h.isLocked.trans lock), h.cr]
    exact ⟨same.memory, rfl, same.flags, same.stage, same.active⟩

theorem wordsProgrammed (h : SameMain s t) (a : Address) (words : List Word) :
    SameMain (wordsProgrammed a words s) (wordsProgrammed a words t) := by
  obtain ⟨_, none⟩ | ⟨w, block⟩ := wordsProgrammed_cases a words
  · rwa [none, none]
  · rw [block, block]
    exact h.programmed w (h.burnBytes _ _)

theorem erased (h : SameMain s t) (v : Contents .cr) : SameMain (erased v s) (erased v t) := by
  rw [erased_eq, erased_eq]
  refine ⟨?_, h.cr, ?_, h.stage, h.active⟩
  · simp only [h.isProtected, h.memory]
  · simp only [verdict, h.isProtected, h.flags]

theorem wiped (h : SameMain s t) (w : Width) (select deselect : Contents .cr → Contents .cr) :
    SameMain (wiped w select deselect s) (wiped w select deselect t) := by
  cases lock : s.isLocked .main with
  | true =>
    rw [wiped_locked lock, wiped_locked (h.isLocked.trans lock)]
    exact ⟨h.memory, h.cr, h.flags, rfl, h.active⟩
  | false =>
    have same := h.erased (starting w select s.cr)
    rw [wiped_unlocked lock, wiped_unlocked (h.isLocked.trans lock), h.cr]
    exact ⟨same.memory, rfl, same.flags, same.stage, same.active⟩

theorem latched (h : SameMain s t) (on : Bool) :
    SameMain (latched .main on s) (latched .main on t) :=
  ⟨h.memory, congrArg (Contents.set · Flag.lock on) h.cr, h.flags, rfl, h.active⟩

/-- What an operation makes of the main domain follows from the main domain. -/
theorem effect (h : SameMain s t) {op : Operation} (main : op.domain? = some .main) :
    SameMain (effect op s) (effect op t) := by
  cases op with
  | lock d | unlock d =>
    obtain rfl : d = .main := Option.some.inj main
    simp only [Simulator.effect, charged_main]
    exact h.latched _
  | eraseAll w | eraseSector n w =>
    simp only [Simulator.effect]
    exact h.wiped w _ _
  | program a w => exact h.programmed w.width (h.stored a w)
  | programBlock a data | programBlockWide a data limit => exact h.wordsProgrammed a _
  | clear c => exact ⟨h.memory, h.cr, congrArg (·.set c.flag false) h.flags, h.stage, h.active⟩
  | clearStatus =>
    refine ⟨h.memory, h.cr, ?_, h.stage, h.active⟩
    simp only [Simulator.effect, cleared, h.flags]
  | _ => cases main

theorem trans {u : Simulator device} (first : SameMain s t) (second : SameMain t u) :
    SameMain s u :=
  ⟨second.memory.trans first.memory, second.cr.trans first.cr, second.flags.trans first.flags,
    second.stage.trans first.stage, second.active.trans first.active⟩

end SameMain

theorem effect_sameMain {op : Operation} (option : op.domain? = some .optionBytes)
    (s : Simulator device) : SameMain s (effect op s) := by
  have charged : SameMain s (charged .optionBytes s) := by
    unfold charged
    split <;> exact ⟨rfl, rfl, rfl, rfl, rfl⟩
  cases op with
  | lock d | unlock d =>
    obtain rfl : d = .optionBytes := Option.some.inj option
    exact charged.trans ⟨rfl, rfl, rfl, rfl, rfl⟩
  | programOptionBytes v => exact ⟨rfl, rfl, rfl, rfl, rfl⟩
  | _ => cases option

end Main

/-- The same option bytes, seen beside operations of the main domain: these may have waited for an
operation in progress, and so have spared a violation. -/
structure Beside (s t : Simulator device) : Prop extends SameOptions s t where
  busy : t.busy = s.busy ∨ t.busy = 0
  violations : t.violations ≤ s.violations

section Options
variable {s t : Simulator device}

namespace Beside

theorem refl (s : Simulator device) : Beside s s :=
  ⟨⟨rfl, rfl, rfl⟩, .inl rfl, Nat.le_refl _⟩

theorem trans {u : Simulator device} (first : Beside s t) (second : Beside t u) : Beside s u := by
  refine ⟨⟨second.optcr.trans first.optcr, second.committed.trans first.committed,
    second.stage.trans first.stage⟩, ?_, Nat.le_trans second.violations first.violations⟩
  rcases second.busy with same | idle
  · rcases first.busy with same' | idle
    · exact .inl (same.trans same')
    · exact .inr (same.trans idle)
  · exact .inr idle

theorem isLocked (h : Beside s t) : t.isLocked .optionBytes = s.isLocked .optionBytes :=
  congrArg (Contents.has · Flag.optlock) h.optcr

theorem offends (h : Beside s t) {d : Domain} (offends : Offends d t) : Offends d s := by
  obtain ⟨option, unlocked, busy⟩ := offends
  refine ⟨option, h.isLocked.symm.trans unlocked, ?_⟩
  rcases h.busy with same | idle
  · exact same ▸ busy
  · exact absurd idle busy

theorem charged (h : Beside s t) (d : Domain) : Beside (charged d s) (charged d t) := by
  unfold Simulator.charged
  by_cases here : Offends d t
  · rw [if_pos here, if_pos (h.offends here)]
    exact ⟨⟨h.optcr, h.committed, h.stage⟩, h.busy, Nat.succ_le_succ h.violations⟩
  · rw [if_neg here]
    split
    · exact ⟨⟨h.optcr, h.committed, h.stage⟩, h.busy, Nat.le_succ_of_le h.violations⟩
    · exact h

theorem latched (h : Beside s t) (on : Bool) :
    Beside (latched .optionBytes on s) (latched .optionBytes on t) :=
  ⟨⟨congrArg (Contents.set · Flag.optlock on) h.optcr, h.committed, rfl⟩, h.busy, h.violations⟩

/-- What an operation makes of the option bytes follows from the option bytes. -/
theorem effect (h : Beside s t) {op : Operation} (option : op.domain? = some .optionBytes) :
    Beside (effect op s) (effect op t) := by
  cases op with
  | lock d | unlock d =>
    obtain rfl : d = .optionBytes := Option.some.inj option
    exact (h.charged .optionBytes).latched _
  | programOptionBytes v =>
    have stage : (if t.isLocked .optionBytes then KeyStage.idle else t.optionStage) =
        if s.isLocked .optionBytes then .idle else s.optionStage := by rw [h.isLocked, h.stage]
    exact ⟨⟨rfl, rfl, stage⟩, .inl rfl, h.violations⟩
  | _ => cases option

end Beside

theorem programmed_beside (w : Width) {effect : Simulator device → Simulator device}
    (frame : ∃ memory flags, effect s = { s with memory, flags }) :
    Beside s (programmed w effect s) := by
  obtain ⟨memory, flags, frame⟩ := frame
  cases lock : s.isLocked .main with
  | true =>
    rw [programmed_locked lock]
    exact ⟨⟨rfl, rfl, rfl⟩, .inr rfl, Nat.le_refl _⟩
  | false =>
    rw [programmed_unlocked lock, frame]
    exact ⟨⟨rfl, rfl, rfl⟩, .inr rfl, Nat.le_refl _⟩

theorem burned_beside (w : Width) (offset : Nat) (data : List UInt8) (s : Simulator device) :
    Beside s (programmed w (burnBytes offset data) s) := by
  obtain ⟨memory, flags, frame, _⟩ := burnBytes_frame offset data s
  exact programmed_beside w ⟨memory, flags, frame⟩

theorem words_beside (a : Address) (words : List Word) (s : Simulator device) :
    Beside s (wordsProgrammed a words s) := by
  obtain ⟨_, none⟩ | ⟨w, block⟩ := wordsProgrammed_cases a words
  · rw [none]
    exact .refl s
  · rw [block]
    exact burned_beside w _ _ s

theorem wiped_beside (w : Width) (select deselect : Contents .cr → Contents .cr)
    (s : Simulator device) : Beside s (wiped w select deselect s) := by
  cases lock : s.isLocked .main with
  | true =>
    rw [wiped_locked lock]
    exact ⟨⟨rfl, rfl, rfl⟩, .inr rfl, Nat.le_refl _⟩
  | false =>
    rw [wiped_unlocked lock, erased_eq]
    exact ⟨⟨rfl, rfl, rfl⟩, .inr rfl, Nat.le_refl _⟩

theorem effect_beside {op : Operation} (main : op.domain? = some .main) (s : Simulator device) :
    Beside s (effect op s) := by
  cases op with
  | lock d | unlock d =>
    obtain rfl : d = .main := Option.some.inj main
    simp only [effect, charged_main]
    exact ⟨⟨rfl, rfl, rfl⟩, .inl rfl, Nat.le_refl _⟩
  | eraseAll w | eraseSector n w =>
    simp only [effect]
    exact wiped_beside w _ _ s
  | program a w =>
    by_cases aligned : a.toNat % w.width.bytes = 0
    · simp only [effect, stored_aligned aligned]
      exact burned_beside _ _ _ s
    · exact programmed_beside w.width ⟨_, _, if_neg aligned⟩
  | programBlock a data | programBlockWide a data limit => exact words_beside a _ s
  | clear c | clearStatus => exact ⟨⟨rfl, rfl, rfl⟩, .inl rfl, Nat.le_refl _⟩
  | _ => cases main

end Options

/-- A run of the list is not lost to the overflow of the counter of violations. -/
def Survives (ops : List Operation) (s : Simulator device) : Prop :=
  ∃ events, ((Script.ofList ops).play device id (s.logged events)).halt ≠ some .additionOverflow

section Runs
variable {s t x y z : Simulator device} {op : Operation} {rest : List Operation}

theorem latches_domain {d : Domain} (latches : op.latches? = some d) : op.domain? = some d := by
  cases op with
  | lock e | unlock e => exact latches
  | _ => cases latches

theorem option_inside (option : op.domain? = some .optionBytes) : op.Inside := by
  cases op with
  | program | programBlock | programBlockWide => exact absurd option nofun
  | _ => trivial

theorem main_room {d : Domain} (main : op.domain? = some .main) (latches : op.latches? = some d)
    (offends : Offends d s) : s.violations + 1 < UInt32.size := by
  obtain rfl : d = .main := Option.some.inj ((latches_domain latches).symm.trans main)
  exact nomatch offends.1

theorem Halts.silent {p : Procedure Unit} {e : Halt} (run : Halts p s e t) :
    Halts (Operation.procedure.silent p) s e t := by
  rw [Operation.procedure.silent, map_eq_pure_bind]
  exact run.bind

theorem latch_halts (latches : op.latches? = some .optionBytes) (offends : Offends .optionBytes s)
    (full : ¬ s.violations + 1 < UInt32.size) :
    Halts (op.procedure device) s .additionOverflow s := by
  have lost := lockOptions_halts offends full
  cases op with
  | lock d =>
    obtain rfl : d = .optionBytes := Option.some.inj latches
    exact lost.silent
  | unlock d =>
    obtain rfl : d = .optionBytes := Option.some.inj latches
    exact Halts.silent lost.bind
  | _ => cases latches

/-- An operation on the option bytes completes, or it is lost without a trace. -/
theorem options_outcome (h : Quiet s) (option : op.domain? = some .optionBytes) :
    Completes (op.procedure device) s (answer op s) (effect op s) ∨
      Halts (op.procedure device) s .additionOverflow s := by
  by_cases lost : op.latches? = some .optionBytes ∧ Offends .optionBytes s ∧
      ¬ s.violations + 1 < UInt32.size
  · obtain ⟨latches, offends, full⟩ := lost
    exact .inr (latch_halts latches offends full)
  · refine .inl (operation_completes h op (option_inside option) fun d latches offends => ?_)
    obtain rfl : d = .optionBytes := offends.1
    exact Classical.byContradiction fun full => lost ⟨latches, offends, full⟩

theorem options_leaves (h : Quiet s) (option : op.domain? = some .optionBytes) :
    ∃ later, leaves (op.procedure device).run s = (effect op s).logged later ∨
      leaves (op.procedure device).run s = s.logged later := by
  rcases options_outcome h option with completes | halts
  · obtain ⟨later, left⟩ := completes.leaves
    exact ⟨later, .inl left⟩
  · obtain ⟨later, left⟩ := halts.leaves
    exact ⟨later, .inr left⟩

/-- A run that survives has room for the violation of its first operation. -/
theorem Survives.room {d : Domain} (h : Survives (op :: rest) s) (latches : op.latches? = some d)
    (offends : Offends d s) : s.violations + 1 < UInt32.size := by
  obtain rfl : d = .optionBytes := offends.1
  refine Classical.byContradiction fun full => ?_
  obtain ⟨events, survives⟩ := h
  obtain ⟨later, lost⟩ := latch_halts latches offends full events
  refine survives ?_
  simp only [Script.ofList, Script.play, playStep, lost, Course.andThen]

theorem Survives.tail {r : Reply} (h : Survives (op :: rest) s)
    (first : Completes (op.procedure device) s r t) : Survives rest t := by
  obtain ⟨events, survives⟩ := h
  obtain ⟨later, first⟩ := first events
  refine ⟨[], fun lost => survives ?_⟩
  simp only [Script.ofList, Script.play, playStep, first, Course.andThen]
  exact lost

/-- Two lists and a merge of them, run from states that agree: each list finds its domain as if it
were alone. -/
theorem interleaved_runs {mains options merged : List Operation}
    (interleaved : Interleaves mains options merged)
    (main : ∀ op ∈ mains, op.domain? = some .main ∧ op.Inside)
    (option : ∀ op ∈ options, op.domain? = some .optionBytes) (quiet_x : Quiet x)
    (quiet_y : Quiet y) (quiet_z : Quiet z) (same : SameMain x z) (beside : Beside y z)
    (survives : Survives options y) :
    ∃ u v w xs ys zs, Plays (Script.ofList mains) x xs u ∧ Plays (Script.ofList options) y ys v ∧
      Plays (Script.ofList merged) z zs w ∧ SameMain u w ∧ SameOptions v w := by
  induction interleaved generalizing x y z with
  | nil =>
    exact ⟨x, y, z, [], [], [], plays_done x, plays_done y, plays_done z, same,
      beside.toSameOptions⟩
  | @left op mains options merged rest ih =>
    obtain ⟨⟨here, inside⟩, later⟩ := List.forall_mem_cons.mp main
    have run_x := operation_completes quiet_x op inside fun _ => main_room here
    have run_z := operation_completes quiet_z op inside fun _ => main_room here
    obtain ⟨u, v, w, xs, ys, zs, plays_x, plays_y, plays_z, ends⟩ := ih later option
      (quiet_x.run run_x) quiet_y (quiet_z.run run_z) (same.effect here)
      (beside.trans (effect_beside here z)) survives
    exact ⟨u, v, w, _, ys, _, plays_x.step run_x, plays_y, plays_z.step run_z, ends⟩
  | @right op mains options merged rest ih =>
    obtain ⟨here, later⟩ := List.forall_mem_cons.mp option
    have inside := option_inside here
    have room_z : ∀ d, op.latches? = some d → Offends d z → z.violations + 1 < UInt32.size := by
      intro d latches offends
      have room := survives.room latches (beside.offends offends)
      exact Nat.lt_of_le_of_lt (Nat.succ_le_succ beside.violations) room
    have run_y := operation_completes quiet_y op inside fun _ => survives.room
    have run_z := operation_completes quiet_z op inside room_z
    obtain ⟨u, v, w, xs, ys, zs, plays_x, plays_y, plays_z, ends⟩ := ih main later quiet_x
      (quiet_y.run run_y) (quiet_z.run run_z) (same.trans (effect_sameMain here z))
      (beside.effect here) (survives.tail run_y)
    exact ⟨u, v, w, xs, _, _, plays_x, plays_y.step run_y, plays_z.step run_z, ends⟩

/-- The domains do not interfere. A run of either list alone leaves in its domain what every merge
of the two lists leaves there, and the protection in force is that of the start. -/
theorem domains_separate (h : Reachable s) {mains options merged : List Operation}
    (interleaved : Interleaves mains options merged)
    (main : ∀ op ∈ mains, op.domain? = some .main ∧ op.Inside)
    (option : ∀ op ∈ options, op.domain? = some .optionBytes)
    (survives : ((Script.ofList options).play device id s).halt ≠ some .additionOverflow) :
    ∃ u v w xs ys zs, Plays (Script.ofList mains) s xs u ∧ Plays (Script.ofList options) s ys v ∧
      Plays (Script.ofList merged) s zs w ∧ SameMain u w ∧ SameOptions v w ∧
      w.active = s.active := by
  have quiet := h.quiet
  obtain ⟨u, v, w, xs, ys, zs, plays_u, plays_v, plays_w, same, beside⟩ :=
    interleaved_runs interleaved main option quiet quiet quiet ⟨rfl, rfl, rfl, rfl, rfl⟩ (.refl s)
      ⟨s.events, survives⟩
  obtain ⟨entries, later, run, _⟩ := plays_w _ id s.events
  have active := (play_sameProtected id (Script.ofList merged) s).active
  have run : (Script.ofList merged).play device id s = _ := run
  rw [run] at active
  exact ⟨u, v, w, xs, ys, zs, plays_u, plays_v, plays_w, same, beside, active⟩

end Runs

/-- Option bytes that protect every sector, programmed between an erase and a program operation of
a controller that is busy at first. -/
theorem domains_separate_protecting :
    let s : Simulator .generic := afterAll [
      .access (.key .optionBytes (Domain.firstKey .optionBytes)),
      .access (.key .optionBytes (Domain.secondKey .optionBytes)),
      .control (.setBusy 3)] (withOptionBytes .generic ⟨0xCFFDAAEC⟩)
    let mains : List Operation := [.unlock .main, .eraseSector 5 .x32,
      .programBlockWide ⟨0x08040001, by decide⟩ [1, 2, 3] .x32, .clear .eop]
    let options : List Operation := [.lock .optionBytes, .programOptionBytes ⟨0⟩]
    let merged : List Operation := [.unlock .main, .lock .optionBytes, .eraseSector 5 .x32,
      .programOptionBytes ⟨0⟩, .programBlockWide ⟨0x08040001, by decide⟩ [1, 2, 3] .x32,
      .clear .eop]
    Interleaves mains options merged ∧
      (∀ op ∈ mains, op.domain? = some .main ∧ op.Inside) ∧
      (∀ op ∈ options, op.domain? = some .optionBytes) ∧
      ((Script.ofList options).play .generic id s).halt ≠ some .additionOverflow ∧
      ∃ u v w xs ys zs, Plays (Script.ofList mains) s xs u ∧
        Plays (Script.ofList options) s ys v ∧ Plays (Script.ofList merged) s zs w ∧
        SameMain u w ∧ SameOptions v w ∧ w.active = s.active := by
  intro s mains options merged
  have reachable : Reachable s := (Reachable.start ⟨0xCFFDAAEC⟩).calls _
  have interleaved : Interleaves mains options merged :=
    .left (.right (.left (.right (.left (.left .nil)))))
  have main : ∀ op ∈ mains, op.domain? = some .main ∧ op.Inside := by decide
  have option : ∀ op ∈ options, op.domain? = some .optionBytes := by decide
  have survives : ((Script.ofList options).play .generic id s).halt ≠ some .additionOverflow := by
    decide +kernel
  exact ⟨interleaved, main, option, survives,
    domains_separate reachable interleaved main option survives⟩
end Simulator
end FlashController
