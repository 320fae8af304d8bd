import FlashController.Proofs.Moves
import FlashController.Proofs.Relocking
import FlashController.Proofs.Simulator.Erasing

/-! Timing never changes a result. What tells how long operations take can be left out of a state
before a run or after it, as long as nothing looks at the status without waiting and the counter of
violations does not overflow. -/
namespace FlashController.Simulator
variable {device : Device}

/-- A status read that found an operation in progress. -/
def Event.isBusy : Event → Bool
  | .statusRead busy => busy
  | _ => false

/-- The state without all that depends on how long operations take. -/
def untimed (s : Simulator device) : Simulator device := { s with
  busy := 0
  latency := 0
  violations := 0
  events := s.events.filter fun e => !e.isBusy }

/-- One more violation could not be counted. -/
def Full (s : Simulator device) : Prop := ¬ s.violations + 1 < UInt32.size

/-- Leaving the timing out before the action is leaving it out after, unless the counter of
violations is full. -/
def Timeless (act : MachineM (Simulator device) α) (s : Simulator device) : Prop :=
  match act s with
  | .ok a t => act (untimed s) = .ok a (untimed t)
  | .error e t => Full t ∨ act (untimed s) = .error e (untimed t)

section
variable {s t : Simulator device} {act : MachineM (Simulator device) α} {a : α} {e : Halt}

namespace Timeless

theorem of_ok (run : act s = .ok a t) (untimed_run : act (untimed s) = .ok a (untimed t)) :
    Timeless act s := by
  rw [Timeless, run]
  exact untimed_run

theorem of_error (run : act s = .error e t)
    (untimed_run : act (untimed s) = .error e (untimed t)) : Timeless act s := by
  rw [Timeless, run]
  exact .inr untimed_run

theorem of_full (run : act s = .error e t) (full : Full t) : Timeless act s := by
  rw [Timeless, run]
  exact .inl full

theorem ok (h : Timeless act s) (run : act s = .ok a t) : act (untimed s) = .ok a (untimed t) := by
  rwa [Timeless, run] at h

theorem error (h : Timeless act s) (run : act s = .error e t) :
    Full t ∨ act (untimed s) = .error e (untimed t) := by
  rwa [Timeless, run] at h

theorem of_eq {other : MachineM (Simulator device) α} (h : Timeless other t)
    (run : act s = other t) (untimed_run : act (untimed s) = other (untimed t)) :
    Timeless act s := by
  rw [Timeless, run, untimed_run]
  exact h

theorem bind {next : α → MachineM (Simulator device) β} (first : Timeless act s)
    (rest : ∀ a t, act s = .ok a t → Timeless (next a) t) : Timeless (act >>= next) s := by
  cases run : act s with
  | ok a t =>
    have later := rest a t run
    cases ending : next a t with
    | ok b u =>
      refine of_ok ((bind_ok run).trans ending) ?_
      exact (bind_ok (first.ok run)).trans (later.ok ending)
    | error e u =>
      rcases later.error ending with full | halts
      · exact of_full ((bind_ok run).trans ending) full
      · refine of_error ((bind_ok run).trans ending) ?_
        exact (bind_ok (first.ok run)).trans halts
  | error e t =>
    rcases first.error run with full | halts
    · exact of_full (bind_error run) full
    · exact of_error (bind_error run) (bind_error halts)

end Timeless

theorem untimed_untimed (s : Simulator device) : untimed (untimed s) = untimed s := by
  simp only [untimed, List.filter_filter, Bool.and_self]

theorem untimed_note {e : Event} (calm : e.isBusy = false) (s : Simulator device) :
    untimed (note e s) = note e (untimed s) := by
  simp only [untimed, note, List.filter_cons, calm, Bool.not_false, if_true]

theorem untimed_waited (s : Simulator device) :
    untimed (waited s) = note (.statusRead false) (untimed s) := by
  have reads : (List.replicate s.busy (Event.statusRead true)).filter (fun e => !e.isBusy) = [] :=
    List.filter_replicate_of_neg nofun
  have older : untimed { s with events := List.replicate s.busy (.statusRead true) ++ s.events } =
      untimed s := by
    simp only [untimed, List.filter_append, reads, List.nil_append]
  exact (untimed_note (e := .statusRead false) rfl _).trans (congrArg (note _) older)

theorem untimed_erased (v : Contents .cr) (s : Simulator device) :
    untimed (erased v s) = erased v (untimed s) := by
  rw [erased_eq, erased_eq]
  rfl

theorem untimed_acceptControl (v : Contents .cr) (s : Simulator device) :
    untimed (acceptControl v s) = acceptControl v (untimed s) := by
  have starts : ∀ t : Simulator device,
      untimed (triggerErase v t) = triggerErase v (untimed t) := by
    intro t
    rw [triggerErase_eq, triggerErase_eq, ← untimed_erased]
    rfl
  have same : (untimed s).cr = s.cr := rfl
  simp only [acceptControl, same]
  split
  · exact starts _
  · rfl

theorem untimed_acceptOptions (v : Contents .optcr) (s : Simulator device) :
    untimed (acceptOptions v s) = acceptOptions v (untimed s) := by
  simp only [acceptOptions]
  split <;> rfl

theorem untimed_burn (offset : Nat) (w : Word) (s : Simulator device) :
    untimed (burn offset w s) = burn offset w (untimed s) := by
  have same : (untimed s).memory = s.memory := rfl
  simp only [burn, same]
  split <;> rfl

section Perform

theorem writeControl_timeless (v : Contents .cr) (s : Simulator device) :
    Timeless (writeRegister .cr v) s := by
  have noted : untimed (note (.write .cr v) s) = note (.write .cr v) (untimed s) :=
    untimed_note rfl s
  cases lock : s.isLocked .main with
  | true =>
    have lock' : (untimed s).isLocked .main = true := lock
    exact .of_ok (writeControl_locked lock) (writeControl_locked lock')
  | false =>
    have lock' : (untimed s).isLocked .main = false := lock
    -- Without its timing the controller is idle, so there is nothing to disturb.
    have calm' := writeControl_calm (v := v) lock' fun disturbs => disturbs.1 rfl
    rw [← noted, ← untimed_acceptControl] at calm'
    by_cases disturbs : Disturbs v s
    · have written := writeControl_disturbing lock disturbs
      by_cases room : s.violations + 1 < UInt32.size
      · rw [if_pos room] at written
        refine .of_ok written (calm'.trans (congrArg (EStateM.Result.ok ()) ?_))
        rw [untimed_acceptControl, untimed_acceptControl]
        rfl
      · rw [if_neg room] at written
        exact .of_full written room
    · exact .of_ok (writeControl_calm lock disturbs) calm'

theorem writeOptions_timeless (v : Contents .optcr) (s : Simulator device) :
    Timeless (writeRegister .optcr v) s := by
  have noted : untimed (note (.write .optcr v) s) = note (.write .optcr v) (untimed s) :=
    untimed_note rfl s
  cases lock : s.isLocked .optionBytes with
  | true =>
    have lock' : (untimed s).isLocked .optionBytes = true := lock
    exact .of_ok (writeOptions_locked lock) (writeOptions_locked lock')
  | false =>
    have lock' : (untimed s).isLocked .optionBytes = false := lock
    have idle' := writeOptions_idle (v := v) lock' rfl
    rw [← noted, ← untimed_acceptOptions] at idle'
    by_cases idle : s.busy = 0
    · exact .of_ok (writeOptions_idle lock idle) idle'
    · have written := writeOptions_busy (v := v) lock idle
      by_cases room : s.violations + 1 < UInt32.size
      · rw [if_pos room] at written
        refine .of_ok written (idle'.trans (congrArg (EStateM.Result.ok ()) ?_))
        rw [untimed_acceptOptions, untimed_acceptOptions]
        rfl
      · rw [if_neg room] at written
        exact .of_full written room

theorem settleStore_timeless (a : Address) (w : Word) (s : Simulator device) :
    Timeless (settleStore a w) s := by
  by_cases inside : InWindow a
  · cases lock : s.isLocked .main with
    | true =>
      have lock' : (untimed s).isLocked .main = true := lock
      exact .of_ok (settleStore_locked inside lock) (settleStore_locked inside lock')
    | false =>
      have lock' : (untimed s).isLocked .main = false := lock
      cases error : storeError? a w s with
      | some f =>
        have error' : storeError? a w (untimed s) = some f := error
        exact .of_ok (settleStore_refused inside lock error)
          (settleStore_refused inside lock' error')
      | none =>
        have error' : storeError? a w (untimed s) = none := error
        have accepted := settleStore_accepted inside lock error
        have accepted' := settleStore_accepted inside lock' error'
        by_cases fits : a.toNat - flashStart + w.width.bytes ≤ s.memory.size
        · have fits' : a.toNat - flashStart + w.width.bytes ≤ (untimed s).memory.size := fits
          rw [if_pos fits] at accepted
          rw [if_pos fits', ← untimed_burn] at accepted'
          exact .of_ok accepted accepted'
        · have fits' : ¬ a.toNat - flashStart + w.width.bytes ≤ (untimed s).memory.size := fits
          rw [if_neg fits] at accepted
          rw [if_neg fits'] at accepted'
          exact .of_error accepted accepted'
  · exact .of_error (settleStore_outside inside) (settleStore_outside inside)

theorem storeWord_timeless (a : Address) (w : Word) (s : Simulator device) :
    Timeless (storeWord a w) s := by
  have idle' : storeWord a w (untimed s) = settleStore a w (untimed (note (.store a w.width) s)) :=
    storeWord_idle rfl
  by_cases idle : s.busy = 0
  · exact (settleStore_timeless a w _).of_eq (storeWord_idle idle) idle'
  · have stored := storeWord_busy (a := a) (w := w) idle
    by_cases room : s.violations + 1 < UInt32.size
    · rw [if_pos room] at stored
      exact (settleStore_timeless a w _).of_eq stored idle'
    · rw [if_neg room] at stored
      exact .of_full stored room

/-- Any access but a look at the status. -/
theorem perform_timeless {a : Access} (other : a ≠ .read .sr) (s : Simulator device) :
    Timeless (Machine.perform a) s := by
  cases a with
  | read r =>
    cases r with
    | cr | acr | optcr => exact .of_ok rfl rfl
    | sr => exact absurd rfl other
  | barrier => exact .of_ok rfl rfl
  | key d k => cases d <;> exact .of_ok rfl rfl
  | store a w => exact storeWord_timeless a w s
  | write r v =>
    cases r with
    | cr => exact writeControl_timeless v s
    | optcr => exact writeOptions_timeless v s
    | acr | sr => exact .of_ok rfl rfl

end Perform

section Procedures
variable {p : Procedure α} {op : Operation}

theorem waitIdle_timeless (clear : s.flags.has .bsy = false) :
    Timeless (Procedure.readUntil .sr fun v => !v.has .bsy).run s := by
  have waits : ∀ t : Simulator device, t.flags.has .bsy = false →
      (Procedure.readUntil .sr fun v => !v.has .bsy).run t = .ok t.flags (waited t) :=
    fun t clear => (Procedure.run_readUntil _ _ t).trans (awaitReady_idle clear (Nat.le_refl _))
  have waits' := waits (untimed s) clear
  rw [waited_idle rfl, ← untimed_waited] at waits'
  exact .of_ok (waits s clear) waits'

/-- Wait states are there at once or never, so patience does not matter. -/
theorem awaitReady_access (ready : Contents .acr → Bool) (n : Nat) (s : Simulator device) :
    awaitReady .acr ready (n + 1) s = if ready s.acr then .ok s.acr s else .error .stuck s := by
  have read : (Machine.perform (.read .acr) : MachineM (Simulator device) _) s = .ok s.acr s := rfl
  induction n with
  | zero =>
    refine (bind_ok read).trans ?_
    cases ready s.acr <;> rfl
  | succ n ih =>
    refine (bind_ok read).trans ?_
    cases settled : ready s.acr with
    | true => rfl
    | false =>
      rw [settled] at ih
      exact ih

theorem waitAccess_timeless (ready : Contents .acr → Bool) (s : Simulator device) :
    Timeless (Procedure.readUntil .acr ready).run s := by
  have waits : ∀ t : Simulator device, (Procedure.readUntil .acr ready).run t =
      if ready t.acr then .ok t.acr t else .error .stuck t :=
    fun t => (Procedure.run_readUntil _ _ t).trans (awaitReady_access ready _ t)
  have waits' : (Procedure.readUntil .acr ready).run (untimed s) =
      if ready s.acr then .ok s.acr (untimed s) else .error .stuck (untimed s) := waits (untimed s)
  have waits := waits s
  cases settled : ready s.acr with
  | true =>
    rw [settled] at waits waits'
    exact .of_ok waits waits'
  | false =>
    rw [settled] at waits waits'
    exact .of_error waits waits'

/-- Procedures that only wait for the status. -/
theorem run_timeless (h : p.Makes op.makes) (blind : op.looks? ≠ some .sr) (sound : Sound s) :
    Timeless p.run s := by
  induction p generalizing s with
  | result a => exact .of_ok rfl rfl
  | halt e => exact .of_error rfl rfl
  | act a next ih =>
    have other : a ≠ .read .sr := by
      rintro rfl
      exact blind (h.1 rfl)
    refine (perform_timeless other s).bind fun x t run => ih x (h.2 x) ?_
    exact leaves_ok run ▸ sound.perform a
  | await r ready next ih =>
    have waits : Timeless (Procedure.readUntil r ready).run s := by
      cases r with
      | cr | optcr => exact absurd h.1 id
      | acr => exact waitAccess_timeless ready s
      | sr =>
        obtain rfl : ready = fun v => !v.has .bsy := h.1
        exact waitIdle_timeless sound.busy_clear
    show Timeless (Procedure.readUntil r ready >>= next).run s
    rw [Procedure.run_bind]
    refine waits.bind fun v t run => ih v (h.2 v) ?_
    exact leaves_ok run ▸ sound.procedure (Procedure.readUntil r ready)

theorem lockMain_timeless (sound : Sound s) : Timeless (Procedure.lock .main).run s := by
  have lock : (Operation.lock .main).Composed (.lock .main) := Operation.lock_composed rfl
  exact run_timeless (lock.makes fun _ _ => Operation.Piece.makes) nofun sound

theorem unlockMain_timeless (sound : Sound s) : Timeless (Procedure.unlock .main).run s := by
  have unlock : (Operation.unlock .main).Composed (.unlock .main) :=
    Operation.unlock_composed rfl rfl
  exact run_timeless (unlock.makes fun _ _ => Operation.Piece.makes) nofun sound

end Procedures

section Scripts
variable {steps : List (Step Control)} {script : Script}

theorem step_timeless {x : Step Control} (member : x ∈ script.steps)
    (blind : ∀ op, .operate op ∈ (script.steps : List (Step Control)) →
      op ≠ .pollIdle ∧ op ≠ .status) (sound : Sound s) : Timeless (x.act device) s := by
  obtain ⟨op, rfl⟩ | rfl | rfl := Script.step_cases member
  · obtain ⟨polls, reads⟩ := blind op member
    refine run_timeless (op.procedure_makes device) ?_ sound
    intro looks
    cases op with
    | pollIdle => exact polls rfl
    | status => exact reads rfl
    | isLocked d | ensureUnlocked d => cases d <;> cases looks
    | _ => cases looks
  · exact (unlockMain_timeless sound).bind fun _ _ _ => .of_ok rfl rfl
  · exact (lockMain_timeless sound).bind fun _ _ _ => .of_ok rfl rfl

/-- The course with the timing left out of its end too. -/
def untimedEnd (course : Course (Simulator device) β) : Course (Simulator device) β :=
  { course with final := untimed course.final }

theorem playSteps_timeless
    (timeless : ∀ x ∈ steps, ∀ s : Simulator device, Quiet s → Timeless (x.act device) s)
    (h : Quiet s) (room : ¬ Full (playSteps device untimed steps s).final) :
    playSteps device untimed steps (untimed s) =
      untimedEnd (playSteps device untimed steps s) := by
  induction steps generalizing s with
  | nil => rfl
  | cons x rest ih =>
    obtain ⟨here, later⟩ := List.forall_mem_cons.mp timeless
    cases run : x.act device s with
    | ok reply t =>
      have quiet : Quiet t := leaves_ok run ▸ h.act x
      rw [playSteps_ok run] at room ⊢
      rw [playSteps_ok ((here s h).ok run), untimed_untimed]
      exact congrArg (Course.after · _) (ih later (quiet.logged []) room)
    | error e t =>
      rw [playSteps_error run] at room ⊢
      rcases (here s h).error run with full | halts
      · exact absurd full room
      · exact playSteps_error halts

theorem closeGuards_timeless (h : Sound s) (n : Nat) :
    closeGuards n (untimed s) = untimed (closeGuards n s) := by
  induction n generalizing s with
  | zero => rfl
  | succ n ih =>
    have sound := h.procedure (Procedure.lock .main)
    obtain ⟨later, run⟩ := lockMain_completes h s.events
    have run : (Procedure.lock .main).run s = _ := run
    rw [leaves_ok run] at sound
    rw [closeGuards, closeGuards, leaves_ok run, leaves_ok ((lockMain_timeless h).ok run)]
    exact ih sound

theorem closeGuards_violations (h : Sound s) (n : Nat) :
    (closeGuards n s).violations = s.violations := by
  cases n with
  | zero => rfl
  | succ n =>
    obtain ⟨events, latches⟩ := closeGuards_latched h n
    rw [latches]
    rfl

/-- A script tells the same of a state without its timing. -/
theorem play_timeless (h : Quiet s)
    (blind : ∀ op, .operate op ∈ (script.steps : List (Step Control)) →
      op ≠ .pollIdle ∧ op ≠ .status)
    (room : (script.play device untimed s).final.violations + 1 < UInt32.size) :
    script.play device untimed (untimed s) = untimedEnd (script.play device untimed s) := by
  have sound := (h.playSteps untimed script.steps).toSound
  -- The bound is on the end of the script, but closing guards counts no violation.
  have counted : ¬ Full (playSteps device untimed script.steps s).final := by
    rw [Script.play_eq] at room
    intro full
    apply full
    exact (closeGuards_violations sound _) ▸ room
  have timeless : ∀ x ∈ script.steps, ∀ t : Simulator device, Quiet t →
      Timeless (x.act device) t :=
    fun x member t quiet => step_timeless member blind quiet.toSound
  have flat := playSteps_timeless timeless h counted
  rw [Script.play_eq, Script.play_eq, flat]
  simp only [untimedEnd, Course.unwound, closeGuards_timeless sound]

/-- How long operations take changes no result. Two runs that differ in their timing only, and in
what was counted before, agree after every step, and they halt at the same one if they halt. -/
theorem timing_irrelevant {s t : Simulator device} (hs : Reachable s) (ht : Reachable t)
    (agree : untimed s = untimed t) {script : Script}
    (blind : ∀ op, .operate op ∈ (script.steps : List (Step Control)) →
      op ≠ .pollIdle ∧ op ≠ .status) :
    let first := script.play device untimed s
    let second := script.play device untimed t
    first.final.violations + 1 < UInt32.size → second.final.violations + 1 < UInt32.size →
      first.entries = second.entries ∧ first.halt = second.halt ∧
        untimed first.final = untimed second.final := by
  intro first second room room'
  have same : untimedEnd first = untimedEnd second := by
    have timeless := play_timeless hs.quiet blind room
    rw [agree] at timeless
    exact timeless.symm.trans (play_timeless ht.quiet blind room')
  have entries : first.entries = second.entries := congrArg (fun c => c.entries) same
  have halt : first.halt = second.halt := congrArg (fun c => c.halt) same
  have final : untimed first.final = untimed second.final := congrArg Course.final same
  exact ⟨entries, halt, final⟩

/-- An idle controller that finishes at once, and one that an operation was started on behind its
back, with two violations counted. The store below the memory halts both inside two guards. -/
theorem timing_irrelevant_halted :
    let calls : List Call := [
      .access (.key .main (Domain.firstKey .main)),
      .access (.key .main (Domain.secondKey .main)),
      .control (.setFlags ⟨0x10⟩),
      .settle]
    let late : List Call := [
      .control (.setLatency 5),
      .control (.setBusy 9),
      .access (.write .cr ⟨1⟩),
      .access (.write .cr ⟨0⟩),
      .settle]
    let s : Simulator .generic := afterAll calls (new .generic)
    let t := afterAll late s
    let script : Script := .guarded
      (.step (.eraseSector 1 .x32) (.guarded
        (.step (.programOptionBytes ⟨7⟩)
          (.step (.program ⟨0x07FFFFFF, by decide⟩ (.ofByte 7)) .done))
        .done))
      .done
    let first := script.play .generic untimed s
    let second := script.play .generic untimed t
    (s.busy = 0 ∧ t.busy = 9) ∧ (s.latency = 3 ∧ t.latency = 5) ∧
      (s.violations = 0 ∧ t.violations = 2) ∧
      first.halt = some (.outsideWindow ⟨0x07FFFFFF, by decide⟩) ∧ first.entries.length = 4 ∧
      first.entries = second.entries ∧ first.halt = second.halt ∧
        untimed first.final = untimed second.final := by
  intro calls late s t script first second
  have reachable : Reachable s := (Reachable.start _).calls _
  have agree : untimed s = untimed t := by
    simp only [s, t, calls, late, afterAll, List.foldl]
    rfl
  have blind : ∀ op, .operate op ∈ (script.steps : List (Step Control)) →
      op ≠ .pollIdle ∧ op ≠ .status := by
    simp [script, Script.steps]
  exact ⟨by decide, by decide, by decide, by decide +kernel, by decide +kernel,
    timing_irrelevant reachable (reachable.calls late) agree blind (by decide +kernel)
      (by decide +kernel)⟩

end Scripts

end
end FlashController.Simulator
