import FlashController.Machine.Recorder
import FlashController.Proofs.Moves
import FlashController.Proofs.Recorder.Pacing
import FlashController.Proofs.Simulator.Operations
import FlashController.Proofs.Steps

/-! Guards lock again. However the body of a guard ends, the main domain is locked once the guard
is gone, and nothing but the lock bit and the key sequence tells that there was a guard. Every guard
that ends reads the control register and writes it back, inner guards first. -/
namespace FlashController

section Closing
variable {σ β : Type} [Machine σ] {look : σ → β} {course : Course σ β} {t : σ}

/-- Closing a guard halts nothing as long as the lock can be written. -/
theorem closeGuard_halt (closes : (Procedure.lock .main).run course.final = .ok () t) :
    (closeGuard look course).halt = course.halt := by
  unfold closeGuard
  rw [closes]
  cases course.halt <;> rfl

end Closing

namespace Simulator
variable {device : Device} {s : Simulator device}

/-- However many guards are closed, the first to go has locked. -/
theorem closeGuards_latched (h : Sound s) (n : Nat) :
    ∃ events, closeGuards (n + 1) s = (latched .main true s).logged events := by
  induction n generalizing s with
  | zero => exact (lockMain_completes h).leaves
  | succ n ih =>
    have sound := h.procedure (Procedure.lock .main)
    obtain ⟨later, left⟩ := (lockMain_completes h).leaves
    rw [left] at sound
    obtain ⟨events, closed⟩ := ih sound
    refine ⟨events, ?_⟩
    rw [closeGuards, left, closed]
    exact congrArg (fun cr => (controlled cr s.unkeyed).logged events) (Contents.set_set _ _ _ _)

/-- A guard is gone: what its body left is as it was, but for the lock and the key sequence. -/
structure Relocked (broken course : Course (Simulator device) (Simulator device)) : Prop where
  halt : course.halt = broken.halt
  locked : course.final.isLocked .main = true
  idle : course.final.mainStage = .idle
  others : ∃ events, course.final = (latched .main true broken.final).logged events

theorem relocked_of_latched {broken course : Course (Simulator device) (Simulator device)}
    (halt : course.halt = broken.halt) (events : List Event)
    (final : course.final = (latched .main true broken.final).logged events) :
    Relocked broken course := by
  constructor
  · exact halt
  · rw [final]
    exact Contents.has_set_self broken.final.cr .lock true
  · rw [final]
    rfl
  · exact ⟨events, final⟩

theorem Quiet.playSteps (h : Quiet s) (look : Simulator device → β) (steps : List (Step Control)) :
    Quiet (FlashController.playSteps device look steps s).final := by
  apply playSteps_keeps
  · exact fun t quiet => quiet.logged []
  · exact fun x t quiet => quiet.act x
  · exact h

theorem guard_relocked (h : Quiet s) (body : Script) :
    Relocked (playSteps device id (.openGuard :: body.steps) s)
      ((Script.guarded body .done).play device id s) := by
  obtain ⟨opened, unlocks⟩ := unlockMain_completes h s.events
  have opens : (.openGuard : Step Control).act device s =
      .ok .opened ((latched .main false s).logged opened) := bind_ok unlocks
  have sound := (h.playSteps id (.openGuard :: body.steps)).toSound
  rw [playSteps_ok opens] at sound ⊢
  rw [Script.play_guarded opens, Script.play_eq]
  generalize playSteps device id body.steps
    (Machine.settle ((latched .main false s).logged opened)) = inside at sound ⊢
  generalize body.guardsAround _ = n
  generalize [(⟨.opened, _⟩ : Entry (Simulator device))] = entries at sound ⊢
  have sound : Sound inside.final := sound
  have unwinding : Sound (closeGuards n inside.final) :=
    closeGuards_keeps (fun t ht => ht.procedure _) n sound
  obtain ⟨later, locks⟩ := lockMain_completes unwinding (closeGuards n inside.final).events
  obtain ⟨events, latches⟩ := closeGuards_latched sound n
  have final := (closeGuard_final id ((inside.unwound n).after entries)).trans
    ((closeGuards_succ n inside.final).symm.trans latches)
  have halt : (closeGuard id ((inside.unwound n).after entries)).halt = inside.halt :=
    closeGuard_halt locks
  generalize closeGuard id ((inside.unwound n).after entries) = closed at final halt ⊢
  cases ended : closed.halt with
  | some e =>
    rw [Course.andThen_halted ended]
    exact relocked_of_latched halt events final
  | none =>
    rw [Course.andThen_whole ended]
    refine relocked_of_latched (ended.symm.trans halt) [] ?_
    show Machine.settle closed.final = _
    rw [final]
    rfl

end Simulator

namespace Recorder

/-- What closing a guard notes: the control register is read, and what was read is written back with
the lock bit set. -/
def relocking (v : Contents .cr) : List Event := [.write .cr (v.set .lock true), .read .cr v]

/-- The newest event is no read of the control register. -/
def Unread (s : Recorder) : Prop := streak .cr s.events = 0

/-- The control register can be read once more. -/
def Short (s : Recorder) : Prop := streak .cr s.events < maxStreak

section
variable {s : Recorder} {r : Register}

theorem Unread.short (h : Unread s) : Short s :=
  Nat.lt_of_le_of_lt (Nat.le_of_eq h) (by decide)

theorem perform_read_short (short : streak r s.events < maxStreak) :
    ∃ v t, Machine.perform (.read r) s = .ok v t ∧ t.events = .read r v :: s.events := by
  refine ⟨_, _, (perform_read r s).trans (if_pos short), ?_⟩
  exact events_answer r s

theorem perform_read_unread (other : r ≠ .cr) (h : Unread s) :
    Unread (leaves (Machine.perform (.read r)) s) := by
  by_cases short : streak r s.events < maxStreak
  · obtain ⟨v, t, run, events⟩ := perform_read_short short
    have apart : Event.isRead .cr (.read r v) = false := beq_eq_false_iff_ne.mpr other
    rw [leaves_ok run, Unread, events, streak, List.takeWhile_cons, apart]
    rfl
  · rw [leaves_error ((perform_read r s).trans (if_neg short))]
    exact h

/-- An update writes right after it has read. -/
theorem update_unread (f : Contents r → Contents r) (h : Unread s) :
    Unread (leaves (Procedure.update r f).run s) := by
  by_cases short : streak r s.events < maxStreak
  · obtain ⟨v, t, run, _⟩ := perform_read_short short
    rw [leaves, Procedure.run_update run]
    rfl
  · have stuck := (perform_read r s).trans (if_neg short)
    have read : (Procedure.read r).run s = _ := (congrFun (Procedure.run_act _) s).trans stuck
    have update : (Procedure.update r f).run s = _ := Procedure.run_bind_error read
    rw [leaves_error update]
    exact h

theorem relock (short : Short s) :
    ∃ v t, (Procedure.lock .main).run s = .ok () t ∧ t.events = relocking v ++ s.events ∧
      Unread t := by
  obtain ⟨v, t, run, events⟩ := perform_read_short short
  refine ⟨v, _, Procedure.run_update run, ?_, rfl⟩
  show .write .cr (v.set .lock true) :: t.events = relocking v ++ s.events
  rw [events]
  rfl

theorem closeGuards_relock (n : Nat) (short : Short s) :
    ∃ values : List (Contents .cr), values.length = n ∧
      (closeGuards n s).events = values.flatMap relocking ++ s.events := by
  induction n generalizing s with
  | zero => exact ⟨[], rfl, rfl⟩
  | succ n ih =>
    obtain ⟨v, t, locks, events, unread⟩ := relock short
    obtain ⟨values, length, closed⟩ := ih unread.short
    refine ⟨values ++ [v], ?_, ?_⟩
    · rw [List.length_append, length]
      rfl
    · rw [closeGuards, leaves_ok locks, closed, events, List.flatMap_append, List.append_assoc]
      rfl

theorem piece_unread {op : Operation} {p : Procedure α} (piece : op.Piece α p)
    (other : op.looks? ≠ some .cr) (h : Unread s) : Unread (leaves p.run s) := by
  have waits : ∀ {r : Register} (ready : Contents r → Bool), r ≠ .cr →
      Unread (leaves (Procedure.readUntil r ready).run s) := by
    intro r ready apart
    rw [leaves, Procedure.run_readUntil]
    exact awaitReady_keeps (P := Unread) (fun _ => perform_read_unread apart) _ s h
  have reads : ∀ {r : Register}, r ≠ .cr → Unread (leaves (Procedure.read r).run s) := by
    intro r apart
    rw [Procedure.read, Procedure.run_act]
    exact perform_read_unread apart h
  cases piece with
  | barrier | write | key | store => exact rfl
  | idle => exact waits _ (by decide)
  | look looks =>
    apply reads
    rintro rfl
    exact other looks
  | read plain =>
    apply reads
    rintro rfl
    rcases plain with plain | plain <;> contradiction
  | update f => exact update_unread f h
  | settled ready => exact waits ready (by decide)

theorem isLocked_short (h : Unread s) :
    Short (leaves (Procedure.isLocked .main).run s) := by
  obtain ⟨v, t, run, events⟩ := perform_read_short h.short
  have read : (Procedure.read .cr).run s = _ := (congrFun (Procedure.run_act _) s).trans run
  have look : leaves (Procedure.isLocked .main).run s = _ :=
    (Procedure.leaves_run_pure _ _ s).trans (leaves_ok read)
  have one : streak .cr (.read .cr v :: s.events) = streak .cr s.events + 1 := rfl
  rw [Short, look, events, one, h]
  decide

theorem operation_short (op : Operation) (h : Unread s) :
    Short (leaves (op.procedure device).run s) := by
  by_cases looks : op.looks? = some .cr
  · -- The answer comes from the control register: its one read is the last access.
    have main : ∀ d : Domain, some d.register = some .cr → d = .main := by
      intro d same
      cases d with
      | main => rfl
      | optionBytes => cases same
    cases op with
    | isLocked d =>
      obtain rfl := main d looks
      have same : leaves ((Operation.isLocked .main).procedure device).run s = _ :=
        Procedure.leaves_run_pure (Procedure.isLocked .main) _ s
      exact same ▸ isLocked_short h
    | ensureUnlocked d =>
      obtain rfl := main d looks
      have same : leaves ((Operation.ensureUnlocked .main).procedure device).run s = _ :=
        (Procedure.leaves_run_pure (Procedure.ensureUnlocked .main) _ s).trans
          (Procedure.leaves_run_pure (Procedure.isLocked .main) _ s)
      exact same ▸ isLocked_short h
    | _ => cases looks
  · have unread : Unread (leaves (op.procedure device).run s) :=
      (op.procedure_composed device).run_keeps
        (fun _ _ _ piece => piece_unread piece looks) h
    exact unread.short

end

section Scripts
variable {device : Device} {past steps : List (Step (Machine.Control Recorder))}
  {x : Step (Machine.Control Recorder)} {s : Recorder}

/-- The last of the steps closes a guard. -/
def Closes (steps : List (Step (Machine.Control Recorder))) : Prop :=
  steps.getLast? = some .closeGuard

theorem closes_append : Closes (past ++ [x]) ↔ x = .closeGuard := by
  rw [Closes, List.getLast?_append, List.getLast?_singleton, Option.some_or, Option.some.injEq]

/-- The step of that number closes a guard. -/
def ClosesAt (steps : List (Step (Machine.Control Recorder))) (k : Nat) : Prop :=
  steps[k]? = some .closeGuard

theorem ClosesAt.take {k : Nat} (h : ClosesAt steps k) : Closes (steps.take (k + 1)) := by
  have closing : steps[k]? = some .closeGuard := h
  rw [List.take_add_one, closing]
  exact closes_append.mpr rfl

/-- Before a step. -/
def Fresh (_ : List (Step (Machine.Control Recorder))) (s : Recorder) : Prop := s.events = []

/-- After a step. -/
def Closed (past : List (Step (Machine.Control Recorder))) (s : Recorder) : Prop :=
  Closes past → ∃ v, s.events = relocking v

/-- After a step that halted. -/
def Broken (past : List (Step (Machine.Control Recorder))) (s : Recorder) : Prop :=
  ¬ Closes past ∧ Short s

theorem Fresh.unread (h : Fresh past s) : Unread s := by
  have empty : s.events = [] := h
  rw [Unread, empty]
  rfl

theorem closeGuard_carries : Carries device Fresh Closed Broken .closeGuard := by
  intro past s fresh
  obtain ⟨v, t, locks, events, _⟩ := relock fresh.unread.short
  have empty : s.events = [] := fresh
  have closes : (.closeGuard : Step (Machine.Control Recorder)).act device s = .ok .closed t :=
    bind_ok locks
  rw [closes]
  intro _
  rw [empty] at events
  exact ⟨v, events⟩

theorem other_carries (other : x ≠ .closeGuard)
    (short : ∀ s, Unread s → Short (leaves (x.act device) s)) :
    Carries device Fresh Closed Broken x := by
  intro past s fresh
  have short := short s fresh.unread
  cases run : x.act device s with
  | ok reply t =>
    intro closes
    exact absurd (closes_append.mp closes) other
  | error e t =>
    constructor
    · exact fun closes => other (closes_append.mp closes)
    · exact leaves_error run ▸ short

theorem script_carries {script : Script} (member : x ∈ script.steps) :
    Carries device Fresh Closed Broken x := by
  obtain ⟨op, rfl⟩ | rfl | rfl := Script.step_cases member
  · exact other_carries nofun fun s unread => operation_short op unread
  · have other : (.openGuard : Step (Machine.Control Recorder)) ≠ .closeGuard := nofun
    apply other_carries other
    intro s unread
    have unlock : (Operation.unlock .main).Composed (.unlock .main) :=
      Operation.unlock_composed rfl rfl
    have kept : Unread (leaves (Procedure.unlock .main).run s) :=
      unlock.run_keeps (fun _ _ _ piece => piece_unread piece nofun) unread
    have same : leaves ((.openGuard : Step (Machine.Control Recorder)).act device) s = _ :=
      leaves_bind_pure (Procedure.unlock .main).run _ s
    exact same ▸ kept.short
  · exact closeGuard_carries

/-- What the ends of guards note in the course of a script, told by the steps of the script. -/
structure Relocks (script : Script) (flat course : Course Recorder Recorder) : Prop where
  entries : course.entries = flat.entries
  halt : course.halt = flat.halt
  /-- A guard whose body is over is closed by a step. -/
  closed : ∀ k e, ClosesAt script.steps k → flat.entries[k]? = some e →
    ∃ v, e.seen.events = relocking v
  /-- Such a step is never what halts. -/
  closes : ∀ h, flat.halt = some h → ¬ ClosesAt script.steps flat.entries.length
  /-- The guards around the step that halted are closed behind it. -/
  unwound : ∃ values : List (Contents .cr),
    values.length = script.guardsAround flat.entries.length ∧
      course.final.events = values.flatMap relocking ++ flat.final.events

theorem script_recounts (device : Device) (script : Script) (empty : s.events = []) :
    Recounts Fresh Closed Broken [] script.steps (playSteps device id script.steps s) := by
  have carries : ∀ x ∈ script.steps, Carries device Fresh Closed Broken x :=
    fun x member => script_carries member
  exact playSteps_recounts (fun _ _ _ => rfl) carries empty

theorem steps_short (script : Script) (empty : s.events = []) :
    Short (playSteps device id script.steps s).final := by
  have told := script_recounts device script empty
  cases ended : (playSteps device id script.steps s).halt with
  | none =>
    have fresh : Fresh _ _ := (told.whole ended).2
    exact fresh.unread.short
  | some h => exact (told.halted h ended).2.2

theorem script_relocks (script : Script) (empty : s.events = []) :
    Relocks script (playSteps device id script.steps s) (script.play device id s) := by
  have told := script_recounts device script empty
  rw [Script.play_eq]
  constructor
  · rfl
  · rfl
  · intro k e closing found
    exact told.entries k e found closing.take
  · intro h halted closing
    exact (told.halted h halted).2.1 closing.take
  · exact closeGuards_relock _ (steps_short script empty)

/-- The state in which the body of a guard begins. -/
def opened (s : Recorder) : Recorder := Machine.settle (leaves (Procedure.unlock .main).run s)

theorem unlock_completes (h : Unread s) :
    (Procedure.unlock .main).run s = .ok () (leaves (Procedure.unlock .main).run s) := by
  obtain ⟨v, t, locks, _⟩ := relock h.short
  have keys : (Procedure.unlock .main).run s = _ := Procedure.run_bind_ok locks
  rw [leaves, keys]
  rfl

/-- When a body halts, its guard is closed after the guards in the body. -/
theorem guard_outermost (body rest : Script) {h : Halt} (empty : s.events = [])
    (halted : (body.play device id (opened s)).halt = some h) :
    ((Script.guarded body rest).play device id s).halt = some h ∧
      ∃ v, ((Script.guarded body rest).play device id s).final.events =
        relocking v ++ (body.play device id (opened s)).final.events := by
  have fresh : Fresh [] s := empty
  have opens : (.openGuard : Step (Machine.Control Recorder)).act device s = .ok .opened _ :=
    bind_ok (unlock_completes fresh.unread)
  have short : Short (body.play device id (opened s)).final := by
    rw [Script.play_eq]
    refine closeGuards_keeps (fun t short => ?_) _ (steps_short body rfl)
    obtain ⟨v, u, locks, _, unread⟩ := relock short
    exact leaves_ok locks ▸ unread.short
  obtain ⟨v, t, locks, events, _⟩ := relock short
  rw [Script.play_guarded_halted opens halted]
  exact ⟨halted, v, (congrArg Recorder.events (leaves_ok locks)).trans events⟩

end Scripts
end Recorder

/-- Every guard locks again, whatever its body is and however it ends. On the simulated controller
the end of the outermost guard leaves the main domain locked and the rest as the body left it. On a
recorder every guard that ends reads the control register and writes it back, the guards in its body
before it. -/
theorem guards_relock (device : Device) :
    (∀ s : Simulator device, Simulator.Reachable s → ∀ body : Script,
      Simulator.Relocked (playSteps device id (.openGuard :: body.steps) s)
        ((Script.guarded body .done).play device id s)) ∧
    ∀ (stored : Bank Contents) (queued : Bank fun r => List (Contents r)),
      let s : Recorder := ⟨stored, queued, []⟩
      (∀ script : Script, Recorder.Relocks script (playSteps device id script.steps s)
        (script.play device id s)) ∧
      ∀ (body rest : Script) (h : Halt),
        (body.play device id (Recorder.opened s)).halt = some h →
          ((Script.guarded body rest).play device id s).halt = some h ∧
          ∃ v, ((Script.guarded body rest).play device id s).final.events =
            Recorder.relocking v ++ (body.play device id (Recorder.opened s)).final.events := by
  constructor
  · intro s reachable body
    exact Simulator.guard_relocked reachable.quiet body
  · intro stored queued s
    constructor
    · exact fun script => Recorder.script_relocks script rfl
    · exact fun body rest h halted => Recorder.guard_outermost body rest rfl halted

/-- A store outside the memory in the inner one of two guards, behind an option key and an operation
of someone else; and an endless wait in as many guards of a recorder. -/
theorem guards_relock_nested :
    let s : Simulator .generic := Simulator.afterAll [
      .access (.key .main (Domain.firstKey .main)),
      .access (.key .main (Domain.secondKey .main)),
      .access (.key .optionBytes (Domain.firstKey .optionBytes)),
      .access (.write .cr ⟨0x00000102⟩),
      .control (.setBusy 5)] (Simulator.new .generic)
    let store : Script := .step (.program ⟨0x08100000, by decide⟩ (.ofByte 7)) .done
    let body : Script := .step (.clear .eop) (.guarded store (.step .status .done))
    let queued : Bank fun r => List (Contents r) :=
      ⟨[⟨0x80000000⟩, ⟨0x1⟩, ⟨0x2⟩], [⟨0⟩], [], []⟩
    let recorder : Recorder := ⟨⟨⟨0⟩, ⟨0x10000⟩, ⟨0⟩, ⟨1⟩⟩, queued, []⟩
    let waiting : Script := .guarded (.guarded (.step .waitUntilIdle (.step .waitUntilIdle .done))
      .done) .done
    Simulator.Reachable s ∧
      (playSteps .generic id (.openGuard :: body.steps) s).halt =
        some (.outsideWindow ⟨0x08100000, by decide⟩) ∧
      Simulator.Relocked (playSteps .generic id (.openGuard :: body.steps) s)
        ((Script.guarded body .done).play .generic id s) ∧
      (playSteps .generic id waiting.steps recorder).halt = some .stuck ∧
      waiting.guardsAround (playSteps .generic id waiting.steps recorder).entries.length = 2 ∧
      Recorder.Relocks waiting (playSteps .generic id waiting.steps recorder)
        (waiting.play .generic id recorder) := by
  intro s store body queued recorder waiting
  have reachable : Simulator.Reachable s := (Simulator.Reachable.start _).calls _
  obtain ⟨simulated, recorded⟩ := guards_relock .generic
  exact ⟨reachable, by decide +kernel, simulated s reachable body, by decide +kernel,
    by decide +kernel, (recorded recorder.stored queued).1 waiting⟩

end FlashController
