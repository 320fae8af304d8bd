import FlashController.Proofs.Script
import FlashController.Proofs.Simulator.Locking
import FlashController.Proofs.Simulator.Words

/-! What each operation of the driver does to the simulated controller, as a function of the state.
Operations complete in every state between calls; only a counter that is full can halt one. -/
namespace FlashController

namespace Operation
open Simulator

/-- All that the operation stores at lies in the simulated memory. -/
def Inside : Operation → Prop
  | .program a _ => InWindow a
  | .programBlock a data | .programBlockWide a data _ => data ≠ [] → Within a data.length
  | _ => True

instance (a : Address) (n : Nat) : Decidable (Within a n) :=
  inferInstanceAs (Decidable (_ ∧ _))

instance : (op : Operation) → Decidable op.Inside
  | .program a _ => inferInstanceAs (Decidable (InWindow a))
  | .programBlock a data | .programBlockWide a data _ =>
    inferInstanceAs (Decidable (data ≠ [] → Within a data.length))
  | .waitUntilIdle | .pollIdle | .lock _ | .unlock _ | .isLocked _ | .ensureUnlocked _
  | .eraseAll _ | .eraseSector _ _ | .programOptionBytes _ | .optionBytes | .status | .clear _
  | .clearStatus | .setWaitStates _ | .setPrefetch _ | .setAccelerator _ | .resetAccelerator =>
    inferInstanceAs (Decidable True)

/-- The domain whose lock bit the operation sets before it waits. -/
def latches? : Operation → Option Domain
  | .lock d | .unlock d => some d
  | _ => none

end Operation

namespace Simulator
variable {device : Device}

/-- An erase with all that comes before and after it. -/
def wiped (w : Width) (select deselect : Contents .cr → Contents .cr)
    (s : Simulator device) : Simulator device :=
  if s.isLocked .main then s.rested.unkeyed
  else controlled (deselect (select (s.cr.setProgramWidth w)))
    (erased (starting w select s.cr) s).rested

/-- One status read brings the operation in progress closer to its end. -/
def polled (s : Simulator device) : Simulator device := { s with busy := s.busy - 1 }

/-- The accelerator's reset line is never read back as set. -/
def accelerated (f : Contents .acr → Contents .acr) (s : Simulator device) : Simulator device :=
  { s with acr := (f s.acr).set .artrst false }

def effect : Operation → Simulator device → Simulator device
  | .waitUntilIdle, s => s.rested
  | .pollIdle, s | .status, s => polled s
  | .lock d, s => latched d true (charged d s)
  | .unlock d, s => latched d false (charged d s)
  | .isLocked _, s | .ensureUnlocked _, s | .optionBytes, s => s
  | .eraseAll w, s => wiped w (·.set .mer true) (·.set .mer false) s
  | .eraseSector n w, s =>
    wiped w (fun v => (v.setSector device n.toNat).set .ser true)
      (fun v => (v.set .ser false).setSector device 0) s
  | .program a w, s => programmed w.width (stored a w) s
  | .programBlock a data, s => wordsProgrammed a (data.map Word.ofByte) s
  | .programBlockWide a data limit, s => wordsProgrammed a (tile a.toNat data limit) s
  | .programOptionBytes v, s => optioned v s
  | .clear c, s => { s with flags := s.flags.set c.flag false }
  | .clearStatus, s => cleared s
  | .setWaitStates n, s => accelerated (·.setLatency n.toNat) s
  | .setPrefetch on, s => accelerated (·.set .prften on) s
  | .setAccelerator on, s => accelerated (·.set .arten on) s
  | .resetAccelerator, s => accelerated id s

def answer : Operation → Simulator device → Reply
  | .pollIdle, s => .idle (s.busy == 0)
  | .isLocked d, s => .locked (s.isLocked d)
  | .ensureUnlocked d, s => .unlocked (if s.isLocked d then .error .locked else .ok ())
  | .optionBytes, s => .parts .optcr s.optcr
  | .status, s => .parts .sr (pollStatus s).1
  | _, _ => .done

section
variable {s : Simulator device}

theorem Completes.map {p : Procedure α} {t : Simulator device} {a : α} (f : α → β)
    (run : Completes p s a t) : Completes (f <$> p) s (f a) t := by
  rw [map_eq_pure_bind]
  exact run.bind (completes_pure _ t)

theorem Completes.silent {p : Procedure Unit} {t : Simulator device} (run : Completes p s () t) :
    Completes (Operation.procedure.silent p) s .done t := run.map _

theorem pollStatus_completes (s : Simulator device) :
    Completes (Procedure.read .sr) s (pollStatus s).1 (polled s) := by
  intro events
  have polls := (congrFun (Procedure.run_act (.read .sr)) (s.logged events)).trans
    (perform_status (s.logged events))
  by_cases idle : s.busy = 0
  · have same : s.busy - 1 = s.busy := by omega
    refine ⟨.statusRead false :: events, polls.trans ?_⟩
    simp only [pollStatus, if_pos idle, polled, same]
    rfl
  · refine ⟨.statusRead true :: events, polls.trans ?_⟩
    simp only [pollStatus, if_neg idle]
    rfl

theorem barrier_completes (s : Simulator device) : Completes Procedure.barrier s () s :=
  fun events => ⟨.barrier :: events, rfl⟩

theorem pollStatus_busy (clear : s.flags.has .bsy = false) :
    (!(pollStatus s).1.has .bsy) = (s.busy == 0) := by
  by_cases idle : s.busy = 0
  · simp [pollStatus, idle, clear]
  · simp [pollStatus, idle]

theorem pollIdle_completes (clear : s.flags.has .bsy = false) :
    Completes Procedure.pollIdle s (s.busy == 0) (polled s) := by
  rw [← pollStatus_busy clear]
  exact (barrier_completes s).bind ((pollStatus_completes s).bind (completes_pure _ _))

theorem writeAccess_completes (v : Contents .acr) (s : Simulator device) :
    Completes (Procedure.write v) s () { s with acr := v.set .artrst false } :=
  fun events => ⟨events, congrFun (Procedure.run_act _) _⟩

theorem readAccess_completes (s : Simulator device) : Completes (Procedure.read .acr) s s.acr s :=
  read_completes fun _ => rfl

theorem updateAccess_completes (f : Contents .acr → Contents .acr) (s : Simulator device) :
    Completes (Procedure.update .acr f) s () (accelerated f s) :=
  (readAccess_completes s).bind (writeAccess_completes (f s.acr) s)

/-- The number is read back at once, since the reset line is no part of it. -/
theorem setWaitStates_completes (n : UInt8) (s : Simulator device) :
    Completes (Procedure.setWaitStates n) s () (accelerated (·.setLatency n.toNat) s) := by
  have same : ((s.acr.setLatency n.toNat).set .artrst false).latency =
      (s.acr.setLatency n.toNat).latency := Contents.field_put (by decide)
  have await : Completes (Procedure.readUntil .acr fun u =>
      u.latency == (s.acr.setLatency n.toNat).latency) (accelerated (·.setLatency n.toNat) s)
      ((s.acr.setLatency n.toNat).set .artrst false) (accelerated (·.setLatency n.toNat) s) := by
    intro events
    refine ⟨events, (Procedure.run_readUntil _ _ _).trans ?_⟩
    exact (bind_ok rfl).trans (congrFun (if_pos (beq_iff_eq.mpr same)) _)
  exact (readAccess_completes s).bind ((writeAccess_completes _ s).bind
    (await.bind (completes_pure _ _)))

/-- Lowering the reset line again leaves it as it always is. -/
theorem resetAccelerator_completes (s : Simulator device) :
    Completes Procedure.resetAccelerator s () (accelerated id s) := by
  have lowered : accelerated id s =
      { s with acr := ((s.acr.set .artrst true).set .artrst false).set .artrst false } := by
    rw [Contents.set_set, Contents.set_set]
    rfl
  rw [lowered]
  exact (readAccess_completes s).bind ((writeAccess_completes _ s).bind
    (writeAccess_completes _ _))

section Erase
variable {w : Width} {select deselect : Contents .cr → Contents .cr}

theorem wiped_locked (locked : s.isLocked .main = true) :
    wiped w select deselect s = s.rested.unkeyed := if_pos locked

theorem wiped_unlocked (unlocked : s.isLocked .main = false) :
    wiped w select deselect s = controlled (deselect (select (s.cr.setProgramWidth w)))
      (erased (starting w select s.cr) s).rested := if_neg (Bool.eq_false_iff.mp unlocked)

theorem erase_completes (h : Sound s) (selects : Harmless select) (deselects : Harmless deselect) :
    Completes (Procedure.erase w select deselect) s () (wiped w select deselect s) := by
  cases lock : s.isLocked .main with
  | true =>
    rw [wiped_locked lock]
    exact erase_locked h lock w selects deselects
  | false =>
    rw [wiped_unlocked lock]
    exact erase_unlocked h lock w selects deselects

end Erase

theorem programBlock_completes (h : Sound s) {a : Address} {data : List UInt8}
    (within : data ≠ [] → Within a data.length) :
    Completes (Procedure.programBlock a data) s () (wordsProgrammed a (data.map Word.ofByte) s) :=
  programBytes_completes h (Address.ofNat?_eq_some_iff.mpr rfl) within

theorem programBlockWide_completes (h : Sound s) {a : Address} {data : List UInt8}
    (within : data ≠ [] → Within a data.length) (limit : Width) :
    Completes (Procedure.programBlockWide a data limit) s ()
      (wordsProgrammed a (tile a.toNat data limit) s) := by
  refine programWords_completes h (aligned_tile _ _ _) fun some => ?_
  rw [bytes_tile]
  refine within fun empty => some ?_
  rw [empty, tile]

/-- Every operation of the driver completes with its effect. One that sets the lock bit of the
option bytes may find the counter of violations full. -/
theorem operation_completes (h : Quiet s) (op : Operation) (inside : op.Inside)
    (room : ∀ d, op.latches? = some d → Offends d s → s.violations + 1 < UInt32.size) :
    Completes (op.procedure device) s (answer op s) (effect op s) := by
  have sound := h.toSound
  cases op with
  | waitUntilIdle => exact (waitUntilIdle_completes h.busy_clear).silent
  | pollIdle => exact (pollIdle_completes h.busy_clear).map _
  | lock d => exact (lock_completes h d (room d rfl)).silent
  | unlock d => exact (unlock_completes h d (room d rfl)).silent
  | isLocked d => exact (isLocked_completes d s).map _
  | ensureUnlocked d =>
    have ensure : Completes (Procedure.ensureUnlocked d) s
        (if s.isLocked d then .error .locked else .ok ()) s :=
      (isLocked_completes d s).bind (completes_pure _ s)
    exact ensure.map Reply.unlocked
  | eraseAll w => exact (erase_completes sound (harmless_mass true) (harmless_mass false)).silent
  | eraseSector n w =>
    exact (erase_completes sound (harmless_selectSector device n.toNat)
      (harmless_deselectSector device)).silent
  | program a w => exact (program_completes sound inside w).silent
  | programBlock a data => exact (programBlock_completes sound inside).silent
  | programBlockWide a data limit => exact (programBlockWide_completes sound inside limit).silent
  | programOptionBytes v => exact (programOptionBytes_completes h v).silent
  | optionBytes => exact (read_completes fun _ => rfl).map _
  | status => exact (pollStatus_completes s).map _
  | clear c => exact (clear_completes c s).silent
  | clearStatus => exact (clearStatus_completes s).silent
  | setWaitStates n => exact (setWaitStates_completes n s).silent
  | setPrefetch on => exact (updateAccess_completes _ s).silent
  | setAccelerator on => exact (updateAccess_completes _ s).silent
  | resetAccelerator => exact (resetAccelerator_completes s).silent

end

section Steps
variable {s : Simulator device}

/-- What the driver does, with all it stores inside the memory, and what can be done around it
without disturbing it. -/
def Driven : Step Control → Prop
  | .operate op => op.Inside
  | .openGuard | .closeGuard | .control .reset | .control (.setLatency _) => True
  | _ => False

instance : (x : Step Control) → Decidable (Driven x)
  | .operate op => inferInstanceAs (Decidable op.Inside)
  | .openGuard | .closeGuard | .control .reset | .control (.setLatency _) =>
    inferInstanceAs (Decidable True)
  | .access _ | .control (.setBusy _) | .control (.setFlags _) | .control (.fill _ _ _)
  | .control (.read _ _) | .control (.readWord _ _) => inferInstanceAs (Decidable False)

def advanced : Step Control → Simulator device → Simulator device
  | .operate op, s => effect op s
  | .openGuard, s => latched .main false s
  | .closeGuard, s => latched .main true s
  | .control .reset, s => reset s
  | .control (.setLatency reads), s => { s with latency := reads }
  | _, s => s

def response : Step Control → Simulator device → Reply
  | .operate op, s => answer op s
  | .openGuard, _ => .opened
  | .closeGuard, _ => .closed
  | _, _ => .done

theorem Quiet.act (h : Quiet s) (x : Step Control) : Quiet (leaves (x.act device) s) :=
  x.act_keeps (fun a _ h => h.perform a) (fun c _ h => h.control c) h

/-- Every step of a driven session completes. -/
theorem driven_completes (h : Quiet s) {x : Step Control} (driven : Driven x)
    (room : ∀ op d, x = .operate op → op.latches? = some d → Offends d s →
      s.violations + 1 < UInt32.size) :
    ∃ later, x.act device s = .ok (response x s) ((advanced x s).logged later) := by
  cases x with
  | operate op => exact operation_completes h op driven (fun d => room op d rfl) s.events
  | openGuard =>
    obtain ⟨later, run⟩ := unlockMain_completes h s.events
    exact ⟨later, bind_ok run⟩
  | closeGuard =>
    obtain ⟨later, run⟩ := lockMain_completes h.toSound s.events
    exact ⟨later, bind_ok run⟩
  | access a => exact absurd driven id
  | control c =>
    cases c with
    | reset | setLatency => exact ⟨s.events, rfl⟩
    | setBusy | setFlags | fill | read | readWord => exact absurd driven id

end Steps

/-- A script completes with some replies in a state, whatever was and will be noted. -/
def Plays (script : Script) (s : Simulator device) (replies : List Reply) (t : Simulator device) :
    Prop :=
  ∀ (β : Type) (look : Simulator device → β) (events : List Event), ∃ entries later,
    script.play device look (s.logged events) = ⟨entries, none, t.logged later⟩ ∧
      entries.map Entry.reply = replies

section Scripts
variable {s t u : Simulator device} {body rest : Script} {replies more : List Reply}

theorem plays_done (s : Simulator device) : Plays .done s [] s :=
  fun _ _ events => ⟨[], events, rfl, rfl⟩

theorem Plays.step {op : Operation} {r : Reply} (first : Completes (op.procedure device) s r t)
    (later : Plays rest t replies u) : Plays (.step op rest) s (r :: replies) u := by
  intro β look events
  obtain ⟨middle, first⟩ := first events
  obtain ⟨entries, final, run, replied⟩ := later β look []
  refine ⟨⟨r, look (t.logged middle)⟩ :: entries, final, ?_, congrArg (r :: ·) replied⟩
  have settled : Machine.settle (t.logged middle) = t.logged [] := rfl
  simp only [Script.play, playStep, first, Course.andThen, settled, run, Course.after]
  rfl

/-- A guard unlocks the main domain, and locks it after its body. -/
theorem Plays.guarded (quiet : Quiet s) (inside : Plays body (latched .main false s) replies t)
    (sound : Sound t) (later : Plays rest (latched .main true t) more u) :
    Plays (.guarded body rest) s (.opened :: (replies ++ .closed :: more)) u := by
  intro β look events
  obtain ⟨opened, unlock⟩ := unlockMain_completes quiet events
  obtain ⟨entries, ended, run, replied⟩ := inside β look []
  obtain ⟨closed, lock⟩ := lockMain_completes sound ended
  obtain ⟨others, final, run', replied'⟩ := later β look []
  refine ⟨⟨.opened, look ((latched .main false s).logged opened)⟩ :: (entries ++
    ⟨.closed, look ((latched .main true t).logged closed)⟩ :: others), final, ?_, ?_⟩
  · have opening : playStep look (do (Procedure.unlock .main).run; return .opened)
        (s.logged events) = ⟨[⟨.opened, look ((latched .main false s).logged opened)⟩], none,
          (latched .main false s).logged opened⟩ := by
      simp only [playStep, bind_ok unlock]
      rfl
    have settled : ∀ (v : Simulator device) events, Machine.settle (v.logged events) =
      v.logged [] := fun _ _ => rfl
    simp only [Script.play, opening, Course.andThen, settled, run, Course.after, closeGuard, lock,
      run', List.append_assoc]
    rfl
  · rw [List.map_cons, List.map_append, List.map_cons, replied, replied']

end Scripts
end Simulator
end FlashController
