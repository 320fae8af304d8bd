import FlashController.Operation
import FlashController.Proofs.Parts
import FlashController.Proofs.Recorder.Bracketing
import FlashController.Proofs.Run

/-! What the driver's procedures do to the log of a recorder, whatever the registers answer. A
procedure that halts leaves a log that was paced up to there. -/
namespace FlashController.Recorder

/-- From a log with `before`, an action completes with `after`, or it halts and leaves a paced
log. -/
def Brings (starts : Starts) (before : List Event → Prop) (act : MachineM Recorder α)
    (after : α → List Event → Prop) : Prop :=
  ∀ s : Recorder, before s.events →
    match act s with
    | .ok a t => after a t.events
    | .error _ t => ∃ phase, Paced starts phase t.events

/-- A log that has come to a phase, with a property. -/
def At (starts : Starts) (phase : Phase) (F : List Event → Prop) (log : List Event) : Prop :=
  Paced starts phase log ∧ F log

/-- A log with a property that is paced. -/
def Along (starts : Starts) (F : List Event → Prop) (log : List Event) : Prop :=
  ∃ phase, At starts phase F log

/-- A property of logs that only writes can end. -/
def Steady (F : List Event → Prop) : Prop :=
  ∀ e log, (∀ r v, e ≠ .write r v) → F log → F (e :: log)

section
variable {starts : Starts} {F G : List Event → Prop}

theorem At.along {phase : Phase} {log : List Event} (h : At starts phase F log) :
    Along starts F log := ⟨phase, h⟩

namespace Brings
variable {before middle : List Event → Prop} {after : α → List Event → Prop}

theorem bind {act : MachineM Recorder α} {next : α → MachineM Recorder β}
    {last : β → List Event → Prop} (first : Brings starts before act after)
    (rest : ∀ a, Brings starts (after a) (next a) last) :
    Brings starts before (act >>= next) last := by
  intro s h
  have first := first s h
  cases run : act s with
  | ok a t =>
    rw [bind_ok run]
    rw [run] at first
    exact rest a t first
  | error e t =>
    rw [bind_error run]
    rwa [run] at first

theorem run_bind {p : Procedure α} {next : α → Procedure β} {last : β → List Event → Prop}
    (first : Brings starts before p.run after)
    (rest : ∀ a, Brings starts (after a) (next a).run last) :
    Brings starts before (p >>= next).run last := by
  rw [Procedure.run_bind]
  exact first.bind rest

theorem weaken {act : MachineM Recorder α} (h : Brings starts middle act after)
    (stronger : ∀ log, before log → middle log) : Brings starts before act after :=
  fun s hs => h s (stronger _ hs)

theorem relax {act : MachineM Recorder α} {last : α → List Event → Prop}
    (h : Brings starts before act after) (weaker : ∀ a log, after a log → last a log) :
    Brings starts before act last := by
  intro s hs
  have done := h s hs
  cases run : act s with
  | ok a t =>
    rw [run] at done
    exact weaker a _ done
  | error e t =>
    rw [run] at done
    exact done

end Brings

theorem perform_read (r : Register) (s : Recorder) :
    (Machine.perform (.read r) : MachineM Recorder (Contents r)) s =
      if streak r s.events < maxStreak then .ok (answer r s).1 (answer r s).2
      else .error .stuck s := by
  show perform (.read r) s = _
  simp only [perform]
  rw [get_bind]
  split <;> rfl

theorem events_answer (r : Register) (s : Recorder) :
    (answer r s).2.events = .read r (answer r s).1 :: s.events := by
  unfold answer
  cases s.queued.get r <;> rfl

/-- A read logs what it returns, unless it would make an endless wait. -/
theorem brings_read {before : List Event → Prop} (r : Register)
    (paced : ∀ log, before log → ∃ phase, Paced starts phase log) :
    Brings starts before (Machine.perform (.read r)) fun v log =>
      ∃ older, log = .read r v :: older ∧ before older := by
  intro s h
  rw [perform_read]
  by_cases short : streak r s.events < maxStreak
  · rw [if_pos short]
    exact ⟨s.events, events_answer r s, h⟩
  · rw [if_neg short]
    exact paced _ h

theorem Along.paced (log : List Event) (h : Along starts F log) :
    ∃ phase, Paced starts phase log := h.imp fun _ => And.left

theorem At.paced {phase : Phase} (log : List Event) (h : At starts phase F log) :
    ∃ phase, Paced starts phase log := ⟨phase, h.1⟩

theorem brings_awaitReady (steady : Steady F) (patience : Nat) :
    Brings starts (At starts .polling F)
      (awaitReady .sr (fun v => !v.has .bsy) patience) fun _ => At starts .opened F := by
  induction patience with
  | zero => exact fun s h => h.paced
  | succ n ih =>
    refine (brings_read .sr At.paced).bind fun v => ?_
    cases busy : v.has .bsy with
    | true =>
      simp only [busy]
      refine ih.weaken ?_
      rintro _ ⟨older, rfl, paced, h⟩
      exact ⟨.busy paced busy, steady _ _ nofun h⟩
    | false =>
      simp only [busy]
      rintro s ⟨older, events, paced, h⟩
      show At starts .opened F s.events
      exact events ▸ ⟨.idle paced busy, steady _ _ nofun h⟩

theorem brings_waitUntilIdle (steady : Steady F) {before : List Event → Prop}
    (along : ∀ log, before log → Along starts F log) :
    Brings starts before Procedure.waitUntilIdle.run fun _ => At starts .opened F := by
  have barrier : Brings starts before Procedure.barrier.run fun _ => At starts .polling F := by
    intro s hs
    obtain ⟨phase, paced, h⟩ := along _ hs
    exact ⟨.barrier paced, steady _ _ nofun h⟩
  have poll : Brings starts (At starts .polling F)
      (Procedure.readUntil .sr fun v => !v.has .bsy).run fun _ => At starts .opened F := by
    intro s h
    rw [Procedure.run_readUntil]
    exact brings_awaitReady steady _ s h
  exact barrier.run_bind fun _ => poll.run_bind fun _ s h => h

/-- An update of a register logs a read and a write of the changed value. -/
theorem brings_update {r : Register} (f : Contents r → Contents r) {before : List Event → Prop}
    {after : Unit → List Event → Prop} (paced : ∀ log, before log → ∃ phase, Paced starts phase log)
    (written : ∀ v older, before older → after () (.write r (f v) :: .read r v :: older)) :
    Brings starts before (Procedure.update r f).run after := by
  have read : Brings starts before (Procedure.read r).run fun v log =>
      ∃ older, log = .read r v :: older ∧ before older := by
    intro s h
    rw [Procedure.read, Procedure.run_act]
    exact brings_read r paced s h
  refine read.run_bind fun v => ?_
  rintro s ⟨older, events, h⟩
  show after () (.write r (f v) :: s.events)
  exact events ▸ written v older h

theorem At.read {r : Register} {log : List Event} (h : At starts .opened F log) (other : r ≠ .sr)
    {v : Contents r} (unstarted : starts log (.read r v) = false) :
    Paced starts .opened (.read r v :: log) := by
  refine .other h.1 ?_ unstarted
  cases r with
  | sr => exact absurd rfl other
  | cr | acr | optcr => rfl

end

section Erase
variable {starts : Starts}

/-- The log has so many writes to the control register. -/
def Controls (n : Nat) (log : List Event) : Prop := log.countP (·.writesControl) = n

theorem controls_steady (n : Nat) : Steady (Controls n) := by
  intro e log kept h
  rw [Controls, List.countP_cons_of_neg, h]
  cases e with
  | write r v => exact absurd rfl (kept r v)
  | read | key | barrier | store => simp [Event.writesControl]

theorem Controls.write {n : Nat} {log : List Event} (h : Controls n log) (u v : Contents .cr) :
    Controls (n + 1) (.write .cr u :: .read .cr v :: log) := by
  unfold Controls at h ⊢
  rw [List.countP_cons_of_pos rfl, List.countP_cons_of_neg (by simp [Event.writesControl]), h]

variable (reads : ∀ log v, starts log (.read .cr v) = false)
  (writes : ∀ log v, starts log (.write .cr v) =
    (log.countP (·.writesControl) == 2 || raises log (.write .cr v)))
include reads writes

theorem brings_setup {f : Contents .cr → Contents .cr} (harmless : Harmless f) {n : Nat}
    (early : n ≠ 2) :
    Brings starts (At starts .opened (Controls n)) (Procedure.update .cr f).run
      fun _ => At starts .opened (Controls (n + 1)) := by
  refine brings_update f At.paced fun v older h => ?_
  have read := h.read (r := .cr) nofun (reads older v)
  have count : Controls n (.read .cr v :: older) := controls_steady n _ _ nofun h.2
  refine ⟨.other read rfl ?_, h.2.write _ _⟩
  rw [writes, count, raises_control (harmless.start v), Bool.or_false]
  exact beq_eq_false_iff_ne.mpr early

theorem brings_start :
    Brings starts (At starts .opened (Controls 2)) (Procedure.update .cr (·.set .strt true)).run
      fun _ => At starts .closed (Controls 3) := by
  refine brings_update _ At.paced fun v older h => ?_
  have read := h.read (r := .cr) nofun (reads older v)
  have count : Controls 2 (.read .cr v :: older) := controls_steady 2 _ _ nofun h.2
  refine ⟨.trigger read rfl ?_ (beq_self_eq_true _), h.2.write _ _⟩
  rw [writes, count]
  rfl

theorem brings_erase (w : Width) {select deselect : Contents .cr → Contents .cr}
    (selects : Harmless select) (deselects : Harmless deselect) :
    Brings starts (Along starts (Controls 0)) (Procedure.erase w select deselect).run
      fun _ => Along starts (Controls 4) := by
  refine (brings_waitUntilIdle (controls_steady 0) fun _ h => h).run_bind fun _ => ?_
  have width := harmless_setProgramWidth w
  refine (brings_setup reads writes width (by decide)).run_bind fun _ => ?_
  refine (brings_setup reads writes selects (by decide)).run_bind fun _ => ?_
  refine (brings_start reads writes).run_bind fun _ => ?_
  refine (brings_waitUntilIdle (controls_steady 3) fun _ => At.along).run_bind fun _ => ?_
  exact (brings_setup reads writes deselects (by decide)).relax fun _ _ => At.along

end Erase

section Program
variable {starts : Starts}

def Anything (_ : List Event) : Prop := True

theorem anything_steady : Steady Anything := fun _ _ _ _ => trivial

theorem brings_advance {before : List Event → Prop} (a : Address) (n : Nat)
    (paced : ∀ log, before log → ∃ phase, Paced starts phase log) :
    Brings starts before (Procedure.advance a n).run fun _ => before := by
  intro s h
  unfold Procedure.advance
  cases a.advance? n with
  | some b => exact h
  | none => exact paced _ h

variable (reads : ∀ log v, starts log (.read .cr v) = false)
  (writes : ∀ log v, starts log (.write .cr v) = raises log (.write .cr v))
  (stores : ∀ log a w, starts log (.store a w) = true)
include reads writes stores

theorem brings_program (a : Address) (w : Word) :
    Brings starts (Along starts Anything) (Procedure.program a w).run
      fun _ => Along starts Anything := by
  have set : ∀ f, Harmless f → Brings starts (At starts .opened Anything)
      (Procedure.update .cr f).run fun _ => At starts .opened Anything := by
    intro f harmless
    refine brings_update f At.paced fun v older h => ⟨?_, trivial⟩
    have calm : starts (.read .cr v :: older) (.write .cr (f v)) = false :=
      (writes _ _).trans (raises_control (harmless.start v))
    exact .other (h.read (r := .cr) nofun (reads older v)) rfl calm
  have store : Brings starts (At starts .opened Anything) (Procedure.store a w).run
      fun _ => At starts .closed Anything :=
    fun s h => ⟨.trigger h.1 rfl (stores _ _ _) rfl, trivial⟩
  refine (brings_waitUntilIdle anything_steady fun _ h => h).run_bind fun _ => ?_
  refine (set _ (harmless_setProgramWidth w.width)).run_bind fun _ => ?_
  refine (set _ (harmless_set (f := .pg) true nofun nofun)).run_bind fun _ => ?_
  refine store.run_bind fun _ => ?_
  refine (brings_waitUntilIdle anything_steady fun _ => At.along).run_bind fun _ => ?_
  exact (set _ (harmless_set (f := .pg) false nofun nofun)).relax fun _ _ => At.along

theorem brings_programBytes (a : Address) (offset : Nat) (data : List UInt8) :
    Brings starts (Along starts Anything) (Procedure.programBytes a offset data).run
      fun _ => Along starts Anything := by
  induction data generalizing offset with
  | nil => exact fun s h => h
  | cons b rest ih =>
    refine (brings_advance a offset Along.paced).run_bind fun target => ?_
    refine (brings_program reads writes stores target _).run_bind fun _ => ?_
    exact ih (offset + 1)

theorem brings_programWords (a : Address) (words : List Word) :
    Brings starts (Along starts Anything) (Procedure.programWords a words).run
      fun _ => Along starts Anything := by
  induction words generalizing a with
  | nil => exact fun s h => h
  | cons w rest ih =>
    refine (brings_program reads writes stores a w).run_bind fun _ => ?_
    refine (brings_advance a _ Along.paced).run_bind fun next => ?_
    exact ih next

end Program

section OptionBytes
variable {starts : Starts} {v : Contents .optcr}

/-- Whether the log has a write of these option bytes. -/
def Programs (v : Contents .optcr) (on : Bool) (log : List Event) : Prop :=
  log.any (·.writesOptions v) = on

theorem programs_steady (v : Contents .optcr) (on : Bool) : Steady (Programs v on) := by
  intro e log kept h
  have other : e.writesOptions v = false := by
    cases e with
    | write r u => exact absurd rfl (kept r u)
    | read | key | barrier | store => rfl
  unfold Programs at h ⊢
  rw [List.any_cons, other, h, Bool.false_or]

theorem Programs.write {on : Bool} {log : List Event} (h : Programs v on log)
    (u : Contents .optcr) : Programs v (u == v || on) (.write .optcr u :: log) := by
  unfold Programs at h ⊢
  rw [List.any_cons, h]
  rfl

theorem set_optlock_ne (u v : Contents .optcr) :
    (u.set .optlock true == v.optionBytes) = false := by
  apply beq_eq_false_iff_ne.mpr
  intro same
  have locked := u.has_set .optlock .optlock true
  rw [same, if_pos rfl] at locked
  exact absurd ((v.has_optionBytes (.inl rfl)).symm.trans locked) nofun

variable (reads : ∀ log u, starts log (.read .optcr u) = false)
  (keys : ∀ log d k, starts log (.key d k) = false)
  (writes : ∀ log u, starts log (.write .optcr u) =
    (log.any (·.writesOptions v.optionBytes) || raises log (.write .optcr u)))
include reads keys writes

/-- Unlocking writes no option bytes, which have the lock bit clear. -/
theorem brings_unlock :
    Brings starts (At starts .opened (Programs v.optionBytes false))
      (Procedure.unlock .optionBytes).run
      fun _ => At starts .opened (Programs v.optionBytes false) := by
  have steady := programs_steady v.optionBytes false
  have lock : Brings starts (At starts .opened (Programs v.optionBytes false))
      (Procedure.lock .optionBytes).run
      fun _ => At starts .opened (Programs v.optionBytes false) := by
    refine brings_update _ At.paced fun u older h => ?_
    have read := h.read (r := .optcr) nofun (reads older u)
    have none : Programs v.optionBytes false (.read .optcr u :: older) := steady _ _ nofun h.2
    have calm : raises (.read .optcr u :: older) (.write .optcr (u.set .optlock true)) = false :=
      raises_options (Contents.has_set_of_ne (by decide))
    refine ⟨.other read rfl ((writes _ _).trans (Bool.or_eq_false_iff.mpr ⟨none, calm⟩)), ?_⟩
    have written := none.write (Contents.set u .optlock true)
    rw [set_optlock_ne u] at written
    exact written
  have key : ∀ k, Brings starts (At starts .opened (Programs v.optionBytes false))
      (Procedure.key .optionBytes k).run
      fun _ => At starts .opened (Programs v.optionBytes false) :=
    fun k s h => ⟨.other h.1 rfl (keys _ _ _), steady _ _ nofun h.2⟩
  exact lock.run_bind fun _ => (key _).run_bind fun _ => key _

theorem brings_programOptionBytes :
    Brings starts (Along starts (Programs v.optionBytes false))
      (Procedure.programOptionBytes v).run
      fun _ => Along starts (Programs v.optionBytes true) := by
  have steady := programs_steady v.optionBytes
  have isLocked : Brings starts (At starts .opened (Programs v.optionBytes false))
      (Procedure.isLocked .optionBytes).run
      fun _ => At starts .opened (Programs v.optionBytes false) := by
    have read : Brings starts (At starts .opened (Programs v.optionBytes false))
        (Procedure.read .optcr).run fun u log => ∃ older, log = .read .optcr u :: older ∧
          At starts .opened (Programs v.optionBytes false) older := by
      intro s h
      rw [Procedure.read, Procedure.run_act]
      exact brings_read .optcr At.paced s h
    refine read.run_bind fun u => ?_
    rintro s ⟨older, events, h⟩
    show At starts .opened (Programs v.optionBytes false) s.events
    exact events ▸ ⟨h.read (r := .optcr) nofun (reads older u), steady _ _ _ nofun h.2⟩
  have write : Brings starts (At starts .opened (Programs v.optionBytes false))
      (Procedure.write v.optionBytes).run
      fun _ => At starts .opened (Programs v.optionBytes true) := by
    intro s h
    have calm : raises s.events (.write .optcr v.optionBytes) = false :=
      Bool.and_eq_false_iff.mpr (.inl (v.has_optionBytes (.inr rfl)))
    refine ⟨.other h.1 rfl ((writes _ _).trans (Bool.or_eq_false_iff.mpr ⟨h.2, calm⟩)), ?_⟩
    have written := h.2.write v.optionBytes
    rwa [beq_self_eq_true] at written
  have start : Brings starts (At starts .opened (Programs v.optionBytes true))
      (Procedure.update .optcr (·.set .optstrt true)).run
      fun _ => At starts .closed (Programs v.optionBytes true) := by
    refine brings_update _ At.paced fun u older h => ?_
    have read := h.read (r := .optcr) nofun (reads older u)
    have programs : Programs v.optionBytes true (.read .optcr u :: older) :=
      steady _ _ _ nofun h.2
    have start := (writes _ (u.set .optstrt true)).trans (Bool.or_eq_true_iff.mpr (.inl programs))
    refine ⟨.trigger read rfl start (beq_self_eq_true _), ?_⟩
    have written := programs.write (u.set .optstrt true)
    rwa [Bool.or_true] at written
  refine (brings_waitUntilIdle (steady false) fun _ h => h).run_bind fun _ => ?_
  refine isLocked.run_bind fun locked => ?_
  have rest : Brings starts (At starts .opened (Programs v.optionBytes false))
      (do
        Procedure.write v.optionBytes
        Procedure.update .optcr (·.set .optstrt true)
        Procedure.waitUntilIdle : Procedure Unit).run
      fun _ => Along starts (Programs v.optionBytes true) := by
    refine write.run_bind fun _ => start.run_bind fun _ => ?_
    exact (brings_waitUntilIdle (steady true) fun _ => At.along).relax fun _ _ => At.along
  cases locked with
  | true => exact (brings_unlock reads keys writes).run_bind fun _ => rest
  | false => exact rest

end OptionBytes

section Operations

/-- Only stores and writes start something. -/
theorem waits_of_startsOf {op : Operation} {older : List Event} {e : Event}
    (started : startsOf op older e = true) : e.waits = false := by
  cases e with
  | store => rfl
  | write r v => rfl
  | barrier => cases op <;> exact absurd started nofun
  | key d k => rfl
  | read r v => cases op <;> exact absurd started nofun

theorem Brings.silent {starts : Starts} {before after : List Event → Prop} {p : Procedure Unit}
    (h : Brings starts before p.run fun _ => after) :
    Brings starts before (Operation.procedure.silent p).run fun _ => after :=
  h.run_bind fun _ _ done => done

theorem operation_paced {op : Operation} (h : starting op = true)
    (stored : Bank Contents) (queued : Bank fun r => List (Contents r)) :
    ∃ phase, Paced (startsOf op) phase
      (leaves (op.procedure device).run (⟨stored, queued, []⟩ : Recorder)).events := by
  suffices brings : ∃ F G : List Event → Prop, F [] ∧ Brings (startsOf op)
      (Along (startsOf op) F) (op.procedure device).run fun _ => Along (startsOf op) G by
    obtain ⟨F, G, nil, brings⟩ := brings
    have done := brings ⟨stored, queued, []⟩ ⟨.closed, .nil, nil⟩
    unfold leaves
    cases run : (op.procedure device).run (⟨stored, queued, []⟩ : Recorder) with
    | ok reply t =>
      rw [run] at done
      exact done.paced _
    | error e t =>
      rw [run] at done
      exact done
  cases op with
  | eraseAll w =>
    exact ⟨Controls 0, Controls 4, rfl, Brings.silent (brings_erase (fun _ _ => rfl)
      (fun _ _ => rfl) w (harmless_mass true) (harmless_mass false))⟩
  | eraseSector n w =>
    exact ⟨Controls 0, Controls 4, rfl, Brings.silent (brings_erase (fun _ _ => rfl)
      (fun _ _ => rfl) w (harmless_selectSector device n.toNat)
      (harmless_deselectSector device))⟩
  | program a w =>
    have brings := @brings_program (startsOf (.program a w)) (fun _ _ => rfl) (fun _ _ => rfl)
      (fun _ _ _ => rfl) a w
    exact ⟨Anything, Anything, trivial, brings.silent⟩
  | programBlock a data =>
    have brings := @brings_programBytes (startsOf (.programBlock a data)) (fun _ _ => rfl)
      (fun _ _ => rfl) (fun _ _ _ => rfl) a 0 data
    exact ⟨Anything, Anything, trivial, brings.silent⟩
  | programBlockWide a data limit =>
    have brings := @brings_programWords (startsOf (.programBlockWide a data limit))
      (fun _ _ => rfl) (fun _ _ => rfl) (fun _ _ _ => rfl) a (tile a.toNat data limit)
    exact ⟨Anything, Anything, trivial, brings.silent⟩
  | programOptionBytes v =>
    exact ⟨Programs v.optionBytes false, Programs v.optionBytes true, rfl,
      Brings.silent (brings_programOptionBytes (fun _ _ => rfl) (fun _ _ _ => rfl)
        (fun _ _ => rfl))⟩
  | _ => exact absurd h nofun

/-- Idle waits around everything that an operation does, whatever the registers answer and
however it ends. Without an idle status nothing but waits comes first, and nothing but waits comes
after a start. -/
theorem operation_bracketed {op : Operation} (h : starting op = true)
    (stored : Bank Contents) (queued : Bank fun r => List (Contents r)) :
    let log :=
      (leaves (op.procedure device).run (⟨stored, queued, []⟩ : Recorder)).events
    Bracketed (startsOf op) log ∧
      ((∀ v, .read .sr v ∈ log → v.has .bsy = true) → ∀ e ∈ log, e.waits = true) ∧
      ∀ later e older, log = later ++ e :: older → startsOf op older e = true →
        (∀ v, .read .sr v ∈ later → v.has .bsy = true) → ∀ f ∈ later, f.waits = true := by
  intro log
  obtain ⟨phase, paced⟩ : ∃ phase, Paced (startsOf op) phase log :=
    operation_paced h stored queued
  have bracketed := paced.bracketed fun _ _ => waits_of_startsOf
  refine ⟨bracketed, bracketed.silent, fun later e older same started busy => ?_⟩
  exact (same ▸ bracketed).held started busy

/-- Option bytes whose programming never ends, after the domain was unlocked. -/
theorem operation_bracketed_stuck :
    let op := Operation.programOptionBytes ⟨0x0FFFAAE1⟩
    let stored : Bank Contents := ⟨⟨0⟩, ⟨0x10000⟩, ⟨0⟩, ⟨1⟩⟩
    let queued : Bank fun r => List (Contents r) := ⟨[], [⟨0x10000⟩, ⟨0⟩], [], []⟩
    let log := (leaves (op.procedure .generic).run (⟨stored, queued, []⟩ : Recorder)).events
    starting op = true ∧ log.length = 76 ∧ Bracketed (startsOf op) log := by
  intro op stored queued log
  exact ⟨rfl, by decide +kernel, (operation_bracketed rfl stored queued).1⟩

end Operations
end FlashController.Recorder
