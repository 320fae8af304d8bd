import FlashController.Proofs.Parts
import FlashController.Proofs.Recorder.Notes
import FlashController.Proofs.Script

/-! Register updates on a recorder. Whatever the registers answer, the driver writes a register back
as it has just read it, but for the parts that the operation is about. Two writes are no updates:
user option bytes are written as they are, and the accelerator's reset line falls as it was
raised. -/
namespace FlashController

namespace Contents
variable {mask wide : BitVec 32} {v w : Contents r}

/-- Two contents of a register differ under a mask at most. -/
def AgreeOutside (mask : BitVec 32) (v w : Contents r) : Prop :=
  ∀ i, mask.getLsbD i = false → w.raw.getLsbD i = v.raw.getLsbD i

theorem agree_put (mask bits : BitVec 32) (v : Contents r) :
    AgreeOutside mask v (v.put mask bits) := by
  intro i outside
  rw [getLsbD_put, outside]
  rfl

theorem AgreeOutside.trans {u : Contents r} (first : AgreeOutside mask u v)
    (second : AgreeOutside mask v w) : AgreeOutside mask u w :=
  fun i outside => (second i outside).trans (first i outside)

theorem AgreeOutside.widen (h : AgreeOutside mask v w) (inside : mask ||| wide = wide) :
    AgreeOutside wide v w := by
  intro i outside
  apply h
  rw [← inside, BitVec.getLsbD_or, Bool.or_eq_false_iff] at outside
  exact outside.1

end Contents

/-- The bits of a register that no operation is about: interrupt enables, option bytes, and bits
without a name. -/
def Register.foreign (device : Device) : Register → BitVec 32
  | .cr => ~~~(operationMask device ||| Flag.lock.mask)
  | .sr => 0
  | .acr => ~~~(Field.latency.mask ||| maskOf [.prften, .arten, .artrst])
  | .optcr => ~~~optionReserved

namespace Operation

/-- The operation erases or programs the flash memory. -/
def Works : Operation → Prop
  | .eraseAll _ | .eraseSector _ _ | .program _ _ | .programBlock _ _ | .programBlockWide _ _ _ =>
    True
  | _ => False

/-- The parts of a register that the operation is about. -/
def touches (device : Device) : Operation → Register → BitVec 32
  | .lock d, r | .unlock d, r => if r = d.register then d.lockFlag.mask else 0
  | .eraseAll _, .cr | .eraseSector _ _, .cr | .program _ _, .cr | .programBlock _ _, .cr
  | .programBlockWide _ _ _, .cr => operationMask device
  | .programOptionBytes _, .optcr => optionReserved
  | .setWaitStates _, .acr => Field.latency.mask
  | .setPrefetch _, .acr => Flag.prften.mask
  | .setAccelerator _, .acr => Flag.arten.mask
  | .resetAccelerator, .acr => Flag.artrst.mask
  | _, _ => 0

/-- The flag that enables what the operation does, if it does anything. -/
def enables? : Operation → Option (Flag .cr)
  | .eraseAll _ => some .mer
  | .eraseSector _ _ => some .ser
  | .program _ _ | .programBlock _ (_ :: _) | .programBlockWide _ (_ :: _) _ => some .pg
  | _ => none

theorem touches_foreign (device : Device) (op : Operation) (r : Register) :
    op.touches device r &&& r.foreign device = 0 := by
  have control : operationMask device &&& Register.cr.foreign device = 0 := by
    cases device <;> decide
  have options : optionReserved &&& Register.optcr.foreign device = 0 := by cases device <;> decide
  have latency : Field.latency.mask &&& Register.acr.foreign device = 0 := by
    cases device <;> decide
  have access : ∀ f : Flag .acr, f.mask &&& Register.acr.foreign device = 0 := by
    intro f
    cases f <;> cases device <;> decide
  have none : (0#32) &&& r.foreign device = 0 := BitVec.zero_and
  cases op with
  | lock d | unlock d => cases device <;> cases d <;> cases r <;> decide
  | eraseAll | eraseSector | program | programBlock | programBlockWide =>
    cases r with
    | cr => exact control
    | sr | acr | optcr => exact none
  | programOptionBytes =>
    cases r with
    | optcr => exact options
    | cr | sr | acr => exact none
  | setWaitStates =>
    cases r with
    | acr => exact latency
    | cr | sr | optcr => exact none
  | setPrefetch | setAccelerator | resetAccelerator =>
    cases r with
    | acr => exact access _
    | cr | sr | optcr => exact none
  | waitUntilIdle | pollIdle | isLocked | ensureUnlocked | optionBytes | status | clear
  | clearStatus => exact none

theorem touches_lock (device : Device) {op : Operation} (works : op.Works) :
    (op.touches device .cr).getLsbD Flag.lock.bit = false := by
  have apart : (operationMask device).getLsbD Flag.lock.bit = false := by cases device <;> decide
  cases op with
  | eraseAll | eraseSector | program | programBlock | programBlockWide => exact apart
  | _ => exact absurd works id

end Operation

/-- The operation that a step of the driver is. -/
def Step.operation? : Step κ → Option Operation
  | .operate op => some op
  | .openGuard => some (.unlock .main)
  | .closeGuard => some (.lock .main)
  | .access _ | .control _ => none

namespace Recorder
variable {device : Device} {op : Operation} {r : Register} {before log : List Event}

/-- A register is written back as it was read, but for the parts that the operation is about. -/
structure Updates (device : Device) (op : Operation) (u v : Contents r) : Prop where
  within : Contents.AgreeOutside (op.touches device r) u v
  foreign : ∀ i, (r.foreign device).getLsbD i = true → v.raw.getLsbD i = u.raw.getLsbD i
  /-- Erasing and programming do not turn the lock. -/
  lock : op.Works → r = .cr → v.raw.getLsbD Flag.lock.bit = u.raw.getLsbD Flag.lock.bit

/-- The two writes that are no updates: the user option bytes, written once, and the end of the
accelerator's reset, directly after its begin. -/
def Plain (op : Operation) (older : List Event) : (r : Register) → Contents r → Prop
  | .optcr, v => ∃ u, op = .programOptionBytes u ∧ v = u.optionBytes ∧ .write .optcr v ∉ older
  | .acr, v => op = .resetAccelerator ∧
      ∃ w u, older = [.write .acr w, .read .acr u] ∧ v = w.set .artrst false
  | .cr, _ | .sr, _ => False

/-- A write that follows some events directly. Clearing status flags needs no read. -/
def Careful (device : Device) (op : Operation) (older : List Event) : Event → Prop
  | .write r v => r = .sr ∨ (∃ u rest, older = .read r u :: rest ∧ Updates device op u v) ∨
      Plain op older r v
  | .read _ _ | .key _ _ | .barrier | .store _ _ => True

/-- Every write in a log is careful. -/
def Considerate (device : Device) (op : Operation) (log : List Event) : Prop :=
  ∀ newer e older, log = newer ++ e :: older → Careful device op older e

/-- The newest event clears a flag of the control register. -/
def Disarms (f : Flag .cr) (log : List Event) : Prop :=
  ∃ v older, log = .write .cr v :: older ∧ v.has f = false

theorem updates_of_agree {u v : Contents r}
    (within : Contents.AgreeOutside (op.touches device r) u v) : Updates device op u v where
  within := within
  foreign := by
    intro i foreign
    apply within
    have apart : (op.touches device r &&& r.foreign device).getLsbD i = false :=
      op.touches_foreign device r ▸ BitVec.getLsbD_zero
    rwa [BitVec.getLsbD_and, foreign, Bool.and_true] at apart
  lock := by
    rintro works rfl
    exact within _ (op.touches_lock device works)

theorem considerate_nil : Considerate device op [] := by
  intro newer e older same
  exact absurd same.symm (List.append_ne_nil_of_right_ne_nil _ (List.cons_ne_nil _ _))

theorem Considerate.cons {e : Event} (careful : Careful device op log e)
    (h : Considerate device op log) : Considerate device op (e :: log) := by
  rintro (_ | ⟨first, newer⟩) f older same
  · obtain ⟨rfl, rfl⟩ := List.cons.inj same
    exact careful
  · exact h newer f older (List.cons.inj same).2

theorem Considerate.wait {later : List Event} (h : Considerate device op log)
    (waits : Waiting later) : Considerate device op (later ++ log) := by
  induction later with
  | nil => exact h
  | cons e rest ih =>
    obtain ⟨here, older⟩ := List.forall_mem_cons.mp waits
    refine (ih older).cons ?_
    cases e with
    | write => cases here
    | read | key | barrier | store => trivial

/-- A register that was just read is written back. -/
theorem Considerate.update {u v : Contents r} (h : Considerate device op log)
    (updates : Updates device op u v) :
    Considerate device op (.write r v :: .read r u :: log) :=
  Considerate.cons (.inr (.inl ⟨u, log, rfl, updates⟩)) (Considerate.cons trivial h)

/-- Whatever a procedure appends to a log with a property, also if it halts, the log keeps it. -/
def Keeps (F : List Event → Prop) (p : Procedure α) : Prop :=
  ∀ before, F before → Notes before p.run (fun _ => F) F

section Keeps
variable {F : List Event → Prop} {p : Procedure α}

theorem keeps_pure (a : α) : Keeps F (pure a) := fun _ h => notes_pure h

theorem Keeps.bind {g : α → Procedure β} (first : Keeps F p) (rest : ∀ a, Keeps F (g a)) :
    Keeps F (p >>= g) :=
  fun before h => (first before h).run_bind fun a log h => rest a log h

theorem keeps_advance (a : Address) (n : Nat) : Keeps F (Procedure.advance a n) :=
  fun before h => (advance_notes a n before).relax (fun _ _ done => done.1 ▸ h)
    fun _ same => same ▸ h

end Keeps

section Pieces

theorem write_notes (v : Contents r) (before : List Event) {broken : List Event → Prop} :
    Notes before (Procedure.write v).run (fun _ log => log = .write r v :: before) broken :=
  fun _ _ same => ⟨.write r v :: before, congrArg _ same, rfl⟩

theorem readBack_notes (r : Register) {F : List Event → Prop} (h : F before) :
    Notes before (Procedure.read r).run (fun v log => log = .read r v :: before) F := by
  rw [Procedure.read, Procedure.run_act]
  exact (read_notes r before).relax (fun _ _ done => done) fun _ same => same ▸ h

theorem keeps_wait : Keeps (Considerate device op) .waitUntilIdle := by
  intro before h
  have waited : ∀ log, Waited before log → Considerate device op log := by
    rintro _ ⟨later, waits, rfl⟩
    exact h.wait waits
  exact (waitUntilIdle_notes before).relax (fun _ => waited) waited

theorem keeps_await (r : Register) (ready : Contents r → Bool) :
    Keeps (Considerate device op) (.readUntil r ready) := by
  intro before h s base same
  have polls : ∀ patience before, Considerate device op before →
      Notes before (awaitReady r ready patience : MachineM Recorder (Contents r))
        (fun _ => Considerate device op) (Considerate device op) := by
    intro patience
    induction patience with
    | zero => exact fun before h s base same => ⟨before, same, h⟩
    | succ n ih =>
      intro before h
      refine ((read_notes r before).relax (fun _ _ done => done) fun _ same => same ▸ h).bind
        fun v log same => ?_
      subst same
      have polled : Considerate device op (.read r v :: before) := h.cons trivial
      cases ready v with
      | true => exact notes_pure polled
      | false => exact ih _ polled
  have told := polls (Machine.patience s) before h s base same
  rwa [leaves, ← Procedure.run_readUntil] at told

/-- Writing back what was read is an update, whatever comes behind it. -/
theorem keeps_rewrite {f : Contents r → Contents r} {g : Contents r → Procedure α}
    (agrees : ∀ v, Contents.AgreeOutside (op.touches device r) v (f v))
    (rest : ∀ v, Keeps (Considerate device op) (g v)) :
    Keeps (Considerate device op) (do let v ← .read r; .write (f v); g v) := by
  intro before h
  refine (readBack_notes r h).run_bind fun v log same => ?_
  subst same
  refine (write_notes (f v) _).run_bind fun _ log same => ?_
  subst same
  exact rest v _ (h.update (updates_of_agree (agrees v)))

theorem keeps_update {f : Contents r → Contents r}
    (agrees : ∀ v, Contents.AgreeOutside (op.touches device r) v (f v)) :
    Keeps (Considerate device op) (.update r f) := by
  intro before h
  refine (update_notes r f before).relax (fun _ log updated => ?_) fun _ same => same ▸ h
  obtain ⟨v, rfl⟩ := updated
  exact h.update (updates_of_agree (agrees v))

theorem keeps_barrier : Keeps (Considerate device op) .barrier :=
  fun before h _ _ same => ⟨.barrier :: before, congrArg _ same, h.cons trivial⟩

theorem keeps_key (d : Domain) (k : BitVec 32) : Keeps (Considerate device op) (.key d k) :=
  fun before h _ _ same => ⟨.key d k :: before, congrArg _ same, h.cons trivial⟩

theorem keeps_store (a : Address) (w : Word) : Keeps (Considerate device op) (.store a w) :=
  fun before h => (store_notes a w before).relax (fun _ _ same => same ▸ h.cons trivial)
    fun _ broken => broken

theorem keeps_clear (c : Clearable) : Keeps (Considerate device op) (.clear c) :=
  fun before h => (write_notes _ before).relax (fun _ _ same => same ▸ h.cons (.inl rfl))
    fun _ broken => broken

theorem keeps_read (r : Register) : Keeps (Considerate device op) (.read r) :=
  fun _ h => (readBack_notes r h).relax (fun _ _ same => same ▸ h.cons trivial)
    fun _ broken => broken

theorem keeps_isLocked (d : Domain) : Keeps (Considerate device op) (.isLocked d) :=
  (keeps_read d.register).bind fun _ => keeps_pure _

theorem keeps_lock {d : Domain} (touches : op.touches device d.register = d.lockFlag.mask) :
    Keeps (Considerate device op) (.lock d) :=
  keeps_update fun v => touches ▸ v.agree_put _ _

theorem keeps_unlock {d : Domain} (touches : op.touches device d.register = d.lockFlag.mask) :
    Keeps (Considerate device op) (.unlock d) :=
  (keeps_lock touches).bind fun _ => (keeps_key d _).bind fun _ => keeps_key d _

end Pieces

section Works

/-- The change of the control register touches nothing but what describes an operation. -/
def Describes (device : Device) (f : Contents .cr → Contents .cr) : Prop :=
  ∀ v, Contents.AgreeOutside (operationMask device) v (f v)

theorem describes_flag {f : Flag .cr} (on : Bool)
    (inside : f.mask ||| operationMask device = operationMask device) :
    Describes device (·.set f on) := fun v => (v.agree_put _ _).widen inside

theorem describes_width (w : Width) : Describes device (·.setProgramWidth w) :=
  fun v => (v.agree_put _ _).widen (by cases device <;> decide)

theorem describes_sector (n : Nat) : Describes device (·.setSector device n) :=
  fun v => (v.agree_put _ _).widen (by cases device <;> decide)

variable (touches : op.touches device .cr = operationMask device)
include touches

theorem keeps_describe {f : Contents .cr → Contents .cr} (describes : Describes device f) :
    Keeps (Considerate device op) (.update .cr f) := keeps_update (touches ▸ describes)

/-- An operation that ends with an update of the control register. -/
theorem disarm_notes {f : Contents .cr → Contents .cr} {g : Flag .cr}
    (describes : Describes device f) (clears : ∀ v, (f v).has g = false)
    (h : Considerate device op before) :
    Notes before (Procedure.update .cr f).run
      (fun _ log => Considerate device op log ∧ Disarms g log) (Considerate device op) := by
  refine (update_notes .cr f before).relax (fun _ log updated => ?_) fun _ same => same ▸ h
  obtain ⟨v, rfl⟩ := updated
  exact ⟨h.update (updates_of_agree (touches ▸ describes v)), f v, _, rfl, clears v⟩

theorem erase_notes (w : Width) {select deselect : Contents .cr → Contents .cr} {g : Flag .cr}
    (selects : Describes device select) (deselects : Describes device deselect)
    (clears : ∀ v, (deselect v).has g = false) (h : Considerate device op before) :
    Notes before (Procedure.erase w select deselect).run
      (fun _ log => Considerate device op log ∧ Disarms g log) (Considerate device op) := by
  have update {f : Contents .cr → Contents .cr} := keeps_describe (f := f) touches
  have starts : Describes device (·.set .strt true) :=
    describes_flag true (by cases device <;> decide)
  refine (keeps_wait before h).run_bind fun _ log h => ?_
  refine (update (describes_width w) log h).run_bind fun _ log h => ?_
  refine (update selects log h).run_bind fun _ log h => ?_
  refine (update starts log h).run_bind fun _ log h => ?_
  refine (keeps_wait log h).run_bind fun _ log h => ?_
  exact disarm_notes touches deselects clears h

theorem program_updates (a : Address) (w : Word) (h : Considerate device op before) :
    Notes before (Procedure.program a w).run
      (fun _ log => Considerate device op log ∧ Disarms .pg log) (Considerate device op) := by
  have update {f : Contents .cr → Contents .cr} := keeps_describe (f := f) touches
  have program : ∀ on, Describes device (·.set .pg on) :=
    fun on => describes_flag on (by cases device <;> decide)
  refine (keeps_wait before h).run_bind fun _ log h => ?_
  refine (update (describes_width w.width) log h).run_bind fun _ log h => ?_
  refine (update (program true) log h).run_bind fun _ log h => ?_
  refine (keeps_store a w log h).run_bind fun _ log h => ?_
  refine (keeps_wait log h).run_bind fun _ log h => ?_
  exact disarm_notes touches (program false) (fun v => v.has_set_self .pg false) h

/-- Programming ends with the flag clear as soon as there was a word to program. -/
theorem programWords_updates (a : Address) (words : List Word) (h : Considerate device op before) :
    Notes before (Procedure.programWords a words).run (fun _ log => Considerate device op log ∧
      (words ≠ [] ∨ Disarms .pg before → Disarms .pg log)) (Considerate device op) := by
  induction words generalizing a before with
  | nil => exact notes_pure ⟨h, fun armed => armed.resolve_left (not_not_intro rfl)⟩
  | cons w rest ih =>
    refine (program_updates touches a w h).run_bind fun _ log programmed => ?_
    obtain ⟨h, disarms⟩ := programmed
    refine ((advance_notes a w.width.bytes log).relax (fun _ _ done => done.1)
      fun _ same => same ▸ h).run_bind fun next _ same => ?_
    subst same
    exact (ih next h).relax (fun _ _ done => ⟨done.1, fun _ => done.2 (.inr disarms)⟩)
      fun _ broken => broken

theorem programBytes_updates (a : Address) (offset : Nat) (data : List UInt8)
    (h : Considerate device op before) :
    Notes before (Procedure.programBytes a offset data).run
      (fun _ log => Considerate device op log ∧
        (data ≠ [] ∨ Disarms .pg before → Disarms .pg log)) (Considerate device op) := by
  induction data generalizing offset before with
  | nil => exact notes_pure ⟨h, fun armed => armed.resolve_left (not_not_intro rfl)⟩
  | cons b rest ih =>
    refine (keeps_advance a offset before h).run_bind fun target log h => ?_
    refine (program_updates touches target (.ofByte b) h).run_bind fun _ log programmed => ?_
    obtain ⟨h, disarms⟩ := programmed
    exact (ih (offset + 1) h).relax (fun _ _ done => ⟨done.1, fun _ => done.2 (.inr disarms)⟩)
      fun _ broken => broken

end Works

section OptionBytes
variable {v : Contents .optcr}

/-- The option bytes are still to be written. -/
structure Pending (device : Device) (v : Contents .optcr) (log : List Event) : Prop where
  considerate : Considerate device (.programOptionBytes v) log
  unwritten : .write .optcr v.optionBytes ∉ log

theorem Pending.cons {e : Event} (h : Pending device v log)
    (careful : Careful device (.programOptionBytes v) log e)
    (other : e ≠ .write .optcr v.optionBytes) : Pending device v (e :: log) where
  considerate := h.considerate.cons careful
  unwritten member := (List.mem_cons.mp member).elim (fun same => other same.symm) h.unwritten

theorem Waiting.pending {later : List Event} (waits : Waiting later) : Pending device v later := by
  refine ⟨List.append_nil later ▸ considerate_nil.wait waits, fun member => ?_⟩
  cases waits _ member

theorem pending_wait (device : Device) (v : Contents .optcr) :
    Notes [] Procedure.waitUntilIdle.run (fun _ => Pending device v)
      (Considerate device (.programOptionBytes v)) := by
  have waited : ∀ log, Waited [] log → Pending device v log := by
    rintro _ ⟨later, waits, rfl⟩
    exact (List.append_nil later).symm ▸ waits.pending
  exact (waitUntilIdle_notes []).relax (fun _ => waited)
    fun log done => (waited log done).considerate

theorem pending_isLocked (h : Pending device v before) :
    Notes before (Procedure.isLocked .optionBytes).run (fun _ => Pending device v)
      (Considerate device (.programOptionBytes v)) := by
  refine (readBack_notes .optcr h.considerate).run_bind fun u log same => ?_
  subst same
  exact notes_pure (h.cons trivial nofun)

/-- Unlocking writes no option bytes, which have the lock bit clear. -/
theorem pending_unlock (h : Pending device v before) :
    Notes before (Procedure.unlock .optionBytes).run (fun _ => Pending device v)
      (Considerate device (.programOptionBytes v)) := by
  have key : ∀ k before, Pending device v before →
      Notes before (Procedure.key .optionBytes k).run (fun _ => Pending device v)
        (Considerate device (.programOptionBytes v)) :=
    fun k before h _ _ same =>
      ⟨.key .optionBytes k :: before, congrArg _ same, h.cons trivial nofun⟩
  have lock : Notes before (Procedure.lock .optionBytes).run (fun _ => Pending device v)
      (Considerate device (.programOptionBytes v)) := by
    refine (update_notes .optcr _ before).relax (fun _ log updated => ?_)
      fun _ same => same ▸ h.considerate
    obtain ⟨u, rfl⟩ := updated
    have agrees : Contents.AgreeOutside optionReserved u (u.set .optlock true) :=
      (u.agree_put _ _).widen (by decide)
    have read : Pending device v (.read .optcr u :: before) := h.cons trivial nofun
    refine read.cons (.inr (.inl ⟨u, before, rfl, updates_of_agree agrees⟩)) fun same => ?_
    have bytes : u.set .optlock true = v.optionBytes := eq_of_heq (Event.write.inj same).2
    exact beq_eq_false_iff_ne.mp (set_optlock_ne u v) bytes
  refine lock.run_bind fun _ log h => ?_
  exact (key _ log h).run_bind fun _ log h => key _ log h

theorem programOptionBytes_updates (v : Contents .optcr) :
    Notes [] (Procedure.programOptionBytes v).run
      (fun _ => Considerate device (.programOptionBytes v))
      (Considerate device (.programOptionBytes v)) := by
  have inside : Flag.optstrt.mask ||| optionReserved = optionReserved := by decide
  have starts : Keeps (Considerate device (.programOptionBytes v))
      (.update .optcr (·.set .optstrt true)) :=
    keeps_update fun u => (u.agree_put _ _).widen inside
  have rest : ∀ before, Pending device v before → Notes before (do
      Procedure.write v.optionBytes
      .update .optcr (·.set .optstrt true)
      .waitUntilIdle : Procedure Unit).run (fun _ => Considerate device (.programOptionBytes v))
        (Considerate device (.programOptionBytes v)) := by
    intro before h
    refine (write_notes _ before).run_bind fun _ log same => ?_
    subst same
    have careful : Careful device (.programOptionBytes v) before (.write .optcr v.optionBytes) :=
      .inr (.inr ⟨v, rfl, rfl, h.unwritten⟩)
    refine (starts _ (h.considerate.cons careful)).run_bind fun _ log h => ?_
    exact keeps_wait log h
  refine (pending_wait device v).run_bind fun _ log h => ?_
  refine (pending_isLocked h).run_bind fun locked log h => ?_
  cases locked with
  | true => exact (pending_unlock h).run_bind fun _ log h => rest log h
  | false => exact rest log h

end OptionBytes

section Access

theorem setWaitStates_keeps (n : UInt8) :
    Keeps (Considerate device (.setWaitStates n)) (.setWaitStates n) :=
  keeps_rewrite (fun v => v.agree_put _ _) fun _ =>
    (keeps_await .acr _).bind fun _ => keeps_pure ()

theorem resetAccelerator_updates :
    Notes [] Procedure.resetAccelerator.run (fun _ => Considerate device .resetAccelerator)
      (Considerate device .resetAccelerator) := by
  refine (readBack_notes .acr considerate_nil).run_bind fun u log same => ?_
  subst same
  refine (write_notes (u.set .artrst true) _).run_bind fun _ log same => ?_
  subst same
  have begun : Considerate device .resetAccelerator
      [.write .acr (u.set .artrst true), .read .acr u] :=
    considerate_nil.update (updates_of_agree (u.agree_put _ _))
  refine (write_notes _ _).relax (fun _ log same => ?_) fun _ broken => broken
  subst same
  exact begun.cons (.inr (.inr ⟨rfl, _, u, rfl, rfl⟩))

end Access

/-- What the operation did is disabled again. -/
def Disarmed (op : Operation) (log : List Event) : Prop :=
  ∀ f, op.enables? = some f → Disarms f log

/-- The operation appends a considerate log, also if it halts, and disables what it did. -/
def Minds (device : Device) (op : Operation) (p : Procedure α) : Prop :=
  Notes [] p.run (fun _ log => Considerate device op log ∧ Disarmed op log) (Considerate device op)

section Minds
variable {p : Procedure α}

theorem minds_of_harmless (harmless : op.enables? = none)
    (updates : Notes [] p.run (fun _ => Considerate device op) (Considerate device op)) :
    Minds device op p := by
  refine updates.relax (fun _ log h => ⟨h, fun f enables => ?_⟩) fun _ h => h
  cases harmless.symm.trans enables

theorem Keeps.minds (keeps : Keeps (Considerate device op) p) (harmless : op.enables? = none) :
    Minds device op p := minds_of_harmless harmless (keeps [] considerate_nil)

theorem minds_of_disarms {f : Flag .cr} (enables : op.enables? = some f)
    (updates : Notes [] p.run (fun _ log => Considerate device op log ∧ Disarms f log)
      (Considerate device op)) : Minds device op p := by
  refine updates.relax (fun _ log done => ⟨done.1, fun g enables' => ?_⟩) fun _ h => h
  exact Option.some.inj (enables.symm.trans enables') ▸ done.2

theorem Minds.map (h : Minds device op p) (f : α → β) : Minds device op (f <$> p) := by
  rw [map_eq_pure_bind]
  exact Notes.run_bind h fun _ _ done => notes_pure done

theorem lock_minds (device : Device) (d : Domain) : Minds device (.lock d) (.lock d) := by
  have touches : (Operation.lock d).touches device d.register = d.lockFlag.mask := if_pos rfl
  exact (keeps_lock touches).minds rfl

theorem unlock_minds (device : Device) (d : Domain) : Minds device (.unlock d) (.unlock d) := by
  have touches : (Operation.unlock d).touches device d.register = d.lockFlag.mask := if_pos rfl
  exact (keeps_unlock touches).minds rfl

theorem eraseAll_minds (w : Width) : Minds device (.eraseAll w) (.eraseAll w) := by
  have mass : ∀ on, Describes device (·.set .mer on) :=
    fun on => describes_flag on (by cases device <;> decide)
  apply minds_of_disarms rfl
  exact erase_notes rfl w (mass true) (mass false) (fun v => v.has_set_self .mer false)
    considerate_nil

theorem eraseSector_minds (n : UInt8) (w : Width) :
    Minds device (.eraseSector n w) (.eraseSector device n w) := by
  have sector : ∀ on, Describes device (·.set .ser on) :=
    fun on => describes_flag on (by cases device <;> decide)
  have selects : Describes device fun v => (v.setSector device n.toNat).set .ser true :=
    fun v => (describes_sector n.toNat v).trans (sector true _)
  have deselects : Describes device fun v => (v.set .ser false).setSector device 0 :=
    fun v => (sector false v).trans (describes_sector 0 _)
  have clears : ∀ v : Contents .cr, ((v.set .ser false).setSector device 0).has .ser = false := by
    intro v
    rw [Contents.has_setSector, Contents.has_set_self]
  exact minds_of_disarms rfl (erase_notes rfl w selects deselects clears considerate_nil)

theorem program_minds (a : Address) (w : Word) : Minds device (.program a w) (.program a w) :=
  minds_of_disarms rfl (program_updates rfl a w considerate_nil)

theorem programBlock_minds (a : Address) (data : List UInt8) :
    Minds device (.programBlock a data) (.programBlock a data) := by
  cases data with
  | nil => exact (keeps_pure ()).minds rfl
  | cons b rest =>
    apply minds_of_disarms rfl
    exact (programBytes_updates rfl a 0 (b :: rest) considerate_nil).relax
      (fun _ _ done => ⟨done.1, done.2 (.inl (List.cons_ne_nil b rest))⟩) fun _ h => h

theorem programBlockWide_minds (a : Address) (data : List UInt8) (limit : Width) :
    Minds device (.programBlockWide a data limit) (.programBlockWide a data limit) := by
  unfold Procedure.programBlockWide
  cases data with
  | nil =>
    rw [tile]
    exact (keeps_pure ()).minds rfl
  | cons b rest =>
    have some : tile a.toNat (b :: rest) limit ≠ [] :=
      mt tile_eq_nil_iff.mp (List.cons_ne_nil b rest)
    apply minds_of_disarms rfl
    exact (programWords_updates rfl a _ considerate_nil).relax
      (fun _ _ done => ⟨done.1, done.2 (.inl some)⟩) fun _ h => h

theorem operation_minds (device : Device) (op : Operation) :
    Minds device op (op.procedure device) := by
  cases op with
  | waitUntilIdle => exact (keeps_wait.minds rfl).map _
  | pollIdle =>
    have poll : Keeps (Considerate device .pollIdle) .pollIdle :=
      keeps_barrier.bind fun _ => (keeps_read .sr).bind fun _ => keeps_pure _
    exact (poll.minds rfl).map _
  | lock d => exact (lock_minds device d).map _
  | unlock d => exact (unlock_minds device d).map _
  | isLocked d => exact ((keeps_isLocked d).minds rfl).map _
  | ensureUnlocked d =>
    have ensure : Keeps (Considerate device (.ensureUnlocked d)) (.ensureUnlocked d) :=
      (keeps_isLocked d).bind fun _ => keeps_pure _
    exact (ensure.minds rfl).map _
  | eraseAll w => exact (eraseAll_minds w).map _
  | eraseSector n w => exact (eraseSector_minds n w).map _
  | program a w => exact (program_minds a w).map _
  | programBlock a data => exact (programBlock_minds a data).map _
  | programBlockWide a data limit => exact (programBlockWide_minds a data limit).map _
  | programOptionBytes v => exact (minds_of_harmless rfl (programOptionBytes_updates v)).map _
  | optionBytes => exact ((keeps_read .optcr).minds rfl).map _
  | status => exact ((keeps_read .sr).minds rfl).map _
  | clear c => exact ((keeps_clear c).minds rfl).map _
  | clearStatus =>
    have clear : ∀ c, Keeps (Considerate device .clearStatus) (.clear c) := keeps_clear
    have all : Keeps (Considerate device .clearStatus) .clearStatus :=
      (clear _).bind fun _ => (clear _).bind fun _ => (clear _).bind fun _ =>
        (clear _).bind fun _ => clear _
    exact (all.minds rfl).map _
  | setWaitStates n => exact ((setWaitStates_keeps n).minds rfl).map _
  | setPrefetch on => exact ((keeps_update fun v => v.agree_put _ _).minds rfl).map _
  | setAccelerator on => exact ((keeps_update fun v => v.agree_put _ _).minds rfl).map _
  | resetAccelerator => exact (minds_of_harmless rfl resetAccelerator_updates).map _

end Minds

/-- A guard opens and closes as its operation does. -/
theorem step_minds {x : Step (Machine.Control Recorder)} (is : x.operation? = some op) :
    Notes [] (x.act device) (fun _ log => Considerate device op log ∧ Disarmed op log)
      (Considerate device op) := by
  cases x with
  | operate op' =>
    obtain rfl := Option.some.inj is
    exact operation_minds device op'
  | openGuard =>
    obtain rfl := Option.some.inj is
    exact Notes.bind (unlock_minds device .main) fun _ _ done => notes_pure done
  | closeGuard =>
    obtain rfl := Option.some.inj is
    exact Notes.bind (lock_minds device .main) fun _ _ done => notes_pure done
  | access | control => cases is

/-- Register updates do not disturb what they are not about. Whatever is stored and queued, every
write of a step of the driver to the control, access control or option control register directly
follows a read of it, and changes what was read in the parts that the operation is about; the user
option bytes and the end of the accelerator's reset are the only writes of another kind. Interrupt
enables and reserved bits stay as they were read, and so does the lock while the flash memory is
erased or programmed. An erase or program that completes ends with its enabling flag clear. -/
theorem updates_considerate (device : Device) :
    (∀ (s : Recorder) (x : Step (Machine.Control Recorder)) (op : Operation),
      x.operation? = some op → ∃ log, (leaves (x.act device) s).events = log ++ s.events ∧
        Considerate device op log ∧
        ∀ reply t, x.act device s = .ok reply t → Disarmed op log) ∧
    (∀ f : Flag .cr, f = .eopie ∨ f = .errie →
      (Register.cr.foreign device).getLsbD f.bit = true) ∧
    (Register.cr.foreign .stm32f745).getLsbD 7 = true := by
  refine ⟨fun s x op is => ?_, ?_, by decide⟩
  · obtain ⟨log, events, told⟩ := step_minds is s s.events rfl
    cases run : x.act device s with
    | ok reply t =>
      rw [run] at told
      obtain ⟨considerate, disarmed⟩ := told
      exact ⟨log, events, considerate, fun _ _ _ => disarmed⟩
    | error e t =>
      rw [run] at told
      refine ⟨log, events, told, fun _ _ same => ?_⟩
      cases same
  · rintro f (rfl | rfl) <;> cases device <;> decide

/-- An erase on registers that answer differently from read to read. The interrupt enables and a
bit without a name are set now and then. -/
theorem updates_considerate_answers :
    let op := Operation.eraseSector 5 .x32
    let x : Step (Machine.Control Recorder) := .operate op
    let stored : Bank Contents := ⟨⟨0x83000080⟩, ⟨0⟩, ⟨0⟩, ⟨1⟩⟩
    let queued : Bank fun r => List (Contents r) :=
      ⟨[⟨0x01000000⟩, ⟨0x02000280⟩, ⟨0x00000005⟩], [⟨0x10000⟩], [], []⟩
    let s : Recorder := ⟨stored, queued, []⟩
    x.operation? = some op ∧ ∃ log, (leaves (x.act .stm32f745) s).events = log ++ s.events ∧
      log.length = 13 ∧ Considerate .stm32f745 op log ∧ Disarms .ser log := by
  intro op x stored queued s
  obtain ⟨log, events, considerate, disarmed⟩ := (updates_considerate .stm32f745).1 s x op rfl
  have length : log.length = 13 := by
    have same : log = (leaves (x.act .stm32f745) s).events := by rw [events, List.append_nil]
    rw [same]
    decide +kernel
  refine ⟨rfl, log, events, length, considerate, ?_⟩
  cases run : x.act .stm32f745 s with
  | ok reply t => exact disarmed reply t run .ser rfl
  | error h t =>
    have completes : (x.act .stm32f745 s) matches .ok .. := by decide +kernel
    rw [run] at completes
    cases completes

end Recorder
end FlashController
