import FlashController.Procedure.Programming
import FlashController.Proofs.Simulator.Idle

/-! Locking and unlocking both domains, and programming the option bytes, on the simulated
controller in any state between calls. Writing the option control register of a busy controller is
a violation, so locking the option bytes may be counted as one; the main domain can always be
locked. -/
namespace FlashController.Simulator
variable {device : Device}

/-- Between calls the option bytes are not starting either, neither now nor after a reset. -/
structure Quiet (s : Simulator device) : Prop extends Sound s where
  options_clear : s.optcr.has .optstrt = false
  committed : s.committed.optionBytes = s.committed

section Quiet
variable {s : Simulator device}

theorem Quiet.logged (h : Quiet s) (events : List Event) : Quiet (s.logged events) :=
  ⟨⟨h.memory_size, h.start_clear, h.busy_clear⟩, h.options_clear, h.committed⟩

theorem committed_clear (committed : s.committed.optionBytes = s.committed) :
    (s.committed.set .optlock true).has .optstrt = false := by
  rw [Contents.has_set_of_ne (by decide), ← committed]
  exact s.committed.has_optionBytes (.inr rfl)

theorem acceptOptions_committed (v : Contents .optcr) (h : s.committed.optionBytes = s.committed) :
    (acceptOptions v s).committed.optionBytes = (acceptOptions v s).committed := by
  simp only [acceptOptions]
  split
  · exact v.optionBytes_optionBytes
  · exact h

theorem writeOptions_committed (v : Contents .optcr) (h : s.committed.optionBytes = s.committed) :
    (leaves (writeRegister .optcr v) s).committed.optionBytes =
      (leaves (writeRegister .optcr v) s).committed := by
  cases lock : s.isLocked .optionBytes with
  | true =>
    rw [leaves_ok (writeOptions_locked lock)]
    exact h
  | false =>
    by_cases idle : s.busy = 0
    · rw [leaves_ok (writeOptions_idle lock idle)]
      exact acceptOptions_committed v h
    · have written := writeOptions_busy (v := v) lock idle
      split at written
      · rw [leaves_ok written]
        exact acceptOptions_committed v h
      · rw [leaves_error written]
        exact h

theorem Quiet.perform (h : Quiet s) (a : Access) : Quiet (leaves (Machine.perform a) s) := by
  have sound := h.toSound.perform a
  cases a with
  | read r =>
    obtain ⟨busy, events, frame, _⟩ := read_frame r s
    rw [frame] at sound ⊢
    exact ⟨sound, h.options_clear, h.committed⟩
  | barrier => exact ⟨sound, h.options_clear, h.committed⟩
  | store a w =>
    obtain ⟨memory, flags, busy, violations, events, frame, _⟩ := storeWord_frame a w s
    have frame : leaves (Machine.perform (.store a w)) s = _ := frame
    rw [frame] at sound ⊢
    exact ⟨sound, h.options_clear, h.committed⟩
  | key d k =>
    cases d with
    | main => exact ⟨sound, h.options_clear, h.committed⟩
    | optionBytes =>
      refine ⟨sound, ?_, h.committed⟩
      exact (turnKey_has (d := .optionBytes) (f := .optstrt) (by decide) k s.optcr
        s.optionStage).trans h.options_clear
  | write r v =>
    cases r with
    | sr | acr => exact ⟨sound, h.options_clear, h.committed⟩
    | cr =>
      obtain ⟨t, lost, _, rfl⟩ | ⟨memory, flags, busy, violations, events, written, _⟩ :=
        writeControl_frame v s
      · have lost : Machine.perform (.write .cr v) s = _ := lost
        rw [leaves_error lost] at sound ⊢
        exact ⟨sound, h.options_clear, h.committed⟩
      · have written : Machine.perform (.write .cr v) s = _ := written
        rw [leaves_ok written] at sound ⊢
        exact ⟨sound, h.options_clear, h.committed⟩
    | optcr =>
      refine ⟨sound, ?_, writeOptions_committed v h.committed⟩
      obtain ⟨t, lost, _, rfl⟩ | ⟨committed, busy, violations, events, written, _⟩ :=
        writeOptions_frame v s
      · have lost : Machine.perform (.write .optcr v) s = _ := lost
        rw [leaves_error lost]
        exact h.options_clear
      · have written : Machine.perform (.write .optcr v) s = _ := written
        rw [leaves_ok written]
        show (if s.isLocked .optionBytes then s.optcr else v.set .optstrt false).has _ = false
        split
        · exact h.options_clear
        · exact v.has_set_self .optstrt false

theorem Quiet.control (h : Quiet s) (c : Control) : Quiet (leaves (Simulator.control c) s) := by
  have sound := h.toSound.control c
  obtain rfl | ⟨memory, flags, busy, latency, frame, _⟩ := control_frame c s
  · exact ⟨sound, committed_clear h.committed, h.committed⟩
  · rw [frame] at sound ⊢
    exact ⟨sound, h.options_clear, h.committed⟩

theorem Reachable.quiet (h : Reachable s) : Quiet s := by
  refine h.invariant (fun v => ?_) (fun a _ quiet => quiet.perform a)
    (fun c _ quiet => quiet.control c) fun _ quiet => quiet.logged []
  have bytes := v.optionBytes_optionBytes
  exact ⟨(Reachable.start v).sound, committed_clear (s := withOptionBytes device v) bytes, bytes⟩

theorem Quiet.procedure (h : Quiet s) (p : Procedure α) : Quiet (leaves p.run s) :=
  p.run_keeps (P := Quiet) (fun a _ h => h.perform a) s h

theorem Quiet.run {p : Procedure α} {s t : Simulator device} {a : α} (h : Quiet s)
    (run : Completes p s a t) : Quiet t := by
  obtain ⟨later, left⟩ := run.leaves
  have quiet := h.procedure p
  rw [left] at quiet
  exact quiet.logged t.events

end Quiet

/-- The state after a domain was locked or unlocked. A key sequence that was begun is forgotten. -/
def latched (d : Domain) (on : Bool) (s : Simulator device) : Simulator device :=
  match d with
  | .main => { s with cr := s.cr.set .lock on, mainStage := .idle }
  | .optionBytes => { s with optcr := s.optcr.set .optlock on, optionStage := .idle }

/-- Setting the lock bit of the domain is a violation. -/
def Offends (d : Domain) (s : Simulator device) : Prop :=
  d = .optionBytes ∧ s.isLocked .optionBytes = false ∧ s.busy ≠ 0

instance (d : Domain) (s : Simulator device) : Decidable (Offends d s) :=
  inferInstanceAs (Decidable (_ ∧ _ ∧ _))

def charged (d : Domain) (s : Simulator device) : Simulator device :=
  if Offends d s then { s with violations := s.violations + 1 } else s

section Lock
variable {s : Simulator device}

theorem charged_main (s : Simulator device) : charged .main s = s :=
  if_neg fun offends => nomatch offends.1

theorem charged_locked {d : Domain} (locked : s.isLocked .optionBytes = true) :
    charged d s = s := by
  refine if_neg ?_
  rintro ⟨_, unlocked, _⟩
  exact absurd (locked.symm.trans unlocked) nofun

theorem charged_idle {d : Domain} (idle : s.busy = 0) : charged d s = s :=
  if_neg fun offends => offends.2.2 idle

theorem charged_busy (unlocked : s.isLocked .optionBytes = false) (busy : s.busy ≠ 0) :
    charged .optionBytes s = { s with violations := s.violations + 1 } :=
  if_pos ⟨rfl, unlocked, busy⟩

/-- A change of the lock bit is no change of an operation. -/
theorem lock_calm (on : Bool) (s : Simulator device) : ¬ Disturbs (s.cr.set .lock on) s := by
  have apart : (operationMask device).getLsbD Flag.lock.bit = false := by cases device <;> decide
  rintro ⟨_, differs⟩
  refine differs (BitVec.eq_of_getLsbD_eq fun i _ => ?_)
  show _ = (0#32).getLsbD i
  rw [BitVec.getLsbD_and, BitVec.getLsbD_xor, Contents.getLsbD_set, BitVec.getLsbD_zero]
  by_cases here : Flag.lock.bit = i
  · rw [← here, apart, Bool.and_false]
  · rw [if_neg here, Bool.xor_self, Bool.false_and]

theorem lockMain_completes (h : Sound s) :
    Completes (Procedure.lock .main) s () (latched .main true s) := by
  cases lock : s.isLocked .main with
  | true =>
    have same : latched .main true s = s.unkeyed :=
      congrArg (controlled · s.unkeyed) (Contents.set_same lock)
    rw [same]
    exact update_locked lock ((Contents.has_set_self _ _ _).trans lock.symm)
  | false =>
    intro events
    have clear : (s.cr.set .lock true).has .strt = false :=
      (Contents.has_set_of_ne (by decide)).trans h.start_clear
    refine ⟨.write .cr (s.cr.set .lock true) :: events, (run_updateControl _ _).trans ?_⟩
    have written := writeControl_calm (v := s.cr.set .lock true) (s := s.logged events) lock
      (lock_calm true _)
    simp only [acceptControl, clear, Contents.set_same clear, Contents.has_set_self,
      Bool.false_and, if_true] at written
    exact written

theorem run_updateOptions (f : Contents .optcr → Contents .optcr) (s : Simulator device) :
    (Procedure.update .optcr f).run s = writeRegister .optcr (f s.optcr) s :=
  Procedure.run_update (t := s) rfl

theorem accept_optlock (clear : s.optcr.has .optstrt = false) :
    acceptOptions (s.optcr.set .optlock true) s = latched .optionBytes true s := by
  have clear : (s.optcr.set .optlock true).has .optstrt = false :=
    (Contents.has_set_of_ne (by decide)).trans clear
  simp only [acceptOptions, clear, Contents.set_same clear, Contents.has_set_self, if_true]
  rfl

theorem run_lockOptions (s : Simulator device) :
    (Procedure.lock .optionBytes).run s = writeRegister .optcr (s.optcr.set .optlock true) s :=
  run_updateOptions _ _

theorem lockOptions_completes (clear : s.optcr.has .optstrt = false)
    (room : Offends .optionBytes s → s.violations + 1 < UInt32.size) :
    Completes (Procedure.lock .optionBytes) s ()
      (latched .optionBytes true (charged .optionBytes s)) := by
  intro events
  have accept := fun t : Simulator device => accept_optlock (s := t)
  refine ⟨.write .optcr (s.optcr.set .optlock true) :: events, (run_lockOptions _).trans ?_⟩
  cases lock : s.isLocked .optionBytes with
  | true =>
    have written := writeOptions_locked (v := s.optcr.set .optlock true) (s := s.logged events) lock
    rw [if_pos (Contents.has_set_self _ _ _)] at written
    have same : s.optcr.set .optlock true = s.optcr := Contents.set_same lock
    rw [same] at written
    rw [charged_locked lock, latched, same]
    exact written
  | false =>
    by_cases idle : s.busy = 0
    · have accepted := accept (s.logged (.write .optcr (s.optcr.set .optlock true) :: events)) clear
      rw [charged_idle idle]
      exact (writeOptions_idle (s := s.logged events) lock idle).trans
        (congrArg (EStateM.Result.ok ()) accepted)
    · have room := room ⟨rfl, lock, idle⟩
      rw [charged_busy lock idle]
      have accepted := accept { s.logged (.write .optcr (s.optcr.set .optlock true) :: events) with
        violations := s.violations + 1 } clear
      have written := writeOptions_busy (v := s.optcr.set .optlock true) (s := s.logged events)
        lock idle
      rw [if_pos room] at written
      exact written.trans (congrArg (EStateM.Result.ok ()) accepted)

theorem lockOptions_halts (offends : Offends .optionBytes s)
    (full : ¬ s.violations + 1 < UInt32.size) :
    Halts (Procedure.lock .optionBytes) s .additionOverflow s := by
  intro events
  refine ⟨.write .optcr (s.optcr.set .optlock true) :: events, (run_lockOptions _).trans ?_⟩
  have written := writeOptions_busy (v := s.optcr.set .optlock true) (s := s.logged events)
    offends.2.1 offends.2.2
  rwa [if_neg full] at written

theorem lock_completes (h : Quiet s) (d : Domain)
    (room : Offends d s → s.violations + 1 < UInt32.size) :
    Completes (Procedure.lock d) s () (latched d true (charged d s)) := by
  cases d with
  | main =>
    rw [charged_main]
    exact lockMain_completes h.toSound
  | optionBytes => exact lockOptions_completes h.options_clear room

theorem key_completes (d : Domain) (k : BitVec 32) (s : Simulator device) :
    Completes (Procedure.key d k) s () (acceptKey d k s) := by
  intro events
  refine ⟨.key d k :: events, (congrFun (Procedure.run_act _) _).trans ?_⟩
  cases d <;> rfl

theorem turnKey_first {d : Domain} {v : Contents d.register} (locked : v.has d.lockFlag = true) :
    turnKey d d.firstKey v .idle = (v, .first) := by
  simp only [turnKey, locked, if_true]

theorem turnKey_second {d : Domain} {v : Contents d.register} (locked : v.has d.lockFlag = true) :
    turnKey d d.secondKey v .first = (v.set d.lockFlag false, .idle) := by
  simp only [turnKey, locked, if_true]

/-- Both keys, written to a domain that was just locked. -/
theorem acceptKey_latched (d : Domain) (s : Simulator device) :
    acceptKey d d.secondKey (acceptKey d d.firstKey (latched d true s)) = latched d false s := by
  cases d with
  | main =>
    have locked : (s.cr.set .lock true).has (Domain.lockFlag .main) = true :=
      Contents.has_set_self _ _ _
    have first := turnKey_first (d := .main) locked
    have second := turnKey_second (d := .main) locked
    simp only [acceptKey, latched]
    rw [first]
    simp only []
    rw [second]
    exact congrArg (controlled · s.unkeyed) (Contents.set_set _ _ _ _)
  | optionBytes =>
    have locked : (s.optcr.set .optlock true).has (Domain.lockFlag .optionBytes) = true :=
      Contents.has_set_self _ _ _
    have first := turnKey_first (d := .optionBytes) locked
    have second := turnKey_second (d := .optionBytes) locked
    simp only [acceptKey, latched]
    rw [first]
    simp only []
    rw [second]
    exact congrArg (fun optcr => { s with optcr, optionStage := .idle })
      (Contents.set_set s.optcr .optlock true false)

theorem unlock_completes (h : Quiet s) (d : Domain)
    (room : Offends d s → s.violations + 1 < UInt32.size) :
    Completes (Procedure.unlock d) s () (latched d false (charged d s)) := by
  have turned := (key_completes d d.firstKey (latched d true (charged d s))).bind
    (f := fun _ => Procedure.key d d.secondKey) (key_completes d d.secondKey _)
  rw [acceptKey_latched] at turned
  exact (lock_completes h d room).bind turned

theorem unlockMain_completes (h : Quiet s) :
    Completes (Procedure.unlock .main) s () (latched .main false s) := by
  have unlock := unlock_completes h .main fun offends => nomatch offends.1
  rwa [charged_main] at unlock

end Lock

section Options
variable {s : Simulator device}

theorem read_completes {r : Register} {v : Contents r}
    (answers : ∀ events, (Machine.perform (.read r) : MachineM (Simulator device) (Contents r))
      (s.logged events) = .ok v (s.logged events)) : Completes (Procedure.read r) s v s :=
  fun events => ⟨events, (congrFun (Procedure.run_act _) _).trans (answers events)⟩

theorem isLocked_completes (d : Domain) (s : Simulator device) :
    Completes (Procedure.isLocked d) s (s.isLocked d) s := by
  have read : Completes (Procedure.read d.register) s (s.guarded d) s := by
    cases d <;> exact read_completes fun _ => rfl
  exact read.bind (completes_pure _ s)

/-- A write to the option control register of an idle, unlocked controller. -/
theorem writeOptions_completes (unlocked : s.isLocked .optionBytes = false) (idle : s.busy = 0)
    (v : Contents .optcr) : Completes (Procedure.write v) s () (acceptOptions v s) := by
  intro events
  refine ⟨.write .optcr v :: events, (congrFun (Procedure.run_act _) _).trans ?_⟩
  have written := writeOptions_idle (v := v) (s := s.logged events) unlocked idle
  refine written.trans (congrArg (EStateM.Result.ok ()) ?_)
  simp only [acceptOptions]
  split <;> rfl

def configured (v : Contents .optcr) (s : Simulator device) : Simulator device :=
  { s with optcr := v }

/-- The state after option bytes were programmed. -/
def optioned (v : Contents .optcr) (s : Simulator device) : Simulator device :=
  { s with
    optcr := v.optionBytes
    committed := v.optionBytes
    optionStage := if s.isLocked .optionBytes then .idle else s.optionStage
    busy := 0 }

/-- Option bytes clear both reserved flags, so they neither lock nor start. -/
theorem accept_optionBytes (v : Contents .optcr) (s : Simulator device) :
    acceptOptions v.optionBytes s = configured v.optionBytes s := by
  have locks := v.has_optionBytes (f := .optlock) (.inl rfl)
  have starts := v.has_optionBytes (f := .optstrt) (.inr rfl)
  simp only [acceptOptions, locks, starts, Contents.set_same starts, Bool.false_eq_true, if_false,
    configured]

theorem accept_optstrt (v : Contents .optcr) (s : Simulator device) :
    acceptOptions (v.optionBytes.set .optstrt true) s =
      startOperation { configured v.optionBytes s with committed := v.optionBytes } := by
  have locks : (v.optionBytes.set .optstrt true).has .optlock = false :=
    (Contents.has_set_of_ne (by decide)).trans (v.has_optionBytes (.inl rfl))
  have bytes : (v.optionBytes.set .optstrt true).optionBytes = v.optionBytes :=
    (v.optionBytes.optionBytes_set true (.inr rfl)).trans v.optionBytes_optionBytes
  have stops : (v.optionBytes.set .optstrt true).set .optstrt false = v.optionBytes :=
    (Contents.set_set _ _ _ _).trans (Contents.set_same (v.has_optionBytes (.inr rfl)))
  simp only [acceptOptions, locks, bytes, stops, Contents.has_set_self, Bool.false_eq_true,
    if_false, if_true, configured]

/-- The part of programming option bytes between its waits. -/
def issue (v : Contents .optcr) : Procedure Unit := do
  if ← Procedure.isLocked .optionBytes then
    Procedure.unlock .optionBytes
  Procedure.write v.optionBytes
  Procedure.update .optcr (·.set .optstrt true)

theorem programOptionBytes_eq (v : Contents .optcr) :
    Procedure.programOptionBytes v = (do
      Procedure.waitUntilIdle
      issue v
      Procedure.waitUntilIdle) := by
  simp only [Procedure.programOptionBytes, issue, bind_assoc]
  congr
  funext _
  congr
  funext locked
  cases locked <;> simp only [Bool.false_eq_true, if_false, if_true, bind_assoc]

/-- The state in which option bytes are programmed by themselves. -/
def issued (v : Contents .optcr) (s : Simulator device) : Simulator device :=
  startOperation { s with
    optcr := v.optionBytes
    committed := v.optionBytes
    optionStage := if s.isLocked .optionBytes then .idle else s.optionStage }

/-- What is left to issue once the domain is unlocked. -/
theorem issue_unlocked (unlocked : s.isLocked .optionBytes = false) (idle : s.busy = 0)
    (v : Contents .optcr) :
    Completes (do
      Procedure.write v.optionBytes
      Procedure.update .optcr (·.set .optstrt true)) s () (issued v s) := by
  have write := writeOptions_completes unlocked idle v.optionBytes
  rw [accept_optionBytes] at write
  have still : (configured v.optionBytes s).isLocked .optionBytes = false :=
    v.has_optionBytes (.inl rfl)
  have start := writeOptions_completes still idle (v.optionBytes.set .optstrt true)
  have ended : issued v s = startOperation
      { configured v.optionBytes (configured v.optionBytes s) with
        committed := v.optionBytes } := by
    simp only [issued, unlocked, Bool.false_eq_true, if_false]
    rfl
  rw [accept_optstrt, ← ended] at start
  have read : Completes (Procedure.read .optcr) (configured v.optionBytes s) v.optionBytes
      (configured v.optionBytes s) := read_completes fun _ => rfl
  have update := read.bind (f := fun u => Procedure.write (u.set .optstrt true)) start
  exact write.bind update

theorem issue_completes (h : Quiet s) (idle : s.busy = 0) (v : Contents .optcr) :
    Completes (issue v) s () (issued v s) := by
  refine (isLocked_completes .optionBytes s).bind ?_
  cases lock : s.isLocked .optionBytes with
  | true =>
    have unlock := unlock_completes h .optionBytes fun offends => absurd idle offends.2.2
    rw [charged_idle idle] at unlock
    have unlocked : (latched .optionBytes false s).isLocked .optionBytes = false :=
      s.optcr.has_set_self .optlock false
    have same : issued v (latched .optionBytes false s) = issued v s := by
      simp only [issued, lock, unlocked, Bool.false_eq_true, if_false, if_true]
      rfl
    rw [if_pos rfl]
    exact unlock.bind (same ▸ issue_unlocked unlocked idle v)
  | false =>
    rw [if_neg Bool.false_ne_true]
    exact issue_unlocked lock idle v

/-- Option bytes are programmed from any state of the domain's lock. -/
theorem programOptionBytes_completes (h : Quiet s) (v : Contents .optcr) :
    Completes (Procedure.programOptionBytes v) s () (optioned v s) := by
  have wait := waitUntilIdle_completes h.busy_clear
  have issue := issue_completes (h.run wait) rfl v
  have ended : (issued v s.rested).rested = optioned v s := rfl
  rw [programOptionBytes_eq, ← ended]
  exact wait.bind (issue.bind (waitUntilIdle_completes h.busy_clear))

end Options
end FlashController.Simulator
