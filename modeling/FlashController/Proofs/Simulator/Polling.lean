import FlashController.Proofs.Simulator.Lifetime
import FlashController.Proofs.Simulator.Stickiness
import FlashController.Proofs.Waiting

/-! How often the driver looks at the status of the simulated controller. A wait takes one read for
each that the operation in progress has left and one more, so the reads of an operation follow from
the busy count at its start and from what it starts itself. -/
namespace FlashController.Simulator
variable {device : Device}

def Event.isStatusRead : Event → Bool
  | .statusRead _ => true
  | _ => false

def Event.store? : Event → Option Address
  | .store a _ => some a
  | _ => none

def statusReads (events : List Event) : Nat := events.countP Event.isStatusRead

/-- The addresses of the stores, the newest first. -/
def storesAt (events : List Event) : List Address := events.filterMap Event.store?

theorem statusReads_append (newer older : List Event) :
    statusReads (newer ++ older) = statusReads newer + statusReads older := List.countP_append

theorem storesAt_append (newer older : List Event) :
    storesAt (newer ++ older) = storesAt newer ++ storesAt older := List.filterMap_append

/-- A procedure completes in a state with some number of status reads and with stores to some
addresses, whatever was noted before. -/
def Spends (p : Procedure α) (s : Simulator device) (a : α) (t : Simulator device) (reads : Nat)
    (stores : List Address) : Prop :=
  ∀ events, ∃ noted, p.run (s.logged events) = .ok a (t.logged (noted ++ events)) ∧
    statusReads noted = reads ∧ storesAt noted = stores

/-- Any move but a wait, a look at the status or a store. -/
def Silent : Move → Prop
  | .act (.read r) => r ≠ .sr
  | .act (.store _ _) | .await _ _ => False
  | .act (.write _ _) | .act (.key _ _) | .act .barrier => True

section Spends
variable {p : Procedure α} {f : α → Procedure β} {s t u : Simulator device} {a : α} {b : β}
  {n m : Nat} {stores more : List Address}

theorem Spends.completes (h : Spends p s a t n stores) : Completes p s a t := by
  intro events
  obtain ⟨noted, run, _⟩ := h events
  exact ⟨noted ++ events, run⟩

theorem Spends.bind (first : Spends p s a t n stores) (rest : Spends (f a) t b u m more) :
    Spends (p >>= f) s b u (n + m) (more ++ stores) := by
  intro events
  obtain ⟨noted, run, rfl, rfl⟩ := first events
  obtain ⟨later, goes, rfl, rfl⟩ := rest (noted ++ events)
  refine ⟨later ++ noted, ?_, ?_, storesAt_append later noted⟩
  · rw [List.append_assoc]
    exact (Procedure.run_bind_ok run).trans goes
  · rw [statusReads_append, Nat.add_comm]

theorem Spends.andThen {p : Procedure Unit} {q : Procedure β} (first : Spends p s () t n stores)
    (rest : Spends q t b u m more) : Spends (p >>= fun _ => q) s b u (n + m) (more ++ stores) :=
  first.bind rest

theorem Spends.silent {p : Procedure Unit} (h : Spends p s () t n stores) :
    Spends (Operation.procedure.silent p) s .done t n stores := by
  intro events
  obtain ⟨noted, run, counts⟩ := h events
  rw [Operation.procedure.silent, map_eq_pure_bind]
  exact ⟨noted, Procedure.run_bind_ok run, counts⟩

theorem silent_noted (silent : p.Makes Silent) (s : Simulator device) :
    ∃ noted, (leaves p.run s).events = noted ++ s.events ∧ statusReads noted = 0 ∧
      storesAt noted = [] := by
  refine silent.run_keeps (P := fun t : Simulator device => ∃ noted,
      t.events = noted ++ s.events ∧ statusReads noted = 0 ∧ storesAt noted = [])
    (fun x t kind h => ?_) (fun _ _ _ waits => absurd waits id) ⟨[], rfl, rfl, rfl⟩
  obtain ⟨older, same, reads, stores⟩ := h
  have quiet : statusReads (noted t x) = 0 ∧ storesAt (noted t x) = [] := by
    cases x with
    | read r =>
      cases r with
      | sr => exact absurd rfl kind
      | cr | acr | optcr => exact ⟨rfl, rfl⟩
    | write r v => cases r <;> exact ⟨rfl, rfl⟩
    | key | barrier => exact ⟨rfl, rfl⟩
    | store => exact absurd kind id
  refine ⟨noted t x ++ older, ?_, ?_, ?_⟩
  · rw [performed_noted, same, List.append_assoc]
  · rw [statusReads_append, quiet.1, reads]
  · rw [storesAt_append, quiet.2, stores, List.append_nil]

/-- What goes on after some reads and does not look any more adds nothing to them. -/
theorem Spends.ends (first : Spends p s a t n stores) (silent : (f a).Makes Silent)
    (whole : Completes (p >>= f) s b u) : Spends (p >>= f) s b u n stores := by
  intro events
  obtain ⟨noted, run, rfl, rfl⟩ := first events
  obtain ⟨later, goes⟩ := whole events
  have rest : (f a).run (t.logged (noted ++ events)) = .ok b (u.logged later) :=
    (Procedure.run_bind_ok run).symm.trans goes
  obtain ⟨newer, same, reads, stores⟩ := silent_noted silent (t.logged (noted ++ events))
  rw [leaves_ok rest] at same
  have same : later = newer ++ noted ++ events := same.trans (List.append_assoc _ _ _).symm
  refine ⟨newer ++ noted, same ▸ goes, ?_, ?_⟩
  · rw [statusReads_append, reads, Nat.zero_add]
  · rw [storesAt_append, stores, List.nil_append]

theorem Completes.unread (run : Completes p s a t) (silent : p.Makes Silent) :
    Spends p s a t 0 [] := by
  have nothing : Spends (pure () : Procedure Unit) s () s 0 [] :=
    fun events => ⟨[], rfl, rfl, rfl⟩
  have whole : Completes (pure () >>= fun _ => p) s a t := by rwa [pure_bind]
  have spends := nothing.ends silent whole
  rwa [pure_bind] at spends

end Spends

theorem update_silent {r : Register} (other : r ≠ .sr) (f : Contents r → Contents r) :
    (Procedure.update r f).Makes Silent := ⟨other, fun _ => ⟨trivial, fun _ => trivial⟩⟩

section Waits
variable {s : Simulator device}

theorem run_waitUntilIdle (clear : s.flags.has .bsy = false) :
    Procedure.waitUntilIdle.run s = .ok () (waited (note .barrier s)) := by
  have ready := awaitReady_idle (s := note .barrier s) clear (Nat.le_refl s.busy)
  have poll := (Procedure.run_readUntil .sr (fun v => !v.has .bsy) (note .barrier s)).trans ready
  exact Procedure.run_bind_ok poll

theorem waitUntilIdle_spends (clear : s.flags.has .bsy = false) :
    Spends Procedure.waitUntilIdle s () s.rested (s.busy + 1) [] := by
  intro events
  refine ⟨.statusRead false :: (List.replicate s.busy (.statusRead true) ++ [.barrier]),
    ?_, ?_, ?_⟩
  · rw [run_waitUntilIdle (s := s.logged events) clear, List.cons_append, List.append_assoc]
    rfl
  · simp [statusReads, Event.isStatusRead, List.countP_cons, List.countP_replicate]
  · simp only [storesAt, List.filterMap_cons, List.filterMap_append, List.filterMap_replicate,
      List.filterMap_nil, Event.store?]
    rfl

theorem polls_idle (clear : s.flags.has .bsy = false) (n : Nat) :
    Plays (Script.ofList (List.replicate n .pollIdle)) s.rested
      (List.replicate n (.idle true)) s.rested := by
  induction n with
  | zero => exact plays_done _
  | succ n ih => exact Plays.step ((pollIdle_completes (s := s.rested) clear).map _) ih

/-- Polling tells that the controller is busy as often as a wait would find it so. -/
theorem polls_play (clear : s.flags.has .bsy = false) (n : Nat) :
    Plays (Script.ofList (List.replicate (s.busy + n) .pollIdle)) s
      (List.replicate s.busy (.idle false) ++ List.replicate n (.idle true)) s.rested := by
  induction busy : s.busy generalizing s with
  | zero =>
    have rests : s.rested = s := by rw [rested, ← busy]
    have idle := polls_idle clear n
    rw [Nat.zero_add]
    rw [rests] at idle ⊢
    exact idle
  | succ m ih =>
    have poll := (pollIdle_completes clear).map Reply.idle
    have left : (polled s).busy = m := by rw [polled, busy, Nat.succ_sub_one]
    rw [busy] at poll
    rw [Nat.succ_add]
    exact Plays.step poll (ih (s := polled s) clear left)

end Waits

section Erases
variable {s : Simulator device} {w : Width} {select deselect : Contents .cr → Contents .cr}

theorem launch_silent (w : Width) (select : Contents .cr → Contents .cr) :
    (launch w select).Makes Silent :=
  (update_silent (by decide) _).bind fun _ =>
    (update_silent (by decide) _).bind fun _ => update_silent (by decide) _

theorem launched_busy (w : Width) (select : Contents .cr → Contents .cr)
    (s : Simulator device) : (launched w select s).busy = s.latency := by
  rw [launched, erased_eq]
  rfl

/-- An erase waits for the operation in progress, and then for its own, which a locked controller
does not start. -/
theorem erase_spends (h : Sound s) (selects : Harmless select) (deselects : Harmless deselect) :
    Spends (Procedure.erase w select deselect) s () (wiped w select deselect s)
      (s.busy + 1 + if s.isLocked .main then 1 else s.latency + 1) [] := by
  have whole := erase_completes (w := w) h selects deselects
  have grouped : Procedure.erase w select deselect = (do
      Procedure.waitUntilIdle
      launch w select
      Procedure.waitUntilIdle) >>= fun _ => Procedure.update .cr deselect := by
    simp only [erase_eq, bind_assoc]
  have wait := waitUntilIdle_spends h.busy_clear
  have silent := launch_silent w select
  rw [grouped] at whole ⊢
  cases lock : s.isLocked .main with
  | true =>
    have launch := (launch_locked (s := s.rested) lock w selects).unread silent
    have again := waitUntilIdle_spends (s := s.rested.unkeyed) h.busy_clear
    have reads := wait.andThen (launch.andThen again)
    rw [Nat.zero_add] at reads
    exact reads.ends (update_silent (by decide) _) whole
  | false =>
    have launch := launch_unlocked (s := s.rested) lock rfl h.start_clear w selects
    have again := waitUntilIdle_spends ((h.run wait.completes).run launch).busy_clear
    rw [launched_busy] at again
    have reads := wait.andThen ((launch.unread silent).andThen again)
    rw [Nat.zero_add] at reads
    exact reads.ends (update_silent (by decide) _) whole

theorem issue_silent (v : Contents .optcr) : (issue v).Makes Silent := by
  have write : (Procedure.write v.optionBytes).Makes Silent := ⟨trivial, fun _ => trivial⟩
  have rest := write.bind fun _ => update_silent (by decide) (·.set .optstrt true)
  have key : ∀ k, (Procedure.key .optionBytes k).Makes Silent :=
    fun k => ⟨trivial, fun _ => trivial⟩
  have unlock : (Procedure.unlock .optionBytes).Makes Silent :=
    (update_silent (r := .optcr) (by decide) _).bind fun _ => (key _).bind fun _ => key _
  have look : (Procedure.isLocked .optionBytes).Makes Silent :=
    ⟨nofun, fun _ => trivial⟩
  refine look.bind fun locked => ?_
  cases locked with
  | true => exact unlock.bind fun _ => rest
  | false => exact rest

theorem programOptionBytes_spends (h : Quiet s) (v : Contents .optcr) :
    Spends (Procedure.programOptionBytes v) s () (optioned v s)
      (s.busy + 1 + (s.latency + 1)) [] := by
  have wait := waitUntilIdle_spends h.busy_clear
  have issue := (issue_completes (h.run wait.completes) rfl v).unread (issue_silent v)
  have again := waitUntilIdle_spends (s := issued v s.rested) h.busy_clear
  have reads := wait.andThen (issue.andThen again)
  rw [Nat.zero_add] at reads
  rw [programOptionBytes_eq]
  exact reads

end Erases

section Programs
variable {s : Simulator device} {a : Address} {w : Word}

/-- A store to the address starts an operation in a controller that is set up for it. -/
def opens (s : Simulator device) (a : Address) : Bool :=
  !s.isLocked .main && !(Sector.ofAddress? a).any s.isProtected

theorem aim_spends (h : Sound s) (w : Width) :
    Spends (aim w) s () (aimed w s) (s.busy + 1) [] :=
  (waitUntilIdle_spends h.busy_clear).ends
    ((update_silent (by decide) _).bind fun _ => update_silent (by decide) _) (aim_completes h w)

theorem store_spends {t : Simulator device} (run : Completes (Procedure.store a w) s () t) :
    Spends (Procedure.store a w) s () t 0 [a] := by
  intro events
  obtain ⟨later, run⟩ := run events
  have stored := storeWord_events a w (s.logged events)
  rw [leaves_ok ((run_store a w _).symm.trans run)] at stored
  have same : later = [.store a w.width] ++ events := stored
  exact ⟨[.store a w.width], same ▸ run, rfl, rfl⟩

/-- The store of a program operation, and how long the operation that it starts will take. -/
theorem aimed_store (h : Sound s) (inside : InWindow a)
    (aligned : a.toNat % w.width.bytes = 0) :
    ∃ t, Completes (Procedure.store a w) (aimed w.width s) () t ∧
      t.busy = if opens s a then s.latency else 0 := by
  cases lock : s.isLocked .main with
  | true =>
    have shut : opens s a = false := by rw [opens, lock]; rfl
    refine ⟨_, store_locked lock inside w, ?_⟩
    rw [aimed_busy, shut]
    rfl
  | false =>
    obtain ⟨t, store, _, busy⟩ := store_unlocked h lock inside w
    have open_iff : opens s a = true ↔ ¬ s.guards (a.toNat - flashStart) = true := by
      rw [opens, lock, protected_iff_guards inside]
      cases s.guards (a.toNat - flashStart) <;> decide
    refine ⟨t, store, busy.trans ?_⟩
    simp only [open_iff, aligned, true_and]

theorem program_spends (h : Sound s) (inside : InWindow a)
    (aligned : a.toNat % w.width.bytes = 0) :
    Spends (Procedure.program a w) s () (programmed w.width (stored a w) s)
      (s.busy + 2 + if opens s a then s.latency else 0) [a] := by
  have grouped : Procedure.program a w = (do
      aim w.width
      Procedure.store a w
      Procedure.waitUntilIdle) >>= fun _ => Procedure.update .cr (·.set .pg false) := by
    simp only [program_eq, bind_assoc]
  have whole := program_completes h inside w
  have aiming := aim_spends h w.width
  obtain ⟨t, store, busy⟩ := aimed_store h inside aligned
  have wait := waitUntilIdle_spends ((h.run aiming.completes).run store).busy_clear
  have reads := aiming.andThen ((store_spends store).andThen wait)
  have total : s.busy + 1 + (0 + (t.busy + 1)) =
      s.busy + 2 + if opens s a then s.latency else 0 := by
    rw [← busy]
    omega
  rw [total] at reads
  rw [grouped] at whole ⊢
  exact reads.ends (update_silent (by decide) _) whole

/-- After a word the controller is idle, and all else that decides how long a store takes is as it
was. -/
theorem programmed_paces (w : Width) (offset : Nat) (data : List UInt8) (s : Simulator device) :
    (programmed w (burnBytes offset data) s).busy = 0 ∧
      (programmed w (burnBytes offset data) s).latency = s.latency ∧
      opens (programmed w (burnBytes offset data) s) = opens s := by
  obtain ⟨memory, flags, burnt, _⟩ := burnBytes_frame offset data s
  have lock := programmed_lock w (burnBytes offset data) s
  have kept : ∃ cr mainStage memory flags, programmed w (burnBytes offset data) s =
      { s with cr, mainStage, memory, flags, busy := 0 } := by
    unfold programmed
    rw [burnt]
    split <;> exact ⟨_, _, _, _, rfl⟩
  obtain ⟨cr, stage, memory, flags, same⟩ := kept
  rw [same] at lock ⊢
  refine ⟨rfl, rfl, funext fun a => ?_⟩
  rw [opens, lock]
  rfl

/-- The stores of a run over words, each with the two reads of its waits and those that the
operation it starts takes. -/
theorem programWords_spends (h : Sound s) {words : List Word} (aligned : Aligned a.toNat words)
    (within : words ≠ [] → Within a (words.flatMap Word.bytes).length) :
    ∃ stores, stores.length = words.length ∧ (∀ b ∈ stores, InWindow b) ∧
      Spends (Procedure.programWords a words) s () (wordsProgrammed a words s)
        ((if words = [] then 0 else s.busy) + 2 * stores.length +
          s.latency * stores.countP (opens s)) stores := by
  induction words generalizing s a with
  | nil => exact ⟨[], rfl, nofun, fun events => ⟨[], rfl, rfl, rfl⟩⟩
  | cons w rest ih =>
    have within := within (List.cons_ne_nil w rest)
    rw [List.flatMap_cons, List.length_append, Word.length_bytes] at within
    have inside : InWindow a := within.inside (Nat.add_pos_left w.width.bytes_pos _)
    have fits : w.width.bytes ≤ room a := Nat.le_trans (Nat.le_add_right _ _) (within_room within)
    have first := program_spends h inside aligned.1
    rw [stored_aligned aligned.1] at first
    obtain ⟨next, further, stepped⟩ := advance_inside inside fits
    obtain ⟨stores, length, low, later⟩ := ih (h.run first.completes) (a := next)
      (stepped ▸ aligned.2) fun _ => ⟨by have := inside.1; omega, by have := within.2; omega⟩
    obtain ⟨idle, latency, same⟩ :=
      programmed_paces w.width (a.toNat - flashStart) w.bytes s
    rw [wordsProgrammed_cons inside stepped, idle, latency, same, ite_self, Nat.zero_add] at later
    have both := first.andThen later
    have total : s.busy + 2 + (if opens s a then s.latency else 0) +
        (2 * stores.length + s.latency * stores.countP (opens s)) =
        (if w :: rest = [] then 0 else s.busy) + 2 * (stores ++ [a]).length +
          s.latency * (stores ++ [a]).countP (opens s) := by
      rw [if_neg (List.cons_ne_nil w rest), List.countP_append, List.countP_singleton,
        List.length_append, List.length_singleton, Nat.mul_add, Nat.mul_add]
      cases opens s a <;>
        simp only [if_true, if_false, Bool.false_eq_true, Nat.mul_one, Nat.mul_zero] <;> omega
    refine ⟨stores ++ [a], ?_, fun b member => ?_, ?_⟩
    · rw [List.length_append, length]
      rfl
    · rcases List.mem_append.mp member with old | new
      · exact low b old
      · exact List.mem_singleton.mp new ▸ inside
    · rw [Procedure.programWords, Procedure.advance_eq further, pure_bind, ← total]
      exact both

/-- Within the window, byte by byte is in words of the smallest width. -/
theorem programBlock_narrow {data : List UInt8} (within : Within a data.length) :
    Procedure.programBlock a data = Procedure.programBlockWide a data .x8 := by
  have fits : a.toNat + data.length < UInt64.size := by
    have high := within.2
    unfold flashStart memorySize at high
    unfold UInt64.size
    omega
  rw [Procedure.programBlockWide, tile_x8]
  exact Procedure.programBytes_eq (Address.ofNat?_eq_some_iff.mpr rfl) fits

theorem programBlockWide_spends (h : Sound s) {data : List UInt8} (some : data ≠ [])
    (within : Within a data.length) (limit : Width) :
    ∃ stores, stores ≠ [] ∧ (∀ b ∈ stores, InWindow b) ∧
      Spends (Procedure.programBlockWide a data limit) s ()
        (wordsProgrammed a (tile a.toNat data limit) s)
        (s.busy + 2 * stores.length + s.latency * stores.countP (opens s)) stores := by
  have words : tile a.toNat data limit ≠ [] := fun none => some (tile_eq_nil_iff.mp none)
  obtain ⟨stores, length, low, spends⟩ := programWords_spends h (aligned_tile a.toNat data limit)
    fun _ => by rwa [bytes_tile]
  rw [if_neg words] at spends
  refine ⟨stores, ?_, low, spends⟩
  rintro rfl
  exact words (List.eq_nil_of_length_eq_zero length.symm)

end Programs

section Operations
variable {s : Simulator device}

/-- An operation completes or halts for a cause, but it does not wait for ever. -/
def Ends (p : Procedure α) (s : Simulator device) : Prop :=
  (∃ a t, Completes p s a t) ∨ ∃ e t, e ≠ .stuck ∧ Halts p s e t

theorem Completes.ends {p : Procedure α} {t : Simulator device} {a : α} (run : Completes p s a t) :
    Ends p s := .inl ⟨a, t, run⟩

theorem Halts.ends {p : Procedure α} {t : Simulator device} {e : Halt} (run : Halts p s e t)
    (other : e ≠ .stuck) : Ends p s := .inr ⟨e, t, other, run⟩

theorem Outcome.ends {p : Procedure Unit} {a : Address} {data : List UInt8}
    (h : Outcome p a data s) : Ends (Operation.procedure.silent p) s := by
  cases h with
  | whole w fits run => exact run.silent.ends
  | cut w u edge long at_edge run => exact run.silent.ends nofun

theorem latch_ends (h : Quiet s) {op : Operation} {d : Domain} (latches : op.latches? = some d) :
    Ends (op.procedure device) s := by
  have domain := latches_domain latches
  cases d with
  | main =>
    have inside : op.Inside := by
      cases op with
      | program | programBlock | programBlockWide => cases latches
      | _ => trivial
    exact (operation_completes h op inside fun _ => main_room domain).ends
  | optionBytes =>
    rcases options_outcome h domain with completes | halts
    · exact completes.ends
    · exact halts.ends nofun

theorem unlatched_ends (h : Quiet s) {op : Operation} (latches : op.latches? = none)
    (inside : op.Inside) : Ends (op.procedure device) s := by
  refine (operation_completes h op inside fun d some => ?_).ends
  cases latches.symm.trans some

theorem operation_ends (h : Quiet s) (op : Operation) : Ends (op.procedure device) s := by
  cases op with
  | lock d | unlock d => exact latch_ends h rfl
  | program a w =>
    by_cases inside : InWindow a
    · exact (program_completes h.toSound inside w).silent.ends
    · exact (program_halts h.toSound inside w).silent.ends nofun
  | programBlock a data =>
    by_cases none : data = []
    · exact unlatched_ends h rfl (absurd none)
    · exact (programBytes_outcome h.toSound none (Address.ofNat?_eq_some_iff.mpr rfl)).ends
  | programBlockWide a data limit =>
    by_cases none : data = []
    · exact unlatched_ends h rfl (absurd none)
    · exact (programWords_outcome h.toSound none (Nat.le_refl _) limit).ends
  | _ => exact unlatched_ends h rfl trivial

theorem operation_runs (h : Quiet s) (op : Operation) :
    ∃ n, Runs (op.procedure device) s n ((op.procedure device).run s) := by
  refine Procedure.run_runs fun t stuck => ?_
  rcases operation_ends h op with ⟨_, _, completes⟩ | ⟨e, _, other, halts⟩
  · obtain ⟨_, run⟩ := completes s.events
    cases stuck.symm.trans run
  · obtain ⟨_, run⟩ := halts s.events
    cases stuck.symm.trans run
    exact other rfl

/-- The number is compared with what can be read back of it, so the first look finds it. -/
theorem setWaitStates_runs (n : UInt8) (s : Simulator device) :
    Runs ((Operation.setWaitStates n).procedure device) s 1
      (.ok .done (effect (.setWaitStates n) s)) := by
  have same : ((s.acr.setLatency n.toNat).set .artrst false).latency =
      (s.acr.setLatency n.toNat).latency := Contents.field_put (by decide)
  have read : Runs (Procedure.read .acr) s 0 (.ok s.acr s) := .access rfl
  have write : Runs (Procedure.write (s.acr.setLatency n.toNat)) s 0
      (.ok () (effect (.setWaitStates n) s)) := .access rfl
  have found : Awaits .acr (fun u => u.latency == (s.acr.setLatency n.toNat).latency)
      (effect (.setWaitStates n) s) 1
      (.ok ((s.acr.setLatency n.toNat).set .artrst false) (effect (.setWaitStates n) s)) :=
    .last rfl (beq_iff_eq.mpr same)
  have run : Runs (Procedure.setWaitStates n) s (0 + (0 + (1 + 0))) _ :=
    read.bind (write.bind (found.runs.bind (.result () _)))
  exact run.map _

/-- Every wait ends. An operation looks at the status once for each read that the operation in
progress has left and once more, and so it does again for each operation that it starts itself. An
erase takes its time also when it is refused, while a store that is refused starts nothing. The
lock and the protection outlast a block, so the state before it tells which of its stores do. -/
theorem waits_end (h : Reachable s) :
    (∀ op : Operation, ∃ n, Runs (op.procedure device) s n ((op.procedure device).run s)) ∧
    Procedure.waitUntilIdle.run s = .ok () { s with
      busy := 0
      events := .statusRead false ::
        (List.replicate s.busy (.statusRead true) ++ .barrier :: s.events) } ∧
    (∀ n, Plays (Script.ofList (List.replicate (s.busy + n) .pollIdle)) s
      (List.replicate s.busy (.idle false) ++ List.replicate n (.idle true))
      { s with busy := 0 }) ∧
    (∀ w n, ∀ op ∈ [Operation.eraseAll w, .eraseSector n w],
      Spends (op.procedure device) s .done (effect op s)
        (s.busy + 1 + if s.isLocked .main then 1 else s.latency + 1) []) ∧
    (∀ v, Spends ((Operation.programOptionBytes v).procedure device) s .done
      (effect (.programOptionBytes v) s) (s.busy + 1 + (s.latency + 1)) []) ∧
    (∀ a data limit, data ≠ [] → Within a data.length →
      ∀ op ∈ [Operation.programBlock a data, .programBlockWide a data limit],
      ∃ stores, stores ≠ [] ∧ (∀ b ∈ stores, InWindow b) ∧
        Spends (op.procedure device) s .done (effect op s)
          (s.busy + 2 * stores.length + s.latency * stores.countP (opens s)) stores) ∧
    ∀ n, Runs ((Operation.setWaitStates n).procedure device) s 1
      (.ok .done (effect (.setWaitStates n) s)) := by
  have quiet := h.quiet
  have sound := h.sound
  refine ⟨operation_runs quiet, run_waitUntilIdle sound.busy_clear, polls_play sound.busy_clear,
    fun w n op member => ?_, fun v => (programOptionBytes_spends quiet v).silent,
    fun a data limit some within op member => ?_, fun n => setWaitStates_runs n s⟩
  · simp only [List.mem_cons, List.not_mem_nil, or_false] at member
    rcases member with rfl | rfl
    · exact (erase_spends sound (harmless_mass true) (harmless_mass false)).silent
    · exact (erase_spends sound (harmless_selectSector device n.toNat)
        (harmless_deselectSector device)).silent
  · simp only [List.mem_cons, List.not_mem_nil, or_false] at member
    rcases member with rfl | rfl
    · obtain ⟨stores, several, low, spends⟩ := programBlockWide_spends sound some within .x8
      rw [← programBlock_narrow within, tile_x8] at spends
      exact ⟨stores, several, low, spends.silent⟩
    · obtain ⟨stores, several, low, spends⟩ := programBlockWide_spends sound some within limit
      exact ⟨stores, several, low, spends.silent⟩

end Operations

/-- A busy controller whose second sector is protected, and data over the end of the first. -/
theorem waits_end_protected :
    let s : Simulator .generic := afterAll [
      .access (.key .main (Domain.firstKey .main)),
      .access (.key .main (Domain.secondKey .main)),
      .control (.setLatency 2),
      .control (.setBusy 3)] (withOptionBytes .generic ⟨0xCFFDAAEC⟩)
    let a : Address := ⟨0x08007FFE, by decide⟩
    let b : Address := ⟨0x08008000, by decide⟩
    let erase : Operation := .eraseSector 1 .x32
    let program : Operation := .programBlockWide a [1, 2, 3, 4] .x64
    Reachable s ∧ (s.busy = 3 ∧ s.latency = 2 ∧ s.isLocked .main = false) ∧
      (opens s a = true ∧ opens s b = false) ∧
      (∃ n, Runs (program.procedure .generic) s n ((program.procedure .generic).run s)) ∧
      Plays (Script.ofList (List.replicate 5 .pollIdle)) s
        [.idle false, .idle false, .idle false, .idle true, .idle true] { s with busy := 0 } ∧
      Spends (erase.procedure .generic) s .done (effect erase s) 7 [] ∧
      ∃ stores, stores ≠ [] ∧ Spends (program.procedure .generic) s .done (effect program s)
        (3 + 2 * stores.length + 2 * stores.countP (opens s)) stores := by
  intro s a b erase program
  have reachable : Reachable s := (Reachable.start ⟨0xCFFDAAEC⟩).calls _
  obtain ⟨ends, _, polls, erases, _, blocks, _⟩ := waits_end reachable
  have unlocked : s.isLocked .main = false := by decide
  have erases := erases .x32 1 erase (.tail _ (.head _))
  rw [unlocked] at erases
  have within : Within a [1, 2, 3, 4].length := by decide
  obtain ⟨stores, several, _, spends⟩ :=
    blocks a [1, 2, 3, 4] .x64 (by decide) within program (.tail _ (.head _))
  exact ⟨reachable, ⟨rfl, rfl, unlocked⟩, ⟨by decide, by decide⟩, ends program, polls 2, erases,
    stores, several, spends⟩

end FlashController.Simulator
