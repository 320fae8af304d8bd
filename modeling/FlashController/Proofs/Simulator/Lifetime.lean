import FlashController.Proofs.Simulator.Separation
import FlashController.Proofs.Steps

/-! The lock of the main domain in the body of a guard. The steps alone decide about it: whatever
they store, erase or program, the domain is locked or unlocked as the last of them that turned its
lock left it. A guard that ends is one of these, also when it ends inside another guard, which then
goes on with a domain that is locked. -/
namespace FlashController

/-- What the step makes of the lock of the main domain, if it turns it at all. -/
def Step.turns? : Step κ → Option Bool
  | .openGuard | .operate (.unlock .main) => some false
  | .closeGuard | .operate (.lock .main) => some true
  | _ => none

/-- The lock after some steps, by the last of them that turned it. -/
def shut (start : Bool) (past : List (Step κ)) : Bool :=
  (past.reverse.findSome? Step.turns?).getD start

section Shut
variable {past : List (Step κ)} {x : Step κ}

theorem lock_of_turns {op : Operation} (turns : (Step.operate op : Step κ).turns? = some true) :
    op = .lock .main := by
  cases op with
  | lock d =>
    cases d with
    | main => rfl
    | optionBytes => cases turns
  | unlock d =>
    cases d with
    | main => cases turns
    | optionBytes => cases turns
  | _ => cases turns

theorem shut_concat (start : Bool) (past : List (Step κ)) (x : Step κ) :
    shut start (past ++ [x]) = x.turns?.getD (shut start past) := by
  simp only [shut, List.reverse_append, List.reverse_singleton, List.singleton_append,
    List.findSome?_cons]
  cases x.turns? <;> rfl

/-- A step that turns the lock makes all before it irrelevant. -/
theorem shut_cons {on : Bool} (turns : x.turns? = some on) (start : Bool) (steps : List (Step κ)) :
    shut start (x :: steps) = shut on steps := by
  simp only [shut, List.reverse_cons, List.findSome?_append, List.findSome?_cons, turns]
  cases steps.reverse.findSome? Step.turns? <;> rfl

theorem shut_eq_true_iff : shut false past = true ↔ ∃ earlier later, ∃ x : Step κ,
    past = earlier ++ x :: later ∧ x.turns? = some true ∧ ∀ y ∈ later, y.turns? = none := by
  have last : shut false past = true ↔ past.reverse.findSome? Step.turns? = some true := by
    unfold shut
    cases past.reverse.findSome? Step.turns? <;> simp
  rw [last, List.findSome?_eq_some_iff]
  constructor
  · rintro ⟨later, x, earlier, reversed, turns, still⟩
    refine ⟨earlier.reverse, later.reverse, x, ?_, turns, ?_⟩
    · simpa using congrArg List.reverse reversed
    · simpa using still
  · rintro ⟨earlier, later, x, rfl, turns, still⟩
    refine ⟨later.reverse, x, earlier.reverse, ?_, turns, ?_⟩
    · simp
    · simpa using still

end Shut

namespace Simulator
variable {device : Device} {s : Simulator device}

section Operations
variable {p : Procedure Unit} {a : Address} {data : List UInt8} {op : Operation}

theorem programmed_lock (w : Width) (effect : Simulator device → Simulator device)
    (s : Simulator device) : (programmed w effect s).isLocked .main = s.isLocked .main := by
  cases lock : s.isLocked .main with
  | true =>
    rw [programmed_locked lock]
    exact lock
  | false =>
    rw [programmed_unlocked lock]
    exact (has_lock_setUp s.cr w false).trans lock

theorem aimed_lock (w : Width) (s : Simulator device) :
    (aimed w s).isLocked .main = s.isLocked .main := by
  cases lock : s.isLocked .main with
  | true =>
    rw [aimed_locked lock]
    exact lock
  | false =>
    rw [aimed_unlocked lock]
    exact (has_lock_setUp s.cr w true).trans lock

theorem wiped_lock (w : Width) {select deselect : Contents .cr → Contents .cr}
    (selects : Harmless select) (deselects : Harmless deselect) (s : Simulator device) :
    (wiped w select deselect s).isLocked .main = s.isLocked .main := by
  cases lock : s.isLocked .main with
  | true =>
    rw [wiped_locked lock]
    exact lock
  | false =>
    rw [wiped_unlocked lock]
    exact (deselects.lock _).trans ((selects.lock _).trans
      ((s.cr.has_setProgramWidth w .lock).trans lock))

theorem words_lock (a : Address) (words : List Word) (s : Simulator device) :
    (wordsProgrammed a words s).isLocked .main = s.isLocked .main := by
  rcases wordsProgrammed_cases a words with ⟨_, none⟩ | ⟨w, block⟩
  · rw [none]
  · rw [block]
    exact programmed_lock _ _ s

theorem effect_lock (op : Operation) (s : Simulator device) :
    (effect op s).isLocked .main =
      (Step.operate op : Step Control).turns?.getD (s.isLocked .main) := by
  cases op with
  | lock d | unlock d =>
    cases d with
    | main =>
      rw [effect, charged_main]
      exact Contents.has_set_self _ _ _
    | optionBytes =>
      show (charged .optionBytes s).isLocked .main = s.isLocked .main
      unfold charged
      split <;> rfl
  | eraseAll w => exact wiped_lock w (harmless_mass true) (harmless_mass false) s
  | eraseSector n w =>
    exact wiped_lock w (harmless_selectSector device n.toNat) (harmless_deselectSector device) s
  | program a w => exact programmed_lock _ _ s
  | programBlock a data => exact words_lock _ _ s
  | programBlockWide a data limit => exact words_lock _ _ s
  | waitUntilIdle | pollIdle | isLocked | ensureUnlocked | programOptionBytes | optionBytes | status
  | clear | clearStatus | setWaitStates | setPrefetch | setAccelerator | resetAccelerator => rfl

theorem Outcome.lock (h : Outcome p a data s) :
    (leaves p.run s).isLocked .main = s.isLocked .main := by
  cases h with
  | whole w fits run =>
    obtain ⟨later, left⟩ := run.leaves
    rw [left]
    exact programmed_lock _ _ s
  | cut w u edge long at_edge run =>
    obtain ⟨later, left⟩ := run.leaves
    rw [left]
    exact (aimed_lock _ _).trans (programmed_lock _ _ s)

theorem program_lock (h : Sound s) (a : Address) (w : Word) :
    (leaves (Procedure.program a w).run s).isLocked .main = s.isLocked .main := by
  by_cases inside : InWindow a
  · obtain ⟨later, left⟩ := (program_completes h inside w).leaves
    rw [left]
    exact programmed_lock _ _ s
  · obtain ⟨later, left⟩ := (program_halts h inside w).leaves
    rw [left]
    exact aimed_lock _ s

theorem programBlock_lock (h : Sound s) (a : Address) (data : List UInt8) :
    (leaves (Procedure.programBlock a data).run s).isLocked .main = s.isLocked .main := by
  cases data with
  | nil => rfl
  | cons b rest =>
    have start : a.advance? 0 = some a := Address.ofNat?_eq_some_iff.mpr rfl
    exact (programBytes_outcome h (List.cons_ne_nil b rest) start).lock

theorem programBlockWide_lock (h : Sound s) (a : Address) (data : List UInt8) (limit : Width) :
    (leaves (Procedure.programBlockWide a data limit).run s).isLocked .main =
      s.isLocked .main := by
  unfold Procedure.programBlockWide
  cases data with
  | nil =>
    rw [tile]
    rfl
  | cons b rest =>
    exact (programWords_outcome h (List.cons_ne_nil b rest) (Nat.le_refl _) limit).lock

/-- An operation turns the lock of the main domain as told, whether it completes or halts. -/
theorem operate_lock (h : Quiet s) (op : Operation) :
    (leaves (op.procedure device).run s).isLocked .main =
      (Step.operate op : Step Control).turns?.getD (s.isLocked .main) := by
  have completes (inside : op.Inside) (calm : ∀ d, op.latches? = some d → d = .main) :
      (leaves (op.procedure device).run s).isLocked .main =
        (Step.operate op : Step Control).turns?.getD (s.isLocked .main) := by
    have room : ∀ d, op.latches? = some d → Offends d s → s.violations + 1 < UInt32.size :=
      fun d latches offends => nomatch (calm d latches).symm.trans offends.1
    obtain ⟨later, left⟩ := (operation_completes h op inside room).leaves
    rw [left]
    exact effect_lock op s
  have options (option : op.domain? = some .optionBytes)
      (none : (Step.operate op : Step Control).turns? = none) :
      (leaves (op.procedure device).run s).isLocked .main =
        (Step.operate op : Step Control).turns?.getD (s.isLocked .main) := by
    obtain ⟨later, left | left⟩ := options_leaves h option
    · rw [left]
      exact effect_lock op s
    · rw [left, none]
      rfl
  cases op with
  | lock d | unlock d =>
    cases d with
    | main => exact completes trivial fun d latches => (Option.some.inj latches).symm
    | optionBytes => exact options rfl rfl
  | program a w =>
    exact (congrArg (isLocked · .main) (Procedure.leaves_run_pure _ _ s)).trans
      (program_lock h.toSound a w)
  | programBlock a data =>
    exact (congrArg (isLocked · .main) (Procedure.leaves_run_pure _ _ s)).trans
      (programBlock_lock h.toSound a data)
  | programBlockWide a data limit =>
    exact (congrArg (isLocked · .main) (Procedure.leaves_run_pure _ _ s)).trans
      (programBlockWide_lock h.toSound a data limit)
  | waitUntilIdle | pollIdle | isLocked | ensureUnlocked | eraseAll | eraseSector
  | programOptionBytes | optionBytes | status | clear | clearStatus | setWaitStates | setPrefetch
  | setAccelerator | resetAccelerator => exact completes trivial nofun

end Operations

section Guards
variable {past : List (Step Control)} {x : Step Control} {script body : Script}

/-- The lock is as the steps so far left it. -/
def Latched (start : Bool) (past : List (Step Control)) (s : Simulator device) : Prop :=
  Quiet s ∧ s.isLocked .main = shut start past

theorem act_lock (h : Quiet s) (member : x ∈ script.steps) :
    (leaves (x.act device) s).isLocked .main = x.turns?.getD (s.isLocked .main) := by
  obtain ⟨op, rfl⟩ | rfl | rfl := Script.step_cases member
  · exact operate_lock h op
  · obtain ⟨later, left⟩ := (unlockMain_completes h).leaves
    simp only [Step.act]
    rw [leaves_bind_pure, left]
    exact s.cr.has_set_self .lock false
  · obtain ⟨later, left⟩ := (lockMain_completes h.toSound).leaves
    simp only [Step.act]
    rw [leaves_bind_pure, left]
    exact s.cr.has_set_self .lock true

theorem latched_carries (start : Bool) (member : x ∈ script.steps) :
    Carries device (Latched start) (Latched start) (fun _ (_ : Simulator device) => True) x := by
  rintro past s ⟨quiet, lock⟩
  have turned := act_lock quiet member
  have still := quiet.act x
  cases run : x.act device s with
  | error e t => trivial
  | ok reply t =>
    rw [leaves_ok run] at turned still
    refine ⟨still, ?_⟩
    rw [turned, lock, shut_concat]

/-- After each step of a script the lock is as its last turn left it. -/
theorem script_lock (h : Quiet s) (script : Script) {k : Nat} {e : Entry (Simulator device)}
    (found : (script.play device id s).entries[k]? = some e) :
    e.seen.isLocked .main =
      shut (s.isLocked .main) (script.steps.take (k + 1) : List (Step Control)) := by
  have told : Recounts (Latched (s.isLocked .main)) (Latched (s.isLocked .main)) (fun _ _ => True)
      [] script.steps (script.play device id s) := by
    apply Script.play_recounts
    · rintro past t ⟨quiet, lock⟩
      exact ⟨quiet.logged [], lock⟩
    · exact fun _ _ _ => trivial
    · exact fun x member => latched_carries _ member
    · exact ⟨h, rfl⟩
  exact (told.entries k e found).2

theorem take_guarded {k : Nat} (within : k ≤ body.size) (rest : Script) :
    ((Script.guarded body rest).steps.take (k + 1) : List (Step κ)) =
      .openGuard :: body.steps.take k := by
  have short : k ≤ (body.steps : List (Step κ)).length := (body.length_steps).symm ▸ within
  rw [Script.steps, List.take_succ_cons, List.take_append_of_le_length short]

/-- What a body without a lock of its own finds: as each of its steps begins, the main domain is
locked just when a guard inside the body has ended and nothing has unlocked the domain since. -/
theorem guard_lifetime (h : Reachable s) (body rest : Script)
    (lockless : ∀ x ∈ (body.steps : List (Step Control)), x ≠ .operate (.lock .main)) {k : Nat}
    (within : k ≤ body.size) {e : Entry (Simulator device)}
    (found : ((Script.guarded body rest).play device id s).entries[k]? = some e) :
    e.seen.isLocked .main = true ↔ ∃ earlier later : List (Step Control),
      body.steps.take k = earlier ++ .closeGuard :: later ∧ ∀ x ∈ later, x.turns? = none := by
  have opened : (Step.openGuard : Step Control).turns? = some false := rfl
  rw [script_lock h.quiet _ found, take_guarded within, shut_cons opened, shut_eq_true_iff]
  constructor
  · rintro ⟨earlier, later, x, split, turns, still⟩
    have member : x ∈ (body.steps : List (Step Control)) := by
      apply List.mem_of_mem_take (i := k)
      rw [split]
      exact List.mem_append_right _ List.mem_cons_self
    obtain ⟨op, rfl⟩ | rfl | rfl := Script.step_cases member
    · exact absurd (congrArg Step.operate (lock_of_turns turns)) (lockless _ member)
    · contradiction
    · exact ⟨earlier, later, split, still⟩
  · rintro ⟨earlier, later, split, still⟩
    exact ⟨earlier, later, .closeGuard, split, rfl, still⟩

end Guards

/-- A status read behind a nested guard, on a controller that was busy with a key sequence begun. -/
theorem guard_lifetime_reading :
    let s : Simulator .generic := afterAll [
      .access (.key .main (Domain.firstKey .main)),
      .control (.setBusy 5)] (new .generic)
    let body : Script := .step (.clear .eop)
      (.guarded (.step .clearStatus .done) (.step .status (.step (.unlock .main) .done)))
    Reachable s ∧ (∀ x ∈ (body.steps : List (Step Control)), x ≠ .operate (.lock .main)) ∧
      5 ≤ body.size ∧ ∃ e : Entry (Simulator .generic),
        ((Script.guarded body .done).play .generic id s).entries[5]? = some e ∧
        (e.seen.isLocked .main = true ↔ ∃ earlier later : List (Step Control),
          body.steps.take 5 = earlier ++ .closeGuard :: later ∧ ∀ x ∈ later, x.turns? = none) := by
  intro s body
  have reachable : Reachable s := (Reachable.start _).calls _
  have lockless : ∀ x ∈ (body.steps : List (Step Control)), x ≠ .operate (.lock .main) := by
    simp [body, Script.steps]
  have within : 5 ≤ body.size := by decide
  obtain ⟨e, found⟩ : ∃ e : Entry (Simulator .generic),
      ((Script.guarded body .done).play .generic id s).entries[5]? = some e :=
    Option.isSome_iff_exists.mp (by decide +kernel)
  exact ⟨reachable, lockless, within, e, found,
    guard_lifetime reachable body .done lockless within found⟩

/-- A guard does not keep the domain unlocked for its lifetime: once a guard in its body has ended,
the domain is locked. -/
theorem nested_guard_locks :
    let s : Simulator .generic := new .generic
    let body : Script := .guarded .done (.step (.isLocked .main) .done)
    Reachable s ∧ (∀ x ∈ (body.steps : List (Step Control)), x ≠ .operate (.lock .main)) ∧
      ¬ ∀ k e, k < body.size →
        ((Script.guarded body .done).play .generic id s).entries[k]? = some e →
          e.seen.isLocked .main = false := by
  intro s body
  refine ⟨Reachable.start _, by simp [body, Script.steps], fun unlocked => ?_⟩
  obtain ⟨e, found, locked⟩ : ∃ e : Entry (Simulator .generic),
      ((Script.guarded body .done).play .generic id s).entries[2]? = some e ∧
        e.seen.isLocked .main = true := by
    have seen : (((Script.guarded body .done).play .generic id s).entries[2]?.map
        (·.seen.isLocked .main)) = some true := by decide +kernel
    exact Option.map_eq_some_iff.mp seen
  have open_still := unlocked 2 e (by decide) found
  rw [locked] at open_still
  contradiction

end Simulator
end FlashController
