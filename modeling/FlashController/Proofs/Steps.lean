import FlashController.Proofs.Script

/-! Sessions as lists of steps. A run of steps that halts leaves the guards around its last step
open; closing them, innermost first, is all that a script adds to its steps. -/
namespace FlashController
variable {σ β : Type}

namespace Script

/-- Number of steps, guards taken apart. -/
def size : Script → Nat
  | .done => 0
  | .step _ rest => rest.size + 1
  | .guarded body rest => body.size + 1 + rest.size + 1

/-- Guards around a step, the step given by its number. No guard is around its own opening or
closing. -/
def guardsAround : Script → Nat → Nat
  | .done, _ | .step _ _, 0 | .guarded _ _, 0 => 0
  | .step _ rest, k + 1 => rest.guardsAround k
  | .guarded body rest, k + 1 =>
    if k < body.size then body.guardsAround k + 1 else rest.guardsAround (k - (body.size + 1))

theorem length_steps (script : Script) : (script.steps : List (Step κ)).length = script.size := by
  induction script with
  | done => rfl
  | step op rest ih => simp only [steps, size, List.length_cons, ih]
  | guarded body rest body_ih rest_ih =>
    simp only [steps, size, List.length_cons, List.length_append, body_ih, rest_ih]
    omega

theorem step_cases {script : Script} {x : Step κ} (member : x ∈ script.steps) :
    (∃ op, x = .operate op) ∨ x = .openGuard ∨ x = .closeGuard := by
  induction script with
  | done => cases member
  | step op rest ih =>
    rcases List.mem_cons.mp member with rfl | later
    · exact .inl ⟨op, rfl⟩
    · exact ih later
  | guarded body rest body_ih rest_ih =>
    rcases List.mem_cons.mp member with rfl | inside
    · exact .inr (.inl rfl)
    · rcases List.mem_append.mp inside with inside | closing
      · exact body_ih inside
      · rcases List.mem_cons.mp closing with rfl | later
        · exact .inr (.inr rfl)
        · exact rest_ih later

theorem guardsAround_zero (script : Script) : script.guardsAround 0 = 0 := by
  cases script <;> rfl

theorem guardsAround_inside {body : Script} {k : Nat} (inside : k < body.size) (rest : Script) :
    (guarded body rest).guardsAround (k + 1) = body.guardsAround k + 1 := if_pos inside

theorem guardsAround_closing (body rest : Script) :
    (guarded body rest).guardsAround (body.size + 1) = 0 := by
  rw [guardsAround, if_neg (Nat.lt_irrefl _), Nat.sub_eq_zero_of_le (Nat.le_succ _),
    guardsAround_zero]

theorem guardsAround_outside (body rest : Script) (k : Nat) :
    (guarded body rest).guardsAround (body.size + (k + 1) + 1) = rest.guardsAround k := by
  have number : body.size + (k + 1) - (body.size + 1) = k := by omega
  rw [guardsAround, if_neg (Nat.not_lt.mpr (Nat.le_add_right _ _)), number]

/-- After its last step a script has no open guard. -/
theorem guardsAround_beyond {script : Script} {k : Nat} (beyond : script.size ≤ k) :
    script.guardsAround k = 0 := by
  induction script generalizing k with
  | done => rfl
  | step op rest ih =>
    cases k with
    | zero => rfl
    | succ k => exact ih (Nat.le_of_succ_le_succ beyond)
  | guarded body rest body_ih rest_ih =>
    cases k with
    | zero => rfl
    | succ k =>
      simp only [size] at beyond
      rw [guardsAround, if_neg (by omega)]
      exact rest_ih (by omega)

end Script

variable [Machine σ]

/-- Goes on after a run that was not halted, in the very state that it left. -/
def Course.followedBy (course : Course σ β) (next : σ → Course σ β) : Course σ β :=
  match course.halt with
  | some _ => course
  | none => (next course.final).after course.entries

/-- Steps one after the other, up to the first that halts. -/
def playSteps (device : Device) (look : σ → β) :
    List (Step (Machine.Control σ)) → σ → Course σ β
  | [], s => ⟨[], none, s⟩
  | x :: rest, s => (playStep look (x.act device) s).andThen (playSteps device look rest)

/-- The state after so many guards were closed, whether closing them halts or not. -/
def closeGuards : Nat → σ → σ
  | 0, s => s
  | n + 1, s => closeGuards n (leaves (Procedure.lock .main).run s)

def Course.unwound (n : Nat) (course : Course σ β) : Course σ β :=
  { course with final := closeGuards n course.final }

section Courses
variable {device : Device} {look : σ → β} {s t : σ} {h : Halt}

omit [Machine σ] in
theorem playStep_ok {act : MachineM σ Reply} {reply : Reply} (run : act s = .ok reply t) :
    playStep look act s = ⟨[⟨reply, look t⟩], none, t⟩ := by
  simp only [playStep, run]

omit [Machine σ] in
theorem playStep_error {act : MachineM σ Reply} (run : act s = .error h t) :
    playStep look act s = ⟨[], some h, t⟩ := by
  simp only [playStep, run]

theorem closeGuards_succ (n : Nat) (s : σ) :
    closeGuards (n + 1) s = leaves (Procedure.lock .main).run (closeGuards n s) := by
  induction n generalizing s with
  | zero => rfl
  | succ n ih => exact ih _

namespace Course
variable {course : Course σ β} {next : σ → Course σ β}

theorem andThen_halted (halted : course.halt = some h) : course.andThen next = course := by
  simp only [andThen, halted]

theorem andThen_whole (whole : course.halt = none) :
    course.andThen next = (next (Machine.settle course.final)).after course.entries := by
  simp only [andThen, whole]

omit [Machine σ] in
theorem followedBy_halted (halted : course.halt = some h) : course.followedBy next = course := by
  simp only [followedBy, halted]

omit [Machine σ] in
theorem followedBy_whole (whole : course.halt = none) :
    course.followedBy next = (next course.final).after course.entries := by
  simp only [followedBy, whole]

omit [Machine σ] in
theorem after_followedBy (course : Course σ β) (earlier : List (Entry β))
    (next : σ → Course σ β) :
    (course.after earlier).followedBy next = (course.followedBy next).after earlier := by
  cases same : course.halt with
  | some h =>
    rw [followedBy_halted same]
    exact followedBy_halted same
  | none =>
    have whole : (course.after earlier).halt = none := same
    rw [followedBy_whole same, followedBy_whole whole]
    simp only [after, List.append_assoc]

theorem after_andThen (course : Course σ β) (earlier : List (Entry β)) (next : σ → Course σ β) :
    (course.after earlier).andThen next = (course.andThen next).after earlier := by
  cases same : course.halt with
  | some h =>
    rw [andThen_halted same]
    exact andThen_halted same
  | none =>
    have whole : (course.after earlier).halt = none := same
    rw [andThen_whole same, andThen_whole whole]
    simp only [after, List.append_assoc]

omit [Machine σ] in
theorem length_after (course : Course σ β) (e : Entry β) :
    (course.after [e]).entries.length = course.entries.length + 1 := rfl

theorem after_unwound (course : Course σ β) (earlier : List (Entry β)) (n : Nat) :
    (course.after earlier).unwound n = (course.unwound n).after earlier := rfl

theorem unwound_unwound (course : Course σ β) (n : Nat) :
    (course.unwound n).unwound 1 = course.unwound (n + 1) :=
  congrArg (fun final => { course with final }) (closeGuards_succ n course.final).symm

theorem closeGuard_halted (halted : course.halt = some h) :
    closeGuard look course = course.unwound 1 := by
  simp only [closeGuard, halted, unwound, closeGuards, leaves]
  cases (Procedure.lock .main).run course.final <;> rfl

/-- Closing a guard is a step like any other, unless the course was halted before. -/
theorem closeGuard_whole (device : Device) (whole : course.halt = none) :
    closeGuard look course = course.followedBy
      (playStep look ((.closeGuard : Step (Machine.Control σ)).act device)) := by
  rw [followedBy_whole whole]
  cases run : (Procedure.lock .main).run course.final with
  | ok u t =>
    have closed : (.closeGuard : Step (Machine.Control σ)).act device course.final =
        .ok .closed t := bind_ok run
    rw [playStep_ok closed]
    simp only [closeGuard, run, whole, after]
  | error h t =>
    have lost : (.closeGuard : Step (Machine.Control σ)).act device course.final =
        .error h t := bind_error run
    rw [playStep_error lost]
    simp only [closeGuard, run, whole, after, List.append_nil]

theorem after_closeGuard (course : Course σ β) (earlier : List (Entry β)) :
    closeGuard look (course.after earlier) = (closeGuard look course).after earlier := by
  cases same : course.halt with
  | some h =>
    rw [closeGuard_halted same]
    exact closeGuard_halted same
  | none =>
    rw [closeGuard_whole .generic same, ← after_followedBy]
    exact closeGuard_whole .generic same

end Course
end Courses

section Steps
variable {device : Device} {look : σ → β} {x : Step (Machine.Control σ)}
  {steps : List (Step (Machine.Control σ))} {s t : σ} {reply : Reply} {h : Halt}

theorem playSteps_ok (run : x.act device s = .ok reply t) :
    playSteps device look (x :: steps) s =
      (playSteps device look steps (Machine.settle t)).after [⟨reply, look t⟩] := by
  rw [playSteps, playStep_ok run]
  exact Course.andThen_whole rfl

theorem playSteps_error (run : x.act device s = .error h t) :
    playSteps device look (x :: steps) s = ⟨[], some h, t⟩ := by
  rw [playSteps, playStep_error run]
  exact Course.andThen_halted rfl

theorem playSteps_append (first later : List (Step (Machine.Control σ))) (s : σ) :
    playSteps device look (first ++ later) s =
      (playSteps device look first s).followedBy (playSteps device look later) := by
  induction first generalizing s with
  | nil => rfl
  | cons x rest ih =>
    cases run : x.act device s with
    | ok reply t =>
      rw [List.cons_append, playSteps_ok run, playSteps_ok run, ih, Course.after_followedBy]
    | error h t =>
      rw [List.cons_append, playSteps_error run, playSteps_error run]
      rfl

/-- A run completes all of its steps, or the steps before the one that halts. -/
theorem playSteps_length (device : Device) (look : σ → β)
    (steps : List (Step (Machine.Control σ))) (s : σ) :
    ((playSteps device look steps s).halt = none ∧
      (playSteps device look steps s).entries.length = steps.length) ∨
    (∃ h, (playSteps device look steps s).halt = some h) ∧
      (playSteps device look steps s).entries.length < steps.length := by
  induction steps generalizing s with
  | nil => exact .inl ⟨rfl, rfl⟩
  | cons x rest ih =>
    cases run : x.act device s with
    | ok reply t =>
      rw [playSteps_ok run]
      obtain ⟨whole, length⟩ | ⟨halted, length⟩ := ih (Machine.settle t)
      · exact .inl ⟨whole, congrArg (· + 1) length⟩
      · exact .inr ⟨halted, Nat.succ_lt_succ length⟩
    | error h t =>
      rw [playSteps_error run]
      exact .inr ⟨⟨h, rfl⟩, Nat.succ_pos _⟩

theorem Script.play_guarded {body rest : Script}
    (opens : (.openGuard : Step (Machine.Control σ)).act device s = .ok reply t) :
    (Script.guarded body rest).play device look s =
      (closeGuard look ((body.play device look (Machine.settle t)).after
        [⟨reply, look t⟩])).andThen (rest.play device look) := by
  have opening : playStep look _ s = _ := playStep_ok opens
  simp only [Step.act] at opening
  simp only [play, opening, Course.andThen_whole]

theorem Script.play_guarded_halted {body : Script}
    (opens : (.openGuard : Step (Machine.Control σ)).act device s = .ok reply t)
    (halted : (body.play device look (Machine.settle t)).halt = some h) (rest : Script) :
    (Script.guarded body rest).play device look s =
      ((body.play device look (Machine.settle t)).after [⟨reply, look t⟩]).unwound 1 := by
  have closed : closeGuard look ((body.play device look (Machine.settle t)).after
      [⟨reply, look t⟩]) = _ := Course.closeGuard_halted halted
  rw [play_guarded opens, closed]
  exact Course.andThen_halted halted

/-- A script does its steps, and when one of them halts, closes the guards around it. -/
theorem Script.play_eq (script : Script) (s : σ) :
    script.play device look s = (playSteps device look script.steps s).unwound
      (script.guardsAround (playSteps device look script.steps s).entries.length) := by
  induction script generalizing s with
  | done => rfl
  | step op rest ih =>
    cases run : (op.procedure device).run s with
    | ok reply t =>
      have done : (.operate op : Step (Machine.Control σ)).act device s = .ok reply t := run
      rw [play, playStep_ok run, Course.andThen_whole rfl, ih, steps, playSteps_ok done]
      rfl
    | error h t =>
      have lost : (.operate op : Step (Machine.Control σ)).act device s = .error h t := run
      rw [play, playStep_error run, Course.andThen_halted rfl, steps, playSteps_error lost]
      rfl
  | guarded body rest body_ih rest_ih =>
    cases opens : (.openGuard : Step (Machine.Control σ)).act device s with
    | error h t =>
      have opening : playStep look _ s = _ := playStep_error opens
      simp only [Step.act] at opening
      rw [steps, playSteps_error opens]
      simp only [play, opening]
      rfl
    | ok reply t =>
      have halves := playSteps_length device look body.steps (Machine.settle t)
      rw [play_guarded opens, body_ih, steps, playSteps_ok opens, playSteps_append,
        Course.after_closeGuard, Course.after_andThen, Course.after_unwound, Course.length_after]
      refine congrArg (Course.after · [⟨reply, look t⟩]) ?_
      generalize playSteps device look body.steps (Machine.settle t) = inside at halves ⊢
      rw [length_steps] at halves
      obtain ⟨whole, length⟩ | ⟨⟨h, halted⟩, length⟩ := halves
      · -- The body is over: its guard is closed as the next step.
        have closed : inside.unwound (body.guardsAround inside.entries.length) = inside := by
          rw [guardsAround_beyond (Nat.le_of_eq length.symm)]
          rfl
        rw [closed, Course.closeGuard_whole device whole, Course.followedBy_whole whole,
          Course.followedBy_whole whole, Course.after_andThen, Course.after_unwound]
        refine congrArg (Course.after · inside.entries) ?_
        simp only [Course.after, List.length_append, length]
        cases closes : (.closeGuard : Step (Machine.Control σ)).act device inside.final with
        | error h u =>
          rw [playStep_error closes, playSteps_error closes, Course.andThen_halted rfl]
          have around := guardsAround_closing body rest
          simp only [List.length_nil, Nat.add_zero, around]
          rfl
        | ok reply u =>
          rw [playStep_ok closes, playSteps_ok closes, Course.andThen_whole rfl, rest_ih,
            Course.length_after, guardsAround_outside]
          rfl
      · -- The body halted: closing its guard ends the script.
        have shut : closeGuard look
            (inside.unwound (body.guardsAround inside.entries.length)) = _ :=
          Course.closeGuard_halted halted
        rw [Course.followedBy_halted halted, guardsAround_inside length, shut,
          Course.unwound_unwound]
        exact Course.andThen_halted halted

end Steps

section History
variable {device : Device} {before after stopped : List (Step (Machine.Control σ)) → σ → Prop}
  {past steps more : List (Step (Machine.Control σ))} {s : σ}

/-- What a step makes of a state that may come before it, given the steps before that state. -/
def Carries (device : Device) (before after stopped : List (Step (Machine.Control σ)) → σ → Prop)
    (x : Step (Machine.Control σ)) : Prop :=
  ∀ past s, before past s →
    match x.act device s with
    | .ok _ t => after (past ++ [x]) t
    | .error _ t => stopped (past ++ [x]) t

/-- The entries and the end of a course are what the steps up to there bring about. -/
structure Recounts (before after stopped : List (Step (Machine.Control σ)) → σ → Prop)
    (past steps : List (Step (Machine.Control σ))) (course : Course σ σ) : Prop where
  bound : course.entries.length ≤ steps.length
  entries : ∀ k e, course.entries[k]? = some e → after (past ++ steps.take (k + 1)) e.seen
  whole : course.halt = none →
    course.entries.length = steps.length ∧ before (past ++ steps) course.final
  halted : ∀ h, course.halt = some h → course.entries.length < steps.length ∧
    stopped (past ++ steps.take (course.entries.length + 1)) course.final

theorem recounts_nil (h : before past s) :
    Recounts before after stopped past [] ⟨[], none, s⟩ where
  bound := Nat.le_refl 0
  entries := nofun
  whole _ := ⟨rfl, (List.append_nil past).symm ▸ h⟩
  halted := nofun

theorem playStep_recounts {x : Step (Machine.Control σ)} {next : σ → Course σ σ}
    (settles : ∀ past s, after past s → before past (Machine.settle s))
    (carries : Carries device before after stopped x) (h : before past s)
    (rest : ∀ t, before (past ++ [x]) t →
      Recounts before after stopped (past ++ [x]) steps (next t)) :
    Recounts before after stopped past (x :: steps)
      ((playStep id (x.act device) s).andThen next) := by
  have step := carries past s h
  cases run : x.act device s with
  | ok reply t =>
    rw [run] at step
    have told := rest _ (settles _ _ step)
    rw [playStep_ok run, Course.andThen_whole rfl]
    constructor
    · exact Nat.succ_le_succ told.bound
    · intro k e found
      cases k with
      | zero =>
        obtain rfl := Option.some.inj found
        exact step
      | succ k =>
        have later := told.entries k e found
        rwa [List.append_assoc] at later
    · intro whole
      obtain ⟨length, last⟩ := told.whole whole
      rw [List.append_assoc] at last
      exact ⟨congrArg (· + 1) length, last⟩
    · intro h halted
      obtain ⟨length, last⟩ := told.halted h halted
      rw [List.append_assoc] at last
      exact ⟨Nat.succ_lt_succ length, last⟩
  | error h t =>
    rw [run] at step
    rw [playStep_error run, Course.andThen_halted rfl]
    constructor
    · exact Nat.zero_le _
    · exact nofun
    · exact nofun
    · intro _ _
      exact ⟨Nat.succ_pos _, step⟩

/-- What every step carries on is told by every run of steps. -/
theorem playSteps_recounts (settles : ∀ past s, after past s → before past (Machine.settle s))
    (carries : ∀ x ∈ steps, Carries device before after stopped x) (h : before past s) :
    Recounts before after stopped past steps (playSteps device id steps s) := by
  induction steps generalizing past s with
  | nil => exact recounts_nil h
  | cons x rest ih =>
    obtain ⟨here, later⟩ := List.forall_mem_cons.mp carries
    exact playStep_recounts settles here h fun t ht => ih later ht

theorem closeGuards_keeps {P : σ → Prop}
    (closes : ∀ s, P s → P (leaves (Procedure.lock .main).run s)) (n : Nat) (h : P s) :
    P (closeGuards n s) := by
  induction n generalizing s with
  | zero => exact h
  | succ n ih => exact ih (closes s h)

/-- Closing guards after a halt is no step, so it has to keep what is told of the end. -/
theorem Script.play_recounts (settles : ∀ past s, after past s → before past (Machine.settle s))
    (closes : ∀ past s, stopped past s → stopped past (leaves (Procedure.lock .main).run s))
    (script : Script) (carries : ∀ x ∈ script.steps, Carries device before after stopped x)
    (h : before past s) :
    Recounts before after stopped past script.steps (script.play device id s) := by
  have told := playSteps_recounts settles carries h
  have lengths := playSteps_length device id script.steps s
  rw [Script.play_eq]
  refine ⟨told.bound, told.entries, fun whole => ?_, fun h halted => ?_⟩
  · obtain ⟨length, last⟩ := told.whole whole
    rw [length, length_steps, guardsAround_beyond (Nat.le_refl _)]
    exact ⟨length.trans (length_steps script), last⟩
  · obtain ⟨length, last⟩ := told.halted h halted
    exact ⟨length, closeGuards_keeps (closes _) _ last⟩

/-- Of a step that completes and of one that halts the same can be told. -/
theorem carries_same {R : List (Step (Machine.Control σ)) → σ → Prop}
    {x : Step (Machine.Control σ)}
    (keeps : ∀ past s, R past s → R (past ++ [x]) (leaves (x.act device) s)) :
    Carries device R R R x := by
  intro past s h
  have kept := keeps past s h
  cases run : x.act device s with
  | ok reply t => exact leaves_ok run ▸ kept
  | error e t => exact leaves_error run ▸ kept

theorem Recounts.last {P : σ → Prop} {course : Course σ σ}
    (h : Recounts (fun _ => P) (fun _ => P) (fun _ => P) past steps course) : P course.final := by
  cases ended : course.halt with
  | none => exact (h.whole ended).2
  | some e => exact (h.halted e ended).2

theorem playSteps_keeps {P : σ → Prop} (settles : ∀ s, P s → P (Machine.settle s))
    (keeps : ∀ x s, P s → P (leaves (Step.act device x) s)) (look : σ → β)
    (steps : List (Step (Machine.Control σ))) (h : P s) :
    P (playSteps device look steps s).final := by
  induction steps generalizing s with
  | nil => exact h
  | cons x rest ih =>
    have kept := keeps x s h
    cases run : x.act device s with
    | ok reply t =>
      rw [leaves_ok run] at kept
      rw [playSteps_ok run]
      exact ih (settles t kept)
    | error e t =>
      rw [leaves_error run] at kept
      rw [playSteps_error run]
      exact kept

/-- What every step keeps holds after every step of a script and at its end. -/
theorem Script.play_invariant {P : σ → Prop} (settles : ∀ s, P s → P (Machine.settle s))
    (closes : ∀ s, P s → P (leaves (Procedure.lock .main).run s)) (script : Script)
    (keeps : ∀ x ∈ script.steps, ∀ s, P s → P (leaves (x.act device) s)) (h : P s) :
    (∀ e ∈ (script.play device id s).entries, P e.seen) ∧ P (script.play device id s).final := by
  have told : Recounts (fun _ => P) (fun _ => P) (fun _ => P) [] script.steps
      (script.play device id s) :=
    script.play_recounts (fun _ => settles) (fun _ => closes)
      (fun x member => carries_same fun _ => keeps x member) h
  constructor
  · intro e member
    obtain ⟨k, found⟩ := List.getElem?_of_mem member
    exact told.entries k e found
  · exact told.last

theorem Recounts.andThen {course : Course σ σ} {next : σ → Course σ σ}
    (first : Recounts before after stopped past steps course)
    (rest : before (past ++ steps) course.final → Recounts before after stopped (past ++ steps) more
      (next (Machine.settle course.final))) :
    Recounts before after stopped past (steps ++ more) (course.andThen next) := by
  have within : ∀ n, n ≤ steps.length → (steps ++ more).take n = steps.take n :=
    fun n => List.take_append_of_le_length
  cases ended : course.halt with
  | some h =>
    rw [Course.andThen_halted ended]
    constructor
    · rw [List.length_append]
      exact Nat.le_add_right_of_le first.bound
    · intro k e found
      rw [within _ (Nat.le_trans (List.getElem?_eq_some_iff.mp found).1 first.bound)]
      exact first.entries k e found
    · intro whole
      exact absurd (ended.symm.trans whole) nofun
    · intro h halted
      obtain ⟨length, last⟩ := first.halted h halted
      rw [within _ length, List.length_append]
      exact ⟨Nat.lt_add_right _ length, last⟩
  | none =>
    obtain ⟨length, last⟩ := first.whole ended
    have told := rest last
    have beyond : ∀ n, past ++ (steps ++ more).take (course.entries.length + n) =
        past ++ steps ++ more.take n := by
      intro n
      rw [length, List.take_length_add_append, List.append_assoc]
    rw [Course.andThen_whole ended]
    simp only [Course.after]
    constructor
    · rw [List.length_append, List.length_append, length]
      exact Nat.add_le_add_left told.bound _
    · intro k e found
      by_cases early : k < course.entries.length
      · rw [List.getElem?_append_left early] at found
        rw [within _ (length ▸ early)]
        exact first.entries k e found
      · obtain ⟨n, rfl⟩ := Nat.exists_eq_add_of_le (Nat.not_lt.mp early)
        rw [List.getElem?_append_right (Nat.le_add_right _ _), Nat.add_sub_cancel_left] at found
        rw [Nat.add_assoc, beyond]
        exact told.entries n e found
    · intro whole
      obtain ⟨length', last⟩ := told.whole whole
      rw [List.length_append, List.length_append, length, length', ← List.append_assoc]
      exact ⟨rfl, last⟩
    · intro h halted
      obtain ⟨length', last⟩ := told.halted h halted
      rw [List.length_append, List.length_append, Nat.add_assoc, beyond, length]
      exact ⟨Nat.add_lt_add_left length' _, last⟩

/-- What every step of a session carries on is told by the session, whatever halts it. -/
theorem playAll_recounts (settles : ∀ past s, after past s → before past (Machine.settle s))
    (resettles : ∀ past s, before past s → before past (Machine.settle s))
    (closes : ∀ past s, stopped past s → stopped past (leaves (Procedure.lock .main).run s))
    (commands : List (Command (Machine.Control σ)))
    (carries : ∀ x ∈ commands.flatMap Command.steps, Carries device before after stopped x)
    (h : before past s) :
    Recounts before after stopped past (commands.flatMap Command.steps)
      (playAll device id commands s) := by
  induction commands generalizing past s with
  | nil => exact recounts_nil h
  | cons c rest ih =>
    rw [List.flatMap_cons] at carries ⊢
    obtain ⟨first, later⟩ := List.forall_mem_append.mp carries
    cases c with
    | drive script =>
      have played := script.play_recounts settles closes first h
      exact played.andThen fun last => ih later (resettles _ _ last)
    | access a =>
      have here := first (.access a) (List.mem_singleton.mpr rfl)
      exact playStep_recounts settles here h fun t ht => ih later ht
    | control c =>
      have here := first (.control c) (List.mem_singleton.mpr rfl)
      exact playStep_recounts settles here h fun t ht => ih later ht

end History
end FlashController
