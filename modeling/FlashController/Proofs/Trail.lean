import FlashController.Proofs.Steps

/-! What is seen from point to point of a run: at its start, after each step, and at the end if a
step halts there. What all steps but some keep lasts from any point to any later one, unless one of
those steps lies between them. -/
namespace FlashController
variable {β : Type}

/-- The points of a run behind its first, the last of them given once more. Every step leads from
one point to the next, up to a step that is not taken. -/
inductive Trail (R : β → Step κ → β → Prop) : β → List (Step κ) → List β → β → Prop
  | stop (a : β) (steps : List (Step κ)) : Trail R a steps [] a
  | step {a b c : β} {x : Step κ} {steps : List (Step κ)} {points : List β} (first : R a x b)
      (rest : Trail R b steps points c) : Trail R a (x :: steps) (b :: points) c

namespace Trail
variable {R : β → Step κ → β → Prop} {a b c : β} {steps more : List (Step κ)}
  {points later : List β}

theorem append (first : Trail R a steps points b) (whole : points.length = steps.length)
    (rest : Trail R b more later c) : Trail R a (steps ++ more) (points ++ later) c := by
  induction first with
  | stop a steps =>
    obtain rfl := List.eq_nil_of_length_eq_zero whole.symm
    exact rest
  | step first _ ih => exact .step first (ih (Nat.succ.inj whole) rest)

/-- Further steps are not taken. -/
theorem extend (h : Trail R a steps points b) (more : List (Step κ)) :
    Trail R a (steps ++ more) points b := by
  induction h with
  | stop a steps => exact .stop a (steps ++ more)
  | step first _ ih => exact .step first ih

/-- What every step that does not end it keeps lasts until one that does. -/
theorem lasts {Q : β → Prop} {Ends : Step κ → Prop} (h : Trail R a steps points b)
    (keeps : ∀ u x v, R u x v → ¬ Ends x → Q u → Q v) {i j : Nat} {u v : β} (le : i ≤ j)
    (here : (a :: points)[i]? = some u) (there : (a :: points)[j]? = some v)
    (still : ∀ x ∈ (steps.take j).drop i, ¬ Ends x) (start : Q u) : Q v := by
  induction h generalizing i j u with
  | stop a steps =>
    cases j with
    | zero =>
      obtain rfl := Nat.le_zero.mp le
      exact Option.some.inj (here.symm.trans there) ▸ start
    | succ j => cases there
  | @step a b c x steps points first rest ih =>
    cases j with
    | zero =>
      obtain rfl := Nat.le_zero.mp le
      exact Option.some.inj (here.symm.trans there) ▸ start
    | succ j =>
      cases i with
      | zero =>
        obtain rfl := Option.some.inj here
        have next := keeps _ x _ first (still x List.mem_cons_self) start
        exact ih (Nat.zero_le j) rfl there (fun y member => still y (.tail x member)) next
      | succ i => exact ih (Nat.le_of_succ_le_succ le) here there still start

end Trail

section Courses
variable {σ : Type} [Machine σ] {device : Device} {look : σ → β}
  {R : β → Step (Machine.Control σ) → β → Prop} {steps more : List (Step (Machine.Control σ))}
  {s : σ}

/-- What is seen along a course, its halt included. -/
def Course.sights (look : σ → β) (course : Course σ β) : List β :=
  (course.report look).map (·.seen)

/-- A course along some steps, as far as it goes. -/
structure Trails (R : β → Step (Machine.Control σ) → β → Prop) (look : σ → β)
    (steps : List (Step (Machine.Control σ))) (s : σ) (course : Course σ β) : Prop where
  trail : Trail R (look s) steps (course.sights look) (look course.final)
  whole : course.halt = none → course.entries.length = steps.length

section
variable {course : Course σ β} {h : Halt}

omit [Machine σ] in
theorem Course.sights_whole (whole : course.halt = none) :
    course.sights look = course.entries.map (·.seen) := by
  simp only [sights, report, whole]

omit [Machine σ] in
theorem Course.sights_halted (halted : course.halt = some h) :
    course.sights look = course.entries.map (·.seen) ++ [look course.final] := by
  simp only [sights, report, halted, List.map_append, List.map_cons, List.map_nil]

omit [Machine σ] in
theorem Course.sights_after (course : Course σ β) (earlier : List (Entry β)) :
    (course.after earlier).sights look = earlier.map (·.seen) ++ course.sights look := by
  have same : (course.after earlier).halt = course.halt := rfl
  cases ended : course.halt with
  | none =>
    rw [sights_whole ended, sights_whole (same.trans ended)]
    exact List.map_append
  | some h =>
    rw [sights_halted ended, sights_halted (same.trans ended), ← List.append_assoc]
    exact congrArg (· ++ _) List.map_append

theorem Trails.andThen {next : σ → Course σ β} (silent : ∀ s, look (Machine.settle s) = look s)
    (first : Trails R look steps s course) (rest : ∀ t, Trails R look more t (next t)) :
    Trails R look (steps ++ more) s (course.andThen next) := by
  cases ended : course.halt with
  | some h =>
    rw [Course.andThen_halted ended]
    exact ⟨first.trail.extend more, fun whole => absurd (ended.symm.trans whole) nofun⟩
  | none =>
    have length := first.whole ended
    have trail := first.trail
    have later := rest (Machine.settle course.final)
    have goes := later.trail
    rw [silent] at goes
    rw [Course.sights_whole ended] at trail
    rw [Course.andThen_whole ended]
    constructor
    · rw [Course.sights_after]
      exact trail.append ((List.length_map _).trans length) goes
    · intro whole
      simp only [Course.after, List.length_append, length, later.whole whole]

end

theorem playStep_trails {x : Step (Machine.Control σ)}
    (leads : ∀ s, R (look s) x (look (leaves (x.act device) s))) (s : σ) :
    Trails R look [x] s (playStep look (x.act device) s) := by
  have here := leads s
  cases run : x.act device s with
  | ok reply t =>
    rw [leaves_ok run] at here
    rw [playStep_ok run]
    exact ⟨.step here (.stop _ _), fun _ => rfl⟩
  | error h t =>
    rw [leaves_error run] at here
    rw [playStep_error run]
    exact ⟨.step here (.stop _ _), nofun⟩

variable (silent : ∀ s, look (Machine.settle s) = look s)
include silent

theorem playSteps_trails
    (leads : ∀ x ∈ steps, ∀ s, R (look s) x (look (leaves (x.act device) s))) (s : σ) :
    Trails R look steps s (playSteps device look steps s) := by
  induction steps generalizing s with
  | nil => exact ⟨.stop _ _, fun _ => rfl⟩
  | cons x rest ih =>
    obtain ⟨here, later⟩ := List.forall_mem_cons.mp leads
    exact (playStep_trails here s).andThen silent (ih later)

variable (closes : ∀ s, look (leaves (Procedure.lock .main).run s) = look s)
include closes

/-- Closing the guards that a halt leaves open is not seen. -/
theorem Script.play_trails (script : Script)
    (leads : ∀ x ∈ script.steps, ∀ s, R (look s) x (look (leaves (x.act device) s))) (s : σ) :
    Trails R look script.steps s (script.play device look s) := by
  have told := playSteps_trails silent leads s
  rw [Script.play_eq]
  generalize playSteps device look script.steps s = course at told ⊢
  have same : ∀ n, look (course.unwound n).final = look course.final := fun n =>
    closeGuards_keeps (P := fun t => look t = look course.final)
      (fun t kept => (closes t).trans kept) n rfl
  have sights : ∀ n, (course.unwound n).sights look = course.sights look := by
    intro n
    have halt : (course.unwound n).halt = course.halt := rfl
    cases ended : course.halt with
    | none =>
      rw [Course.sights_whole ended, Course.sights_whole (halt.trans ended)]
      rfl
    | some h =>
      rw [Course.sights_halted ended, Course.sights_halted (halt.trans ended), same n]
      rfl
  refine ⟨?_, told.whole⟩
  rw [sights, same]
  exact told.trail

/-- The steps of a session, along what is seen of the machine between them. -/
theorem playAll_trails (commands : List (Command (Machine.Control σ)))
    (leads : ∀ x ∈ commands.flatMap Command.steps, ∀ s,
      R (look s) x (look (leaves (x.act device) s))) (s : σ) :
    Trails R look (commands.flatMap Command.steps) s (playAll device look commands s) := by
  induction commands generalizing s with
  | nil => exact ⟨.stop _ _, fun _ => rfl⟩
  | cons c rest ih =>
    rw [List.flatMap_cons] at leads ⊢
    obtain ⟨first, later⟩ := List.forall_mem_append.mp leads
    have played : Trails R look c.steps s (c.play device look s) := by
      cases c with
      | drive script => exact script.play_trails silent closes first s
      | access a => exact playStep_trails (first _ (List.mem_singleton.mpr rfl)) s
      | control c => exact playStep_trails (first _ (List.mem_singleton.mpr rfl)) s
    exact played.andThen silent (ih later)

end Courses
end FlashController
