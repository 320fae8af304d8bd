import FlashController.Proofs.Run
import FlashController.Session

/-! Runs of scripts, on any machine. What every access keeps is kept by a script, whether it
completes or halts; a script whose steps all complete passes through one state after each. -/
namespace FlashController
variable {σ β : Type}

theorem playStep_final (look : σ → β) (act : MachineM σ Reply) (s : σ) :
    (playStep look act s).final = leaves act s := by
  unfold playStep leaves
  cases act s <;> rfl

variable [Machine σ]

section Keeps
variable {P : σ → Prop}

theorem closeGuard_final (look : σ → β) (course : Course σ β) :
    (closeGuard look course).final = leaves (Procedure.lock .main).run course.final := by
  unfold closeGuard leaves
  cases (Procedure.lock .main).run course.final <;> cases course.halt <;> rfl

theorem Course.andThen_keeps {course : Course σ β} {next : σ → Course σ β} (first : P course.final)
    (rest : P (Machine.settle course.final) → P (next (Machine.settle course.final)).final)
    (settles : ∀ s, P s → P (Machine.settle s)) : P (course.andThen next).final := by
  unfold Course.andThen
  cases course.halt with
  | some h => exact first
  | none => exact rest (settles _ first)

/-- What every access keeps is kept by every script, also by one that halts in a guard. -/
theorem Script.play_keeps (performs : ∀ a s, P s → P (leaves (Machine.perform a) s))
    (settles : ∀ s, P s → P (Machine.settle s)) (device : Device) (look : σ → β) (script : Script)
    (s : σ) (h : P s) : P (script.play device look s).final := by
  induction script generalizing s with
  | done => exact h
  | step op rest ih =>
    refine Course.andThen_keeps ?_ (ih _) settles
    rw [playStep_final]
    exact Procedure.run_keeps performs _ s h
  | guarded body rest body_ih rest_ih =>
    have opened : P (playStep look (do (Procedure.unlock .main).run; return .opened) s).final := by
      rw [playStep_final, leaves_bind_pure]
      exact Procedure.run_keeps performs _ s h
    simp only [Script.play]
    split
    · exact opened
    · refine Course.andThen_keeps ?_ (rest_ih _) settles
      rw [closeGuard_final]
      exact Procedure.run_keeps performs _ _ (Course.andThen_keeps opened (body_ih _) settles)

end Keeps

/-- What a session is a sequence of, guards taken apart. -/
inductive Step (κ : Type)
  | operate (op : Operation)
  | openGuard
  | closeGuard
  | access (a : Access)
  | control (c : κ)

def Step.act (device : Device) : Step (Machine.Control σ) → MachineM σ Reply
  | .operate op => (op.procedure device).run
  | .openGuard => do
    (Procedure.unlock .main).run
    return .opened
  | .closeGuard => do
    (Procedure.lock .main).run
    return .closed
  | .access a => a.run
  | .control c => Machine.control c

def Script.steps : Script → List (Step κ)
  | .done => []
  | .step op rest => .operate op :: rest.steps
  | .guarded body rest => .openGuard :: (body.steps ++ .closeGuard :: rest.steps)

def Command.steps : Command κ → List (Step κ)
  | .drive script => script.steps
  | .access a => [.access a]
  | .control c => [.control c]

/-- Operations one after the other, without a guard. -/
def Script.ofList : List Operation → Script
  | [] => .done
  | op :: rest => .step op (ofList rest)

theorem step_ofList {ops : List Operation} {x : Step κ} (member : x ∈ (Script.ofList ops).steps) :
    ∃ op ∈ ops, x = .operate op := by
  induction ops with
  | nil => cases member
  | cons op rest ih =>
    rcases List.mem_cons.mp member with rfl | later
    · exact ⟨op, List.mem_cons_self, rfl⟩
    · obtain ⟨op, here, same⟩ := ih later
      exact ⟨op, List.mem_cons_of_mem _ here, same⟩

/-- A merge of two lists that keeps the order of each. -/
inductive Interleaves : List α → List α → List α → Prop
  | nil : Interleaves [] [] []
  | left {x : α} {xs ys zs : List α} (rest : Interleaves xs ys zs) :
      Interleaves (x :: xs) ys (x :: zs)
  | right {y : α} {xs ys zs : List α} (rest : Interleaves xs ys zs) :
      Interleaves xs (y :: ys) (y :: zs)

/-- What every access and every control keeps is kept by every step, also by one that halts. -/
theorem Step.act_keeps {P : σ → Prop} (performs : ∀ a s, P s → P (leaves (Machine.perform a) s))
    (controls : ∀ c s, P s → P (leaves (Machine.control c) s)) {device : Device} {s : σ} (h : P s)
    (x : Step (Machine.Control σ)) : P (leaves (x.act device) s) := by
  cases x with
  | operate op => exact Procedure.run_keeps performs _ s h
  | openGuard | closeGuard =>
    simp only [Step.act]
    rw [leaves_bind_pure]
    exact Procedure.run_keeps performs _ s h
  | access a => exact leaves_run a s ▸ performs a s h
  | control c => exact controls c s h

/-- Each step leads from what was seen before it to its entry. -/
inductive Links (R : β → Step κ → Entry β → Prop) : β → List (Step κ) → List (Entry β) → β → Prop
  | nil (a : β) : Links R a [] [] a
  | cons {a b : β} {x : Step κ} {e : Entry β} {steps : List (Step κ)} {entries : List (Entry β)}
      (first : R a x e) (rest : Links R e.seen steps entries b) :
      Links R a (x :: steps) (e :: entries) b

theorem Links.append {R : β → Step κ → Entry β → Prop} {a b c : β} {steps more : List (Step κ)}
    {entries later : List (Entry β)} (first : Links R a steps entries b)
    (rest : Links R b more later c) : Links R a (steps ++ more) (entries ++ later) c := by
  induction first with
  | nil => exact rest
  | cons first _ ih => exact .cons first (ih rest)

section Links
variable {device : Device} {look : σ → β} {P : σ → Prop}
  {R : β → Step (Machine.Control σ) → Entry β → Prop} {s : σ}

/-- The step completes wherever the invariant holds, and keeps it. -/
def Leads (device : Device) (look : σ → β) (P : σ → Prop)
    (R : β → Step (Machine.Control σ) → Entry β → Prop) (x : Step (Machine.Control σ)) : Prop :=
  ∀ s, P s → ∃ reply t, x.act device s = .ok reply t ∧ P t ∧ R (look s) x ⟨reply, look t⟩

/-- A course that was not halted, with an entry for each step. -/
structure Passes (look : σ → β) (P : σ → Prop)
    (R : β → Step (Machine.Control σ) → Entry β → Prop) (s : σ)
    (steps : List (Step (Machine.Control σ))) (course : Course σ β) : Prop where
  whole : course.halt = none
  final : P course.final
  links : Links R (look s) steps course.entries (look course.final)

theorem passes_nil (h : P s) : Passes look P R s [] ⟨[], none, s⟩ := ⟨rfl, h, .nil _⟩

theorem playStep_passes {x : Step (Machine.Control σ)} (leads : Leads device look P R x) (h : P s) :
    Passes look P R s [x] (playStep look (x.act device) s) := by
  obtain ⟨reply, t, run, kept, related⟩ := leads s h
  have course : playStep look (x.act device) s = ⟨[⟨reply, look t⟩], none, t⟩ := by
    simp only [playStep, run]
  rw [course]
  exact ⟨rfl, kept, .cons related (.nil _)⟩

theorem Passes.andThen {steps more : List (Step (Machine.Control σ))} {course : Course σ β}
    {next : σ → Course σ β} (settles : ∀ s, P s → P (Machine.settle s))
    (silent : ∀ s, look (Machine.settle s) = look s) (first : Passes look P R s steps course)
    (rest : ∀ t, P t → Passes look P R t more (next t)) :
    Passes look P R s (steps ++ more) (course.andThen next) := by
  have rest := rest _ (settles _ first.final)
  have later := rest.links
  rw [silent] at later
  simp only [Course.andThen, first.whole]
  exact ⟨rest.whole, rest.final, first.links.append later⟩

theorem closeGuard_passes {steps : List (Step (Machine.Control σ))} {course : Course σ β}
    (leads : Leads device look P R .closeGuard) (h : Passes look P R s steps course) :
    Passes look P R s (steps ++ [.closeGuard]) (closeGuard look course) := by
  obtain ⟨reply, t, run, kept, related⟩ := leads _ h.final
  have run : ((Procedure.lock .main).run >>= fun _ => pure .closed) course.final = .ok reply t :=
    run
  cases locked : (Procedure.lock .main).run course.final with
  | error e u =>
    rw [bind_error locked] at run
    exact absurd run nofun
  | ok _ u =>
    rw [bind_ok locked] at run
    obtain ⟨rfl, rfl⟩ := EStateM.Result.ok.inj run
    have closed : closeGuard look course =
        { course with entries := course.entries ++ [⟨.closed, look u⟩], final := u } := by
      simp only [closeGuard, locked, h.whole]
    rw [closed]
    exact ⟨h.whole, kept, h.links.append (.cons related (.nil _))⟩

/-- A script all of whose steps keep an invariant is not halted. -/
theorem Script.play_passes (settles : ∀ s, P s → P (Machine.settle s))
    (silent : ∀ s, look (Machine.settle s) = look s) (script : Script)
    (leads : ∀ x ∈ script.steps, Leads device look P R x) (h : P s) :
    Passes look P R s script.steps (script.play device look s) := by
  induction script generalizing s with
  | done => exact passes_nil h
  | step op rest ih =>
    obtain ⟨first, later⟩ := List.forall_mem_cons.mp leads
    exact (playStep_passes first h).andThen settles silent fun t ht => ih later ht
  | guarded body rest body_ih rest_ih =>
    obtain ⟨opens, inside⟩ := List.forall_mem_cons.mp leads
    obtain ⟨inside, after⟩ := List.forall_mem_append.mp inside
    obtain ⟨closes, later⟩ := List.forall_mem_cons.mp after
    have opening := playStep_passes opens h
    have guarded := closeGuard_passes closes <|
      opening.andThen settles silent fun t ht => body_ih inside ht
    have whole := guarded.andThen settles silent fun t ht => rest_ih later ht
    have open_ok := opening.whole
    simp only [Step.act] at whole open_ok
    simp only [Script.play, open_ok]
    simpa only [Script.steps, List.append_assoc, List.nil_append, List.cons_append] using whole

/-- Commands all of whose steps keep an invariant are not halted. -/
theorem playAll_passes (settles : ∀ s, P s → P (Machine.settle s))
    (silent : ∀ s, look (Machine.settle s) = look s)
    (commands : List (Command (Machine.Control σ)))
    (leads : ∀ x ∈ commands.flatMap Command.steps, Leads device look P R x) (h : P s) :
    Passes look P R s (commands.flatMap Command.steps) (playAll device look commands s) := by
  induction commands generalizing s with
  | nil => exact passes_nil h
  | cons c rest ih =>
    rw [List.flatMap_cons] at leads ⊢
    obtain ⟨first, later⟩ := List.forall_mem_append.mp leads
    have played : Passes look P R s c.steps (c.play device look s) := by
      cases c with
      | drive script => exact script.play_passes settles silent first h
      | access a => exact playStep_passes (first _ (List.mem_singleton.mpr rfl)) h
      | control c => exact playStep_passes (first _ (List.mem_singleton.mpr rfl)) h
    exact played.andThen settles silent fun t ht => ih later ht

end Links
end FlashController
