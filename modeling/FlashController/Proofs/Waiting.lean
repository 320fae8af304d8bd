import FlashController.Proofs.Run

/-! Runs without patience. A busy wait is a loop that nothing cuts off, so a procedure has a run
only if every wait in it ends. Patience that is not used up leaves the run as it is. -/
namespace FlashController
variable {σ : Type} [Machine σ]

/-- A loop of reads, with the number of them. It ends with the first contents that are ready. -/
inductive Awaits (r : Register) (ready : Contents r → Bool) :
    σ → Nat → EStateM.Result Halt σ (Contents r) → Prop
  | last {s t : σ} {v : Contents r} (read : Machine.perform (.read r) s = .ok v t)
      (now : ready v = true) : Awaits r ready s 1 (.ok v t)
  | again {s t : σ} {v : Contents r} {n : Nat} {outcome : EStateM.Result Halt σ (Contents r)}
      (read : Machine.perform (.read r) s = .ok v t) (later : ready v = false)
      (rest : Awaits r ready t n outcome) : Awaits r ready s (n + 1) outcome
  | lost {s t : σ} {e : Halt} (read : Machine.perform (.read r) s = .error e t) :
      Awaits r ready s 1 (.error e t)

/-- A run of a procedure, with the number of reads that its waits take. -/
inductive Runs : {α : Type} → Procedure α → σ → Nat → EStateM.Result Halt σ α → Prop
  | result (a : α) (s : σ) : Runs (.result a) s 0 (.ok a s)
  | halt (e : Halt) (s : σ) : Runs (.halt e : Procedure α) s 0 (.error e s)
  | act {a : Access} {next : a.Answer → Procedure α} {s t : σ} {x : a.Answer} {n : Nat}
      {outcome : EStateM.Result Halt σ α} (performs : Machine.perform a s = .ok x t)
      (rest : Runs (next x) t n outcome) : Runs (.act a next) s n outcome
  | fault {a : Access} {next : a.Answer → Procedure α} {s t : σ} {e : Halt}
      (performs : Machine.perform a s = .error e t) : Runs (.act a next) s 0 (.error e t)
  | await {r : Register} {ready : Contents r → Bool} {next : Contents r → Procedure α} {s t : σ}
      {v : Contents r} {n m : Nat} {outcome : EStateM.Result Halt σ α}
      (awaits : Awaits r ready s n (.ok v t)) (rest : Runs (next v) t m outcome) :
      Runs (.await r ready next) s (n + m) outcome
  | lost {r : Register} {ready : Contents r → Bool} {next : Contents r → Procedure α} {s t : σ}
      {e : Halt} {n : Nat} (awaits : Awaits r ready s n (.error e t)) :
      Runs (.await r ready next) s n (.error e t)

section Awaits
variable {r : Register} {ready : Contents r → Bool} {s : σ} {n m : Nat}
  {x y : EStateM.Result Halt σ (Contents r)}

theorem Awaits.unique (first : Awaits r ready s n x) (second : Awaits r ready s m y) :
    n = m ∧ x = y := by
  induction first generalizing m with
  | last read now =>
    cases second with
    | last read' =>
      cases read.symm.trans read'
      exact ⟨rfl, rfl⟩
    | again read' later =>
      cases read.symm.trans read'
      cases now.symm.trans later
    | lost read' => cases read.symm.trans read'
  | again read later _ ih =>
    cases second with
    | last read' now =>
      cases read.symm.trans read'
      cases now.symm.trans later
    | again read' _ rest =>
      cases read.symm.trans read'
      obtain ⟨rfl, rfl⟩ := ih rest
      exact ⟨rfl, rfl⟩
    | lost read' => cases read.symm.trans read'
  | lost read =>
    cases second with
    | last read' | again read' => cases read.symm.trans read'
    | lost read' =>
      cases read.symm.trans read'
      exact ⟨rfl, rfl⟩

/-- Either the patience is used up, or the wait ends as it would without any. -/
theorem awaitReady_awaits (ready : Contents r → Bool) (patience : Nat) (s : σ) :
    (∃ t, awaitReady r ready patience s = .error .stuck t) ∨
      ∃ n ≤ patience, Awaits r ready s n (awaitReady r ready patience s) := by
  induction patience generalizing s with
  | zero => exact .inl ⟨s, rfl⟩
  | succ k ih =>
    cases read : (Machine.perform (.read r) : MachineM σ (Contents r)) s with
    | error e t =>
      have lost : awaitReady r ready (k + 1) s = .error e t := bind_error read
      exact .inr ⟨1, Nat.le_add_left 1 k, lost ▸ .lost read⟩
    | ok v t =>
      have goes : awaitReady r ready (k + 1) s =
          (if ready v then pure v else awaitReady r ready k) t := bind_ok read
      rw [goes]
      cases now : ready v with
      | true => exact .inr ⟨1, Nat.le_add_left 1 k, .last read now⟩
      | false =>
        rcases ih t with stuck | ⟨n, le, awaits⟩
        · exact .inl stuck
        · exact .inr ⟨n + 1, Nat.succ_le_succ le, .again read now awaits⟩

end Awaits

/-- A procedure has at most one run from a state. -/
theorem Runs.unique {α : Type} {p : Procedure α} {s : σ} {n m : Nat}
    {x y : EStateM.Result Halt σ α} (first : Runs p s n x) (second : Runs p s m y) :
    n = m ∧ x = y := by
  induction first generalizing m with
  | result | halt =>
    cases second
    exact ⟨rfl, rfl⟩
  | act performs _ ih =>
    cases second with
    | act performs' rest =>
      cases performs.symm.trans performs'
      exact ih rest
    | fault performs' => cases performs.symm.trans performs'
  | fault performs =>
    cases second with
    | act performs' => cases performs.symm.trans performs'
    | fault performs' =>
      cases performs.symm.trans performs'
      exact ⟨rfl, rfl⟩
  | await awaits _ ih =>
    cases second with
    | await awaits' rest =>
      obtain ⟨rfl, same⟩ := awaits.unique awaits'
      cases same
      obtain ⟨rfl, rfl⟩ := ih rest
      exact ⟨rfl, rfl⟩
    | lost awaits' => cases (awaits.unique awaits').2
  | lost awaits =>
    cases second with
    | await awaits' => cases (awaits.unique awaits').2
    | lost awaits' =>
      obtain ⟨rfl, same⟩ := awaits.unique awaits'
      cases same
      exact ⟨rfl, rfl⟩

section Bind
variable {α β : Type} {p : Procedure α} {f : α → Procedure β} {s t : σ} {a : α} {n m : Nat}
  {outcome : EStateM.Result Halt σ β}

theorem Runs.bind (first : Runs p s n (.ok a t)) (rest : Runs (f a) t m outcome) :
    Runs (p >>= f) s (n + m) outcome := by
  generalize ended : EStateM.Result.ok a t = x at first
  induction first with
  | result b u =>
    cases ended
    rw [Nat.zero_add]
    exact rest
  | act performs _ ih => exact .act performs (ih ended)
  | await awaits _ ih =>
    rw [Nat.add_assoc]
    exact .await awaits (ih ended)
  | halt | fault | lost => cases ended

theorem Runs.map (h : Runs p s n (.ok a t)) (g : α → β) : Runs (g <$> p) s n (.ok (g a) t) := by
  have same : g <$> p = p >>= fun a => .result (g a) := map_eq_pure_bind g p
  rw [same]
  exact h.bind (f := fun a => .result (g a)) (.result (g a) t)

theorem Runs.access {x : Access} {answer : x.Answer}
    (performs : Machine.perform x s = .ok answer t) : Runs (.act x .result) s 0 (.ok answer t) :=
  .act performs (.result answer t)

theorem Awaits.runs {r : Register} {ready : Contents r → Bool} {v : Contents r}
    (awaits : Awaits r ready s n (.ok v t)) : Runs (.readUntil r ready) s n (.ok v t) :=
  .await awaits (.result v t)

end Bind

/-- A run that does not get stuck is a run without patience. -/
theorem Procedure.run_runs {α : Type} {p : Procedure α} {s : σ}
    (free : ∀ t, p.run s ≠ .error .stuck t) : ∃ n, Runs p s n (p.run s) := by
  induction p generalizing s with
  | result a => exact ⟨0, .result a s⟩
  | halt e => exact ⟨0, .halt e s⟩
  | act a next ih =>
    cases performs : (Machine.perform a : MachineM σ a.Answer) s with
    | error e t =>
      have lost : (act a next).run s = .error e t := bind_error performs
      exact ⟨0, lost ▸ .fault performs⟩
    | ok x t =>
      have goes : (act a next).run s = (next x).run t := bind_ok performs
      rw [goes] at free ⊢
      obtain ⟨n, rest⟩ := ih x free
      exact ⟨n, .act performs rest⟩
  | await r ready next ih =>
    have goes : (await r ready next).run s =
        (awaitReady r ready (Machine.patience s) >>= fun v => (next v).run) s := rfl
    rw [goes] at free ⊢
    rcases awaitReady_awaits ready (Machine.patience s) s with ⟨u, stuck⟩ | ⟨n, _, awaits⟩
    · exact absurd (bind_error stuck) (free u)
    · cases ends : awaitReady r ready (Machine.patience s) s with
      | error e t =>
        rw [ends] at awaits
        rw [bind_error ends]
        exact ⟨n, .lost awaits⟩
      | ok v t =>
        rw [ends] at awaits
        rw [bind_ok ends] at free ⊢
        obtain ⟨m, rest⟩ := ih v free
        exact ⟨n + m, .await awaits rest⟩

end FlashController
