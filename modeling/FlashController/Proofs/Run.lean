import FlashController.Machine

/-! Running procedures, on any machine. An action leaves a state behind whether it completes or
halts, and what every access keeps is kept by every procedure. -/
namespace FlashController
variable {σ : Type}

theorem bind_ok {x : MachineM σ α} {f : α → MachineM σ β} {s t : σ} {a : α}
    (h : x s = .ok a t) : (x >>= f) s = f a t := by
  show EStateM.bind x f s = f a t
  simp only [EStateM.bind, h]

theorem bind_error {x : MachineM σ α} {f : α → MachineM σ β} {s t : σ} {e : Halt}
    (h : x s = .error e t) : (x >>= f) s = .error e t := by
  show EStateM.bind x f s = .error e t
  simp only [EStateM.bind, h]

theorem modify_bind (change : σ → σ) (f : Unit → MachineM σ β) (s : σ) :
    ((modify change : MachineM σ Unit) >>= f) s = f () (change s) := rfl

theorem get_bind (f : σ → MachineM σ β) (s : σ) : ((get : MachineM σ σ) >>= f) s = f s s := rfl

/-- The state that an action leaves, also when it halts. -/
def leaves (act : MachineM σ α) (s : σ) : σ :=
  match act s with
  | .ok _ t | .error _ t => t

theorem leaves_ok {act : MachineM σ α} {s t : σ} {a : α} (h : act s = .ok a t) :
    leaves act s = t := by
  simp only [leaves, h]

theorem leaves_error {act : MachineM σ α} {s t : σ} {e : Halt} (h : act s = .error e t) :
    leaves act s = t := by
  simp only [leaves, h]

theorem leaves_bind_pure (x : MachineM σ α) (f : α → β) (s : σ) :
    leaves (x >>= fun a => pure (f a)) s = leaves x s := by
  cases h : x s with
  | ok a t =>
    simp only [leaves, bind_ok h, h]
    rfl
  | error e t => simp only [leaves, bind_error h, h]

theorem leaves_bind_keeps {P : σ → Prop} {x : MachineM σ α} {f : α → MachineM σ β} {s : σ}
    (first : P (leaves x s)) (next : ∀ a t, P t → P (leaves (f a) t)) :
    P (leaves (x >>= f) s) := by
  cases h : x s with
  | ok a t =>
    rw [leaves_ok h] at first
    simpa only [leaves, bind_ok h] using next a t first
  | error e t =>
    rw [leaves_error h] at first
    simpa only [leaves, bind_error h] using first

theorem Procedure.advance_eq {a next : Address} {n : Nat} (moved : a.advance? n = some next) :
    Procedure.advance a n = pure next := by
  simp only [Procedure.advance, moved]
  rfl

theorem Procedure.advance_beyond {a : Address} {n : Nat} (beyond : UInt64.size ≤ a.toNat + n) :
    Procedure.advance a n = .halt .additionOverflow := by
  simp only [Procedure.advance, Address.advance?_eq_none_iff.mpr beyond]

variable [Machine σ]

theorem leaves_run (a : Access) (s : σ) :
    leaves a.run s = leaves (Machine.perform a) s := by
  cases a with
  | read r => exact leaves_bind_pure (Machine.perform (.read r)) (fun v => Reply.number v.raw) s
  | write r v => exact leaves_bind_pure (Machine.perform (.write r v)) (fun _ => Reply.done) s
  | key d k => exact leaves_bind_pure (Machine.perform (.key d k)) (fun _ => Reply.done) s
  | barrier => exact leaves_bind_pure (Machine.perform .barrier) (fun _ => Reply.done) s
  | store a w => exact leaves_bind_pure (Machine.perform (.store a w)) (fun _ => Reply.done) s

theorem awaitReady_keeps {P : σ → Prop} {r : Register} {ready : Contents r → Bool}
    (keeps : ∀ s, P s → P (leaves (Machine.perform (.read r)) s)) (patience : Nat) (s : σ)
    (h : P s) : P (leaves (awaitReady r ready patience) s) := by
  induction patience generalizing s with
  | zero => exact h
  | succ n ih =>
    refine leaves_bind_keeps (keeps s h) fun v t ht => ?_
    show P (leaves (if ready v then pure v else awaitReady r ready n) t)
    split
    · exact ht
    · exact ih t ht

namespace Procedure

theorem run_keeps {P : σ → Prop} (keeps : ∀ a s, P s → P (leaves (Machine.perform a) s))
    (p : Procedure α) (s : σ) (h : P s) : P (leaves p.run s) := by
  induction p generalizing s with
  | result a => exact h
  | halt e => exact h
  | act a next ih => exact leaves_bind_keeps (keeps a s h) fun answer t ht => ih answer t ht
  | await r ready next ih =>
    refine leaves_bind_keeps (show P (leaves get s) from h) fun u t ht => ?_
    exact leaves_bind_keeps (awaitReady_keeps (fun t ht => keeps (.read r) t ht) _ t ht)
      fun v t ht => ih v t ht

theorem run_bind_ok {p : Procedure α} {f : α → Procedure β} {s t : σ} {a : α}
    (h : p.run s = .ok a t) : (p >>= f).run s = (f a).run t := by
  rw [run_bind]
  exact bind_ok h

theorem run_bind_error {p : Procedure α} {f : α → Procedure β} {s t : σ} {e : Halt}
    (h : p.run s = .error e t) : (p >>= f).run s = .error e t := by
  rw [run_bind]
  exact bind_error h

/-- Whatever completes in two parts has completed the first. -/
theorem run_bind_eq_ok {p : Procedure α} {f : α → Procedure β} {s t : σ} {b : β}
    (h : (p >>= f).run s = .ok b t) : ∃ a u, p.run s = .ok a u ∧ (f a).run u = .ok b t := by
  cases run : p.run s with
  | ok a u => exact ⟨a, u, rfl, (run_bind_ok run).symm.trans h⟩
  | error e u => cases (run_bind_error run).symm.trans h

theorem leaves_run_pure (p : Procedure α) (f : α → β) (s : σ) :
    leaves (p >>= fun a => pure (f a)).run s = leaves p.run s := by
  rw [run_bind]
  exact leaves_bind_pure p.run f s

theorem run_act (a : Access) : (act a .result).run = (Machine.perform a : MachineM σ a.Answer) := by
  funext s
  show EStateM.bind (Machine.perform a) _ s = _
  unfold EStateM.bind
  cases Machine.perform a s <;> rfl

theorem run_readUntil (r : Register) (ready : Contents r → Bool) (s : σ) :
    (readUntil r ready).run s = awaitReady r ready (Machine.patience s) s := by
  show EStateM.bind (awaitReady r ready (Machine.patience s)) _ s = _
  unfold EStateM.bind
  cases awaitReady r ready (Machine.patience s) s <;> rfl

theorem run_update {r : Register} {f : Contents r → Contents r} {s t : σ} {v : Contents r}
    (h : Machine.perform (.read r) s = .ok v t) :
    (update r f).run s = Machine.perform (.write r (f v)) t := by
  have read : (read r).run s = .ok v t := (congrFun (run_act _) s).trans h
  exact (run_bind_ok read).trans (congrFun (run_act _) t)

end Procedure
end FlashController
