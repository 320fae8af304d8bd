import FlashController.Procedure
import FlashController.Reply

/-! Machines: what procedures run on. A machine answers accesses and says how long a wait on it
may take before it is certain to be endless. -/
namespace FlashController

abbrev MachineM (σ : Type) := EStateM Halt σ

class Machine (σ : Type) where
  perform : (a : Access) → MachineM σ a.Answer
  /-- Number of reads after which a register that was not ready never will be. -/
  patience : σ → Nat
  /-- Drops the account of what happened, at the end of a step. -/
  settle : σ → σ
  /-- What can be done to the machine around the driver. -/
  Control : Type
  control : Control → MachineM σ Reply

variable {σ : Type} [Machine σ]

/-- Reads a register until its contents are ready, and halts when the patience is used up. -/
def awaitReady (r : Register) (ready : Contents r → Bool) : Nat → MachineM σ (Contents r)
  | 0 => throw .stuck
  | patience + 1 => do
    let v : Contents r ← Machine.perform (.read r)
    if ready v then return v else awaitReady r ready patience

def Procedure.run : Procedure α → MachineM σ α
  | .result a => return a
  | .halt h => throw h
  | .act a next => do
    let answer ← Machine.perform a
    (next answer).run
  | .await r ready next => do
    let v ← awaitReady r ready (Machine.patience (← get))
    (next v).run

theorem Procedure.run_bind (p : Procedure α) (f : α → Procedure β) :
    (p >>= f).run = (p.run >>= fun a => (f a).run : MachineM σ β) := by
  show (p.bind f).run = _
  induction p with
  | result a => rfl
  | halt h => rfl
  | act a next ih =>
    funext s
    simp only [Procedure.bind, Procedure.run, ih, Bind.bind, EStateM.bind]
    cases Machine.perform a s <;> rfl
  | await r ready next ih =>
    funext s
    show (awaitReady r ready (Machine.patience s) >>= fun v => ((next v).bind f).run) s =
      ((awaitReady r ready (Machine.patience s) >>= fun v => (next v).run) >>= fun a => (f a).run) s
    simp only [ih, Bind.bind, EStateM.bind]
    cases awaitReady r ready (Machine.patience s) s <;> rfl

/-- A direct access from outside a procedure; what was read is shown as a number. -/
def Access.run : (a : Access) → MachineM σ Reply
  | .read r => do
    let v : Contents r ← Machine.perform (.read r)
    return .number v.raw
  | .write r v => do
    Machine.perform (.write r v)
    return .done
  | .key d k => do
    Machine.perform (.key d k)
    return .done
  | .barrier => do
    Machine.perform .barrier
    return .done
  | .store a w => do
    Machine.perform (.store a w)
    return .done

end FlashController
