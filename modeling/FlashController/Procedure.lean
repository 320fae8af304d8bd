import FlashController.Access
import FlashController.Reply

/-! Procedures: what is done to a controller, apart from any controller. A procedure is a tree of
accesses that branches on the contents read, with busy waits as steps of their own, since a wait
has no bound before a machine is chosen. A law of all procedures is one induction. -/
namespace FlashController

inductive Procedure (α : Type) where
  | result (a : α)
  | halt (h : Halt)
  | act (a : Access) (next : a.Answer → Procedure α)
  /-- Reads a register until its contents are ready. -/
  | await (r : Register) (ready : Contents r → Bool) (next : Contents r → Procedure α)

namespace Procedure

def bind : Procedure α → (α → Procedure β) → Procedure β
  | .result a, f => f a
  | .halt h, _ => .halt h
  | .act a next, f => .act a fun x => (next x).bind f
  | .await r ready next, f => .await r ready fun x => (next x).bind f

instance : Monad Procedure where
  pure := .result
  bind := bind

theorem bind_result (p : Procedure α) : p.bind .result = p := by
  induction p with
  | result | halt => rfl
  | act _ _ ih | await _ _ _ ih => simp only [bind, ih]

theorem bind_assoc (p : Procedure α) (f : α → Procedure β) (g : β → Procedure γ) :
    (p.bind f).bind g = p.bind fun a => (f a).bind g := by
  induction p with
  | result | halt => rfl
  | act _ _ ih | await _ _ _ ih => simp only [bind, ih]

instance : LawfulMonad Procedure :=
  LawfulMonad.mk' Procedure bind_result (fun _ _ => rfl) bind_assoc

def read (r : Register) : Procedure (Contents r) := .act (.read r) .result

def write (v : Contents r) : Procedure Unit := .act (.write r v) .result

def key (d : Domain) (k : BitVec 32) : Procedure Unit := .act (.key d k) .result

def barrier : Procedure Unit := .act .barrier .result

def store (a : Address) (w : Word) : Procedure Unit := .act (.store a w) .result

/-- Reads a register until its contents are ready. -/
def readUntil (r : Register) (ready : Contents r → Bool) : Procedure (Contents r) :=
  .await r ready .result

/-- Reads a register and writes it back changed. -/
def update (r : Register) (f : Contents r → Contents r) : Procedure Unit := do
  let v ← read r
  write (f v)

/-- The address further up. A program whose addresses leave the address space goes no further. -/
def advance (a : Address) (n : Nat) : Procedure Address :=
  match a.advance? n with
  | some b => .result b
  | none => .halt .additionOverflow

end Procedure
end FlashController
