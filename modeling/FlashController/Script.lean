import FlashController.Machine
import FlashController.Operation

/-! Scripts: runs of operations with guards around parts of them. A guard unlocks the main domain,
and locks it again when its body is over, also when the body halts. -/
namespace FlashController

inductive Script
  | done
  | step (op : Operation) (rest : Script)
  | guarded (body rest : Script)

/-- One completed step: its answer and what was seen of the machine after it. -/
structure Entry (β : Type) where
  reply : Reply
  seen : β

/-- Course of a run: the completed steps, why it ended early if it did, and the machine at its
end. -/
structure Course (σ β : Type) where
  entries : List (Entry β)
  halt : Option Halt
  final : σ

namespace Course

def after (course : Course σ β) (earlier : List (Entry β)) : Course σ β :=
  { course with entries := earlier ++ course.entries }

end Course

section
variable {σ β : Type} [Machine σ]

/-- Ends a guard: locks the main domain. A body that halted stays halted, with its own cause. -/
def closeGuard (look : σ → β) (course : Course σ β) : Course σ β :=
  match (Procedure.lock .main).run course.final, course.halt with
  | .ok _ s, none => { course with entries := course.entries ++ [⟨.closed, look s⟩], final := s }
  | .error h s, none => { course with halt := some h, final := s }
  | .ok _ s, some _ | .error _ s, some _ => { course with final := s }

/-- Goes on after a run that was not halted. -/
def Course.andThen (course : Course σ β) (next : σ → Course σ β) : Course σ β :=
  match course.halt with
  | some _ => course
  | none => (next (Machine.settle course.final)).after course.entries

/-- Plays one action of a machine as a step. -/
def playStep (look : σ → β) (act : MachineM σ Reply) (s : σ) : Course σ β :=
  match act s with
  | .ok reply s => ⟨[⟨reply, look s⟩], none, s⟩
  | .error h s => ⟨[], some h, s⟩

def Script.play (device : Device) (look : σ → β) : Script → σ → Course σ β
  | .done, s => ⟨[], none, s⟩
  | .step op rest, s =>
    (playStep look (op.procedure device).run s).andThen (rest.play device look)
  | .guarded body rest, s =>
    let opening := playStep look (do (Procedure.unlock .main).run; return .opened) s
    match opening.halt with
    | some _ => opening
    | none =>
      (closeGuard look (opening.andThen (body.play device look))).andThen (rest.play device look)

end
end FlashController
