import FlashController.Script

/-! Sessions: commands given to one machine in order. The first halt ends a session. -/
namespace FlashController

inductive Command (κ : Type)
  | drive (script : Script)
  | access (a : Access)
  | control (c : κ)

variable {σ β : Type} [Machine σ]

def Command.play (device : Device) (look : σ → β) :
    Command (Machine.Control σ) → σ → Course σ β
  | .drive script => script.play device look
  | .access a => playStep look a.run
  | .control c => playStep look (Machine.control c)

def playAll (device : Device) (look : σ → β) :
    List (Command (Machine.Control σ)) → σ → Course σ β
  | [], s => ⟨[], none, s⟩
  | c :: rest, s => (c.play device look s).andThen (playAll device look rest)

/-- The entries of a course. A halt is the last of them, seen after every guard was closed. -/
def Course.report (look : σ → β) (course : Course σ β) : List (Entry β) :=
  match course.halt with
  | none => course.entries
  | some h => course.entries ++ [⟨.halted h, look course.final⟩]

end FlashController
