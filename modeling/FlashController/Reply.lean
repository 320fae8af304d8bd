import FlashController.Address
import FlashController.Register.Status
import FlashController.Text.Hexadecimal
import FlashController.Word

/-! What a step of a session answers, and the causes that end a run before its last step. -/
namespace FlashController

/-- None of these causes is reported by the hardware. -/
inductive Halt
  /-- A sum left the range of its machine number. -/
  | additionOverflow
  /-- A difference would be negative. -/
  | subtractionOverflow
  /-- A store aimed outside the flash memory. -/
  | outsideWindow (a : Address)
  /-- A range does not lie inside the memory array. -/
  | outsideMemory
  /-- A wait would never end. -/
  | stuck
  deriving DecidableEq

/-- The last two causes have no text of their own. -/
def Halt.message? : Halt → Option String
  | .additionOverflow => some "attempt to add with overflow"
  | .subtractionOverflow => some "attempt to subtract with overflow"
  | .outsideWindow a =>
    some ("write outside of the flash memory: " ++ Hexadecimal.renderUpper a.toNat)
  | .outsideMemory | .stuck => none

inductive Reply
  | done
  | idle (now : Bool)
  | locked (now : Bool)
  | unlocked (outcome : Except FlashError Unit)
  /-- Contents of a register, to be shown part by part. -/
  | parts (r : Register) (v : Contents r)
  /-- Contents of a register, to be shown as a number. -/
  | number (v : BitVec 32)
  | bytes (data : List UInt8)
  | word (w : Word)
  /-- A guard was opened. -/
  | opened
  /-- A guard was closed. -/
  | closed
  | halted (h : Halt)

end FlashController
