import FlashController.Register.Control
import FlashController.Register.OptionControl
import FlashController.WaitStates

/-! Updates of single parts of a register, as data, so that chains of them can be run and
compared. -/
namespace FlashController

inductive Setter : Register → Type
  | flag (f : Flag r) (on : Bool) : Setter r
  | sector (n : UInt8) : Setter .cr
  | programWidth (w : Width) : Setter .cr
  | latency (n : UInt8) : Setter .acr
  | brownout (level : BrownoutLevel) : Setter .optcr
  | readProtection (level : ReadProtection) : Setter .optcr
  | writeProtected (n : UInt8) (on : Bool) : Setter .optcr

namespace Setter

def apply (device : Device) (v : Contents r) : Setter r → Contents r
  | .flag f on => v.set f on
  | .sector n => v.setSector device n.toNat
  | .programWidth w => v.setProgramWidth w
  | .latency n => v.setLatency n.toNat
  | .brownout level => v.setBrownout level
  | .readProtection level => v.setReadProtection level
  | .writeProtected n on => v.setWriteProtected n.toNat on

/-- The contents before the first setter and after each. -/
def history (device : Device) (v : Contents r) : List (Setter r) → List (Contents r)
  | [] => [v]
  | s :: rest => v :: history device (s.apply device v) rest

end Setter
end FlashController
