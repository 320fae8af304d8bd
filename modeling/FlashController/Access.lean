import FlashController.Address
import FlashController.Register
import FlashController.Word

/-! Single accesses to a flash controller. Everything that touches one is a sequence of these. -/
namespace FlashController

/-- Register domains that are locked on their own. Each has a lock bit, and a key register that
clears it when two keys are written in order. -/
inductive Domain
  /-- Guards erase and program operations. -/
  | main
  /-- Guards the option bytes. -/
  | optionBytes
  deriving DecidableEq, Repr

namespace Domain

/-- The register that the domain guards. -/
def register : Domain → Register
  | .main => .cr
  | .optionBytes => .optcr

def lockFlag : (d : Domain) → Flag d.register
  | .main => .lock
  | .optionBytes => .optlock

def firstKey : Domain → BitVec 32
  | .main => 0x45670123
  | .optionBytes => 0x08192A3B

def secondKey : Domain → BitVec 32
  | .main => 0xCDEF89AB
  | .optionBytes => 0x4C5D6E7F

end Domain

inductive Access
  | read (r : Register)
  | write (r : Register) (v : Contents r)
  | key (d : Domain) (k : BitVec 32)
  /-- Waits until earlier writes have reached the controller. -/
  | barrier
  | store (a : Address) (w : Word)

/-- What an access gives back: only a read gives anything. -/
abbrev Access.Answer : Access → Type
  | .read r => Contents r
  | _ => Unit

end FlashController
