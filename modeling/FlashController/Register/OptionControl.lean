import FlashController.Register

/-! Option control register: the user option bytes and the lock of their domain. -/
namespace FlashController

/-- Supply voltage below which the device is held in reset, level 3 the highest. -/
inductive BrownoutLevel
  | level3 | level2 | level1 | off
  deriving DecidableEq, Repr

def BrownoutLevel.code : BrownoutLevel → Nat
  | .level3 => 0
  | .level2 => 1
  | .level1 => 2
  | .off => 3

def BrownoutLevel.ofCode (n : Nat) : BrownoutLevel :=
  match n % 4 with
  | 0 => .level3
  | 1 => .level2
  | 2 => .level1
  | _ => .off

theorem BrownoutLevel.ofCode_code (level : BrownoutLevel) : ofCode level.code = level := by
  cases level <;> rfl

inductive ReadProtection
  | level0 | level1 | level2
  deriving DecidableEq, Repr

def ReadProtection.code : ReadProtection → Nat
  | .level0 => 0xAA
  | .level1 => 0x55
  | .level2 => 0xCC

/-- Any number but the other two levels' protects at level 1. -/
def ReadProtection.ofCode (n : Nat) : ReadProtection :=
  if n = 0xAA then .level0 else if n = 0xCC then .level2 else .level1

theorem ReadProtection.ofCode_code (level : ReadProtection) : ofCode level.code = level := by
  cases level <;> rfl

/-- Sectors that have a write protection bit. -/
def protectableSectors : Nat := 12

namespace Field

def brownout : Field .optcr := ⟨2, 2, by decide⟩

def readProtection : Field .optcr := ⟨8, 8, by decide⟩

end Field

/-- Lock and start, which are no option bytes. -/
def optionReserved : BitVec 32 := maskOf [Flag.optlock, .optstrt]

namespace Contents

def brownout (v : Contents .optcr) : BrownoutLevel := .ofCode (v.field Field.brownout)

def setBrownout (v : Contents .optcr) (level : BrownoutLevel) : Contents .optcr :=
  v.setField Field.brownout level.code

def readProtection (v : Contents .optcr) : ReadProtection :=
  .ofCode (v.field Field.readProtection)

def setReadProtection (v : Contents .optcr) (level : ReadProtection) : Contents .optcr :=
  v.setField Field.readProtection level.code

/-- Protection is active low: a cleared bit protects its sector. -/
def writeProtected (v : Contents .optcr) (sector : Nat) : Bool :=
  decide (sector < protectableSectors) && !v.raw.getLsbD (16 + sector)

def setWriteProtected (v : Contents .optcr) (sector : Nat) (on : Bool) : Contents .optcr :=
  if sector < protectableSectors then
    v.put (BitVec.twoPow 32 (16 + sector)) (if on then 0#32 else BitVec.allOnes 32)
  else v

/-- The option bytes alone, unlocked and not starting. -/
def optionBytes (v : Contents .optcr) : Contents .optcr := ⟨v.raw &&& ~~~optionReserved⟩

end Contents
end FlashController
