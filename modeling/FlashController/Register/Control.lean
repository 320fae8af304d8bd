import FlashController.Register
import FlashController.Signature
import FlashController.Width

/-! Control register: the operation that is set up, its width and its sector. -/
namespace FlashController

namespace Field

/-- Sector number of a sector erase. -/
def snb (device : Device) : Field .cr where
  offset := 3
  width := device.sectorBits
  fits := by have := device.sectorBits_le; omega

/-- Program width. -/
def psize : Field .cr := ⟨8, 2, by decide⟩

end Field

namespace Contents

def sector (device : Device) (v : Contents .cr) : Nat := v.field (Field.snb device)

def setSector (device : Device) (v : Contents .cr) (n : Nat) : Contents .cr :=
  v.setField (Field.snb device) n

def programWidth (v : Contents .cr) : Width := Width.ofCode (v.field Field.psize)

def setProgramWidth (v : Contents .cr) (w : Width) : Contents .cr := v.setField Field.psize w.code

/-- An operation is enabled. -/
def anyOperation (v : Contents .cr) : Bool := v.raw &&& maskOf [.pg, .ser, .mer] != 0

theorem programWidth_setProgramWidth (v : Contents .cr) (w : Width) :
    (v.setProgramWidth w).programWidth = w := by
  rw [programWidth, setProgramWidth, field_setField]
  cases w <;> rfl

end Contents

/-- All that describes an operation, and so must not change while one is in progress. -/
def operationMask (device : Device) : BitVec 32 :=
  maskOf [.pg, .ser, .mer, .strt] ||| (Field.snb device).mask ||| Field.psize.mask

end FlashController
