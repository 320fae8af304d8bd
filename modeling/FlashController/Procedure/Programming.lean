import FlashController.Procedure.Control
import FlashController.Register.Control
import FlashController.Register.OptionControl
import FlashController.Tiling

/-! Erasing, programming words and blocks, and programming the option bytes. Each operation stands
between two waits. Nothing is returned: the status flags tell how the operation went. -/
namespace FlashController.Procedure

def setProgramWidth (w : Width) : Procedure Unit :=
  update .cr (·.setProgramWidth w)

/-- What is erased is selected before the start and deselected after the end. -/
def erase (w : Width) (select deselect : Contents .cr → Contents .cr) : Procedure Unit := do
  waitUntilIdle
  setProgramWidth w
  update .cr select
  update .cr (·.set .strt true)
  waitUntilIdle
  update .cr deselect

def eraseAll (w : Width) : Procedure Unit :=
  erase w (·.set .mer true) (·.set .mer false)

/-- The number is cut to the sector field and not compared with the size of the device. -/
def eraseSector (device : Device) (n : UInt8) (w : Width) : Procedure Unit :=
  erase w (fun v => (v.setSector device n.toNat).set .ser true)
    (fun v => (v.set .ser false).setSector device 0)

/-- The store into the flash memory starts the operation. -/
def program (a : Address) (w : Word) : Procedure Unit := do
  waitUntilIdle
  setProgramWidth w.width
  update .cr (·.set .pg true)
  store a w
  waitUntilIdle
  update .cr (·.set .pg false)

/-- Programs data byte by byte, the first byte `offset` above an address. -/
def programBytes (a : Address) (offset : Nat) : List UInt8 → Procedure Unit
  | [] => return
  | b :: rest => do
    let target ← advance a offset
    program target (.ofByte b)
    programBytes a (offset + 1) rest

def programBlock (a : Address) (data : List UInt8) : Procedure Unit :=
  programBytes a 0 data

/-- Programs words one after the other. The address moves on after every word, also after the
last. -/
def programWords (a : Address) : List Word → Procedure Unit
  | [] => return
  | w :: rest => do
    program a w
    let next ← advance a w.width.bytes
    programWords next rest

def programBlockWide (a : Address) (data : List UInt8) (limit : Width) : Procedure Unit :=
  programWords a (tile a.toNat data limit)

/-- The one operation that unlocks its domain on its own. New option bytes take effect at the next
reset. -/
def programOptionBytes (v : Contents .optcr) : Procedure Unit := do
  waitUntilIdle
  if ← isLocked .optionBytes then
    unlock .optionBytes
  write v.optionBytes
  update .optcr (·.set .optstrt true)
  waitUntilIdle

def optionBytes : Procedure (Contents .optcr) := read .optcr

end FlashController.Procedure
