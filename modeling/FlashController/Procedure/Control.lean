import FlashController.Procedure
import FlashController.Register.Status
import FlashController.WaitStates

/-! Procedures around erasing and programming: waiting for an operation in progress, locking, the
status flags, and how the flash memory is read. -/
namespace FlashController.Procedure

/-- A barrier goes first, so that a write still on its way cannot be missed. -/
def waitUntilIdle : Procedure Unit := do
  barrier
  let _ ← readUntil .sr fun v => !v.has .bsy

/-- Looks once, and says whether the controller is idle. -/
def pollIdle : Procedure Bool := do
  barrier
  return !(← read .sr).has .bsy

def lock (d : Domain) : Procedure Unit :=
  update d.register (·.set d.lockFlag true)

/-- Locks first, which discards a key sequence that was begun. -/
def unlock (d : Domain) : Procedure Unit := do
  lock d
  key d d.firstKey
  key d d.secondKey

def isLocked (d : Domain) : Procedure Bool := do
  return (← read d.register).has d.lockFlag

def ensureUnlocked (d : Domain) : Procedure (Except FlashError Unit) := do
  return if ← isLocked d then .error .locked else .ok ()

def status : Procedure (Contents .sr) := read .sr

/-- A one in the written value clears its flag. -/
def clear (c : Clearable) : Procedure Unit :=
  write ((Contents.mk 0 : Contents .sr).set c.flag true)

def clearStatus : Procedure Unit := do
  clear .erserr
  clear .pgaerr
  clear .wrperr
  clear .pgperr
  clear .eop

/-- Returns once the new number is read back. -/
def setWaitStates (n : UInt8) : Procedure Unit := do
  let v := (← read .acr).setLatency n.toNat
  write v
  let _ ← readUntil .acr fun u => u.latency == v.latency

def setPrefetch (on : Bool) : Procedure Unit :=
  update .acr (·.set .prften on)

def setAccelerator (on : Bool) : Procedure Unit :=
  update .acr (·.set .arten on)

/-- Raises the reset line and lowers it again. -/
def resetAccelerator : Procedure Unit := do
  let v := (← read .acr).set .artrst true
  write v
  write (v.set .artrst false)

end FlashController.Procedure
