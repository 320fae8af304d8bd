import FlashController.Access
import FlashController.Memory
import FlashController.Register.OptionControl
import FlashController.Sector
import FlashController.Signature
import FlashController.Word

/-! State of a simulated controller in front of a memory of eight sectors. -/
namespace FlashController

/-- How far the key sequence of a domain has come. -/
inductive KeyStage
  | idle | first
  deriving DecidableEq, Repr

/-- What the simulated controller notes. It leaves out writes to the access control register, and
reads of any register but the status register. -/
inductive Simulator.Event
  | barrier
  | statusRead (busy : Bool)
  | write (r : Register) (v : Contents r)
  | key (d : Domain) (k : BitVec 32)
  | store (a : Address) (w : Width)

/-- The device decides how wide the sector field is. -/
structure Simulator (device : Device) where
  memory : Memory
  cr : Contents .cr
  /-- The sticky flags. The busy flag follows from `busy`. -/
  flags : Contents .sr
  acr : Contents .acr
  optcr : Contents .optcr
  /-- Option bytes that the next reset loads. -/
  committed : Contents .optcr
  /-- Option bytes that the last reset loaded. -/
  active : Contents .optcr
  mainStage : KeyStage
  optionStage : KeyStage
  /-- Status reads until the operation in progress is over. -/
  busy : Nat
  /-- Status reads that an operation takes. -/
  latency : Nat
  /-- Accesses made while an operation was in progress that should not have been. -/
  violations : Nat
  /-- Newest first. -/
  events : List Simulator.Event

namespace Simulator

def memorySize : Nat := 1024 * 1024

/-- Sectors that the simulated memory has. -/
def sectors : List Sector := (List.range 8).filterMap Sector.ofIndex?

/-- A device that was reset with some option bytes. -/
def withOptionBytes (device : Device) (v : Contents .optcr) : Simulator device where
  memory := .filled memorySize 0xA5
  cr := Register.atReset .cr
  flags := Register.atReset .sr
  acr := Register.atReset .acr
  optcr := v.optionBytes.set .optlock true
  committed := v.optionBytes
  active := v.optionBytes
  mainStage := .idle
  optionStage := .idle
  busy := 0
  latency := 3
  violations := 0
  events := []

def new (device : Device) : Simulator device :=
  withOptionBytes device (Register.atReset .optcr)

variable {device : Device}

def note (e : Event) (s : Simulator device) : Simulator device :=
  { s with events := e :: s.events }

def raise (f : Flag .sr) (s : Simulator device) : Simulator device :=
  { s with flags := s.flags.set f true }

def startOperation (s : Simulator device) : Simulator device :=
  { s with busy := s.latency }

/-- The register that a domain guards. -/
def guarded (s : Simulator device) : (d : Domain) → Contents d.register
  | .main => s.cr
  | .optionBytes => s.optcr

def keyStage (s : Simulator device) : Domain → KeyStage
  | .main => s.mainStage
  | .optionBytes => s.optionStage

def isLocked (s : Simulator device) (d : Domain) : Bool := (s.guarded d).has d.lockFlag

def isProtected (s : Simulator device) (sector : Sector) : Bool :=
  s.active.writeProtected sector.index

/-- The memory, the committed option bytes and the counters outlive a reset. -/
def reset (s : Simulator device) : Simulator device :=
  { s with
    cr := Register.atReset .cr
    flags := Register.atReset .sr
    acr := Register.atReset .acr
    optcr := s.committed.set .optlock true
    active := s.committed
    mainStage := .idle
    optionStage := .idle
    busy := 0 }

end Simulator
end FlashController
