import FlashController.Machine
import FlashController.Machine.Simulator.Effect

/-! The simulated controller as a machine. An operation stays in progress for a number of status
reads, a locked domain takes no write, and what a well-behaved driver would not do is counted. -/
namespace FlashController.Simulator

variable {device : Device}

def countViolation : MachineM (Simulator device) Unit := do
  unless (← get).violations + 1 < UInt32.size do throw .additionOverflow
  modify fun s => { s with violations := s.violations + 1 }

/-- Offset in the memory of a range that lies wholly inside. -/
def locate (a : Address) (length : Nat) : MachineM (Simulator device) Nat := do
  let some offset := a.offsetFrom? flashStart | throw .subtractionOverflow
  unless offset + length < UInt64.size do throw .additionOverflow
  unless offset + length ≤ (← get).memory.size do throw .outsideMemory
  return offset

def readRegister : (r : Register) → MachineM (Simulator device) (Contents r)
  | .cr => return (← get).cr
  | .sr => modifyGet pollStatus
  | .acr => return (← get).acr
  | .optcr => return (← get).optcr

/-- A locked domain takes no write. One that sets the lock bit still discards a key sequence. -/
def writeRegister : (r : Register) → Contents r → MachineM (Simulator device) Unit
  | .cr, v => do
    modify (note (.write .cr v))
    let s ← get
    if s.isLocked .main then
      if v.has .lock then modify fun s => { s with mainStage := .idle }
    else
      if s.busy ≠ 0 ∧ (s.cr.raw ^^^ v.raw) &&& operationMask device ≠ 0 then countViolation
      modify (acceptControl v)
  | .sr, v => modify fun s => note (.write .sr v)
      { s with flags := ⟨s.flags.raw &&& ~~~(v.raw &&& stickyMask)⟩ }
  | .acr, v => modify fun s => { s with acr := v.set .artrst false }
  | .optcr, v => do
    modify (note (.write .optcr v))
    let s ← get
    if s.isLocked .optionBytes then
      if v.has .optlock then modify fun s => { s with optionStage := .idle }
    else
      if s.busy ≠ 0 then countViolation
      modify (acceptOptions v)

def InWindow (a : Address) : Prop :=
  flashStart ≤ a.toNat ∧ a.toNat < flashStart + memorySize

instance (a : Address) : Decidable (InWindow a) :=
  inferInstanceAs (Decidable (_ ∧ _))

def storeWord (a : Address) (w : Word) : MachineM (Simulator device) Unit := do
  modify (note (.store a w.width))
  if (← get).busy ≠ 0 then countViolation
  unless InWindow a do throw (.outsideWindow a)
  let s ← get
  unless s.isLocked .main do
    match storeError? a w s with
    | some f => modify (raise f)
    | none =>
      let offset ← locate a w.width.bytes
      modify (burn offset w)

def perform : (a : Access) → MachineM (Simulator device) a.Answer
  | .read r => readRegister r
  | .write r v => writeRegister r v
  | .key d k => modify fun s => note (.key d k) (acceptKey d k s)
  | .barrier => modify (note .barrier)
  | .store a w => storeWord a w

inductive Control
  | reset
  /-- Starts an operation of someone else. -/
  | setBusy (reads : Nat)
  | setLatency (reads : Nat)
  /-- Raises sticky flags. -/
  | setFlags (v : Contents .sr)
  | fill (a : Address) (length : Nat) (b : UInt8)
  | read (a : Address) (length : Nat)
  | readWord (a : Address) (w : Width)

def control : Control → MachineM (Simulator device) Reply
  | .reset => do
    modify reset
    return .done
  | .setBusy reads => do
    modify fun s => { s with busy := reads }
    return .done
  | .setLatency reads => do
    modify fun s => { s with latency := reads }
    return .done
  | .setFlags v => do
    modify fun s => { s with flags := ⟨s.flags.raw ||| v.raw &&& stickyMask⟩ }
    return .done
  | .fill a length b => do
    let offset ← locate a length
    modify fun s => { s with memory := s.memory.fill offset length b }
    return .done
  | .read a length => do
    let offset ← locate a length
    return .bytes ((← get).memory.read offset length)
  | .readWord a w => do
    let offset ← locate a w.bytes
    return .word (.ofBytes w ((← get).memory.read offset w.bytes))

/-- Every status read of a busy controller brings it closer to idle, so waiting is never in vain. -/
instance : Machine (Simulator device) where
  perform := perform
  patience s := s.busy + 1
  settle s := { s with events := [] }
  Control := Control
  control := control

end FlashController.Simulator
