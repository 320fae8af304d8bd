import FlashController.Machine.Simulator.State
import FlashController.Register.Control
import FlashController.Register.Status

/-! What the simulated controller does when it is accessed. Programming can only clear bits, a
protected sector keeps its bytes, and a key sequence has to be written without a break. -/
namespace FlashController.Simulator

variable {device : Device}

def eraseMemory (sector : Sector) (s : Simulator device) : Simulator device :=
  { s with memory := s.memory.fill sector.offset sector.size 0xFF }

def eraseEverything (s : Simulator device) : Simulator device :=
  if sectors.any s.isProtected then raise .wrperr s
  else raise .eop (sectors.foldl (fun s sector => eraseMemory sector s) s)

def eraseOne (sector : Sector) (s : Simulator device) : Simulator device :=
  if s.isProtected sector then raise .wrperr s else raise .eop (eraseMemory sector s)

/-- An erase takes its time also if it was refused or had no sector to erase. -/
def triggerErase (v : Contents .cr) (s : Simulator device) : Simulator device :=
  startOperation <|
    match v.has .mer, v.has .ser with
    | true, false => eraseEverything s
    | false, true =>
      match sectors[v.sector device]? with
      | some sector => eraseOne sector s
      | none => s
    | _, _ => raise .erserr s

/-- The start bit acts when it rises, and is cleared again by the end of the erase. -/
def acceptControl (v : Contents .cr) (s : Simulator device) : Simulator device :=
  let rises := v.has .strt && !s.cr.has .strt
  let s := { s with
    mainStage := if v.has .lock then .idle else s.mainStage
    cr := v.set .strt false }
  if rises then triggerErase v s else s

def acceptOptions (v : Contents .optcr) (s : Simulator device) : Simulator device :=
  let s := { s with
    optionStage := if v.has .optlock then .idle else s.optionStage
    optcr := v.set .optstrt false }
  if v.has .optstrt then startOperation { s with committed := v.optionBytes } else s

/-- What a key does to the register and the key stage of its domain. The second key unlocks only
directly after the first; a key written while the domain is unlocked locks it. -/
def turnKey (d : Domain) (k : BitVec 32) (v : Contents d.register) (stage : KeyStage) :
    Contents d.register × KeyStage :=
  if v.has d.lockFlag then
    match stage with
    | .idle => (v, if k = d.firstKey then .first else .idle)
    | .first => (if k = d.secondKey then v.set d.lockFlag false else v, .idle)
  else (v.set d.lockFlag true, .idle)

def acceptKey (d : Domain) (k : BitVec 32) (s : Simulator device) : Simulator device :=
  match d with
  | .main =>
    let (v, stage) := turnKey .main k s.cr s.mainStage
    { s with cr := v, mainStage := stage }
  | .optionBytes =>
    let (v, stage) := turnKey .optionBytes k s.optcr s.optionStage
    { s with optcr := v, optionStage := stage }

/-- Some byte of the data has a bit that is zero in the memory, where programming cannot set it. -/
def obstructed (m : Memory) (offset : Nat) (data : List UInt8) : Bool :=
  (data.zipIdx offset).any fun (b, i) => (m.get? i).any fun old => old &&& b != b

/-- The first obstacle to a store, as the flag that reports it. -/
def storeError? (a : Address) (w : Word) (s : Simulator device) : Option (Flag .sr) :=
  if !s.cr.has .pg then some .erserr
  else if s.cr.programWidth ≠ w.width then some .pgperr
  else if a.toNat % w.width.bytes ≠ 0 then some .pgaerr
  else if (Sector.ofAddress? a).any s.isProtected then some .wrperr
  else none

/-- Programs a word. Bits that cannot be set are reported, and the others are programmed all the
same. -/
def burn (offset : Nat) (w : Word) (s : Simulator device) : Simulator device :=
  let reported := if obstructed s.memory offset w.bytes then raise .pgperr s else s
  startOperation <| raise .eop
    { reported with memory := reported.memory.merge (· &&& ·) offset w.bytes }

def pollStatus (s : Simulator device) : Contents .sr × Simulator device :=
  if s.busy = 0 then (s.flags, note (.statusRead false) s)
  else (s.flags.set .bsy true, note (.statusRead true) { s with busy := s.busy - 1 })

end FlashController.Simulator
