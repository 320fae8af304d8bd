import FlashController.Machine
import FlashController.Memory
import FlashController.Register.Status

/-! Registers and flash memory mapped to plain words: reads give the last word written, stores of
any alignment write their bytes, and nothing ever happens on its own. -/
namespace FlashController

structure Mapped where
  acr : BitVec 32
  mainKey : BitVec 32
  optionKey : BitVec 32
  sr : BitVec 32
  cr : BitVec 32
  optcr : BitVec 32
  /-- Second option control register, which no access reaches. -/
  optcr1 : BitVec 32
  /-- The start of the flash memory. -/
  window : Memory
  barriers : Nat

namespace Mapped

def windowSize : Nat := 64 * 1024

/-- The register words in the order of their addresses. -/
def words (s : Mapped) : List (BitVec 32) :=
  [s.acr, s.mainKey, s.optionKey, s.sr, s.cr, s.optcr, s.optcr1]

def readRegister (s : Mapped) : (r : Register) → Contents r
  | .cr => ⟨s.cr⟩
  | .sr => ⟨s.sr⟩
  | .acr => ⟨s.acr⟩
  | .optcr => ⟨s.optcr⟩

/-- Only flags that a write can clear are written to the status register. -/
def writeRegister (s : Mapped) : (r : Register) → Contents r → Mapped
  | .cr, v => { s with cr := v.raw }
  | .sr, v => { s with sr := v.raw &&& stickyMask }
  | .acr, v => { s with acr := v.raw }
  | .optcr, v => { s with optcr := v.raw }

def writeKey (s : Mapped) : Domain → BitVec 32 → Mapped
  | .main, k => { s with mainKey := k }
  | .optionBytes, k => { s with optionKey := k }

def InWindow (a : Address) (w : Width) : Prop :=
  flashStart ≤ a.toNat ∧ a.toNat + w.bytes ≤ flashStart + windowSize

instance (a : Address) (w : Width) : Decidable (InWindow a w) :=
  inferInstanceAs (Decidable (_ ∧ _))

def storeBytes (a : Address) (w : Word) (s : Mapped) : Mapped :=
  { s with window := s.window.merge (fun _ b => b) (a.toNat - flashStart) w.bytes }

def perform : (a : Access) → MachineM Mapped a.Answer
  | .read r => return (← get).readRegister r
  | .write r v => modify (writeRegister · r v)
  | .key d k => modify (writeKey · d k)
  | .barrier => modify fun s => { s with barriers := s.barriers + 1 }
  | .store a w => do
    unless InWindow a w.width do throw (.outsideWindow a)
    modify (storeBytes a w)

/-- Contents that are not ready at once never will be. -/
instance : Machine Mapped where
  perform := perform
  patience _ := 1
  settle s := { s with barriers := 0 }
  Control := Empty
  control := nofun

end Mapped
end FlashController
