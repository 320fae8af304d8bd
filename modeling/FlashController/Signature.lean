import FlashController.Address

/-! What tells devices apart: their variant, which decides the width of the sector number field of
the control register, and the size of the flash memory, which is read from the electronic signature
of the device. -/
namespace FlashController

inductive Device
  | generic | stm32f745 | stm32f767
  deriving DecidableEq, Repr

/-- Bits of the `SNB` field. The bit above the narrow field is reserved. -/
def Device.sectorBits : Device → Nat
  | .generic | .stm32f767 => 5
  | .stm32f745 => 4

theorem Device.sectorBits_le (device : Device) : device.sectorBits ≤ 5 := by
  cases device <;> decide

/-- The signature states the size in kibibytes. -/
def flashSize (kibibytes : UInt16) : Nat := kibibytes.toNat * 1024

theorem flashEnd_lt (kibibytes : UInt16) : flashStart - 1 + flashSize kibibytes < UInt64.size := by
  have := kibibytes.toNat_lt
  unfold flashStart flashSize UInt64.size
  omega

/-- Last address of the flash memory. An empty memory ends below its start. -/
def flashEnd (kibibytes : UInt16) : Address :=
  ⟨flashStart - 1 + flashSize kibibytes, flashEnd_lt kibibytes⟩

end FlashController
