import FlashController.Address

/-! Sector geometry: four small sectors, a medium one, then large ones, without gaps from the
start of the flash memory. -/
namespace FlashController

/-- Highest sector number of the largest device. -/
def maxSector : Nat := 11

structure Sector where
  index : Fin (maxSector + 1)
  deriving DecidableEq, Ord

namespace Sector

instance : LE Sector where
  le s t := s.index ≤ t.index

def ofIndex? (n : Nat) : Option Sector :=
  if h : n < maxSector + 1 then some ⟨⟨n, h⟩⟩ else none

def smallSize : Nat := 32 * 1024
def mediumSize : Nat := 128 * 1024
def largeSize : Nat := 256 * 1024

def size (s : Sector) : Nat :=
  if s.index.val < 4 then smallSize
  else if s.index.val = 4 then mediumSize
  else largeSize

/-- Distance of the sector from the start of the flash memory. The small sectors and the medium
one together are as long as one large sector. -/
def offset (s : Sector) : Nat :=
  if s.index.val ≤ 4 then s.index.val * smallSize else (s.index.val - 4) * largeSize

theorem offset_lt (s : Sector) : flashStart + s.offset < UInt64.size := by
  have := s.index.isLt
  unfold offset flashStart smallSize largeSize UInt64.size
  unfold maxSector at this
  split <;> omega

def base (s : Sector) : Address := ⟨flashStart + s.offset, s.offset_lt⟩

/-- First address after the sector. -/
def limit (s : Sector) : Nat := s.base.toNat + s.size

def Contains (s : Sector) (a : Address) : Prop :=
  s.base.toNat ≤ a.toNat ∧ a.toNat < s.limit

/-- Number of the sector that covers an offset, were there sectors without end. -/
def indexOfOffset (offset : Nat) : Nat :=
  if offset < 4 * smallSize then offset / smallSize
  else if offset < 4 * smallSize + mediumSize then 4
  else offset / largeSize + 4

def ofAddress? (a : Address) : Option Sector := do
  let offset ← a.offsetFrom? flashStart
  ofIndex? (indexOfOffset offset)

def describe (s : Sector) : String :=
  "Sector(" ++ toString s.index.val ++ ")"

end Sector

end FlashController
