/-! Addresses of a 64-bit address space. Moving an address is checked: past the top there is no
address, and an address below a base has no offset from it. -/
namespace FlashController

/-- First address of the flash memory. -/
def flashStart : Nat := 0x08000000

structure Address where
  toNat : Nat
  isLt : toNat < UInt64.size
  deriving DecidableEq

namespace Address

def ofNat? (n : Nat) : Option Address :=
  if h : n < UInt64.size then some ⟨n, h⟩ else none

def advance? (a : Address) (n : Nat) : Option Address :=
  ofNat? (a.toNat + n)

def offsetFrom? (a : Address) (base : Nat) : Option Nat :=
  if base ≤ a.toNat then some (a.toNat - base) else none

theorem ofNat?_eq_some_iff {n : Nat} {a : Address} : ofNat? n = some a ↔ a.toNat = n := by
  unfold ofNat?
  split
  · rw [Option.some.injEq]
    exact ⟨fun h => by rw [← h], fun h => by cases a; simp_all⟩
  · rename_i h
    simp only [reduceCtorEq, false_iff]
    rintro rfl
    exact h a.isLt

theorem advance?_eq_none_iff {a : Address} {n : Nat} :
    a.advance? n = none ↔ UInt64.size ≤ a.toNat + n := by
  simp [advance?, ofNat?]

end Address
end FlashController
