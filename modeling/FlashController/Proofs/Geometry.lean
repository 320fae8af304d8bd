import FlashController.Sector
import FlashController.Width

/-! Geometry of the sectors. The sector of an address is the one that contains it, and an aligned
word lies in one sector. -/
namespace FlashController

theorem Address.ext {a b : Address} (h : a.toNat = b.toNat) : a = b := by
  obtain ⟨n, small⟩ := a
  obtain rfl : n = b.toNat := h
  rfl

namespace Sector

theorem ofIndex?_eq_some_iff {n : Nat} {s : Sector} : ofIndex? n = some s ↔ s.index.val = n := by
  unfold ofIndex?
  obtain ⟨i, small⟩ := s
  by_cases h : n < maxSector + 1
  · rw [dif_pos h]
    simp only [Option.some.injEq, Sector.mk.injEq, Fin.mk.injEq, eq_comm]
  · rw [dif_neg h]
    simp only [reduceCtorEq, false_iff]
    omega

/-- The sectors follow each other without gaps, each as long as it is. -/
theorem indexOfOffset_eq_iff {offset : Nat} {s : Sector} :
    indexOfOffset offset = s.index.val ↔ s.offset ≤ offset ∧ offset < s.offset + s.size := by
  have small := s.index.isLt
  unfold maxSector at small
  unfold indexOfOffset Sector.offset Sector.size
  split
  · split <;> split <;> (try split) <;> simp only [smallSize, mediumSize, largeSize] at * <;> omega
  · split <;> split <;> split <;> (try split) <;>
      simp only [smallSize, mediumSize, largeSize] at * <;> omega

theorem ofAddress?_eq_some_iff {a : Address} {s : Sector} :
    ofAddress? a = some s ↔ s.Contains a := by
  unfold ofAddress? Contains limit base Address.offsetFrom?
  by_cases inside : flashStart ≤ a.toNat
  · simp only [if_pos inside, bind, Option.bind, ofIndex?_eq_some_iff]
    rw [eq_comm, indexOfOffset_eq_iff]
    omega
  · simp only [if_neg inside, bind, Option.bind, reduceCtorEq, false_iff]
    omega

/-- Every boundary between sectors is a multiple of the widest word. -/
theorem indexOfOffset_congr {offset other : Nat} (same : other / 8 = offset / 8) :
    indexOfOffset other = indexOfOffset offset := by
  unfold indexOfOffset
  split <;> split <;> (try split) <;> (try split) <;>
    simp only [smallSize, mediumSize, largeSize] at * <;> omega

theorem indexOfOffset_aligned {offset i : Nat} (w : Width) (aligned : offset % w.bytes = 0)
    (h : i < w.bytes) : indexOfOffset (offset + i) = indexOfOffset offset := by
  apply indexOfOffset_congr
  cases w <;> simp only [Width.bytes] at aligned h <;> omega

end Sector
end FlashController
