import FlashController.Proofs.Geometry
import FlashController.Reply
import FlashController.Signature

/-! Layout of the flash memory. The number of an address's sector is computed from its offset, the
range of a sector from its number; both describe one layout, in which the sectors follow each other
without gaps up to the end of the largest device. -/
namespace FlashController

/-- A sum in the 64 bits of an address. -/
def sum64 (m n : Nat) : Except Halt Nat :=
  if m + n < UInt64.size then .ok (m + n) else .error .additionOverflow

theorem sum64_eq {m n : Nat} (fits : m + n < UInt64.size) : sum64 m n = .ok (m + n) := if_pos fits

namespace Sector

/-- The number of the sector that covers an offset, in 64 bits. -/
def index64 (offset : Nat) : Except Halt Nat :=
  if offset < 4 * smallSize then .ok (offset / smallSize)
  else if offset < 4 * smallSize + mediumSize then .ok 4
  else sum64 (offset / largeSize) 4

/-- The sector of an address in 64 bits, its number in eight. -/
def ofAddress64 (a : Address) : Except Halt (Option Sector) :=
  match a.offsetFrom? flashStart with
  | none => .ok none
  | some offset => do
    let index ← index64 offset
    return if index ≤ maxSector then ofIndex? (UInt8.ofNat index).toNat else none

theorem index64_eq {offset : Nat} (fits : offset < UInt64.size) :
    index64 offset = .ok (indexOfOffset offset) := by
  unfold index64 indexOfOffset
  split
  · rfl
  · split
    · rfl
    · apply sum64_eq
      unfold UInt64.size at fits ⊢
      unfold largeSize
      omega

theorem ofIndex?_eq_none {n : Nat} (large : maxSector < n) : ofIndex? n = none :=
  dif_neg (Nat.not_lt.mpr large)

/-- No step of the computation leaves its machine word. -/
theorem ofAddress64_eq (a : Address) : ofAddress64 a = .ok (ofAddress? a) := by
  unfold ofAddress64 ofAddress?
  cases found : a.offsetFrom? flashStart with
  | none => rfl
  | some offset =>
    have fits : offset < UInt64.size := by
      unfold Address.offsetFrom? at found
      split at found
      · obtain rfl := Option.some.inj found
        exact Nat.lt_of_le_of_lt (Nat.sub_le _ _) a.isLt
      · contradiction
    simp only [index64_eq fits]
    show Except.ok (if indexOfOffset offset ≤ maxSector then _ else none) =
      .ok (ofIndex? (indexOfOffset offset))
    by_cases small : indexOfOffset offset ≤ maxSector
    · have byte : (UInt8.ofNat (indexOfOffset offset)).toNat = indexOfOffset offset := by
        unfold maxSector at small
        rw [UInt8.toNat_ofNat']
        omega
      rw [if_pos small, byte]
    · rw [if_neg small, ofIndex?_eq_none (Nat.lt_of_not_le small)]

theorem indexOfOffset_le_iff {offset : Nat} :
    indexOfOffset offset ≤ maxSector ↔ offset < 0x200000 := by
  unfold indexOfOffset maxSector
  split
  · simp only [smallSize] at *
    omega
  · split <;> simp only [smallSize, mediumSize, largeSize] at * <;> omega

theorem indexOfOffset_mono {offset other : Nat} (le : offset ≤ other) :
    indexOfOffset offset ≤ indexOfOffset other := by
  unfold indexOfOffset
  split <;> split <;> (try split) <;> (try split) <;>
    simp only [smallSize, mediumSize, largeSize] at * <;> omega

theorem ofAddress?_eq_none_iff {a : Address} :
    ofAddress? a = none ↔ ¬ (0x08000000 ≤ a.toNat ∧ a.toNat < 0x08200000) := by
  unfold ofAddress? Address.offsetFrom? flashStart
  by_cases inside : 0x08000000 ≤ a.toNat
  · have small : indexOfOffset (a.toNat - 0x08000000) ≤ maxSector ↔ _ := indexOfOffset_le_iff
    simp only [if_pos inside, bind, Option.bind, ofIndex?, dite_eq_right_iff, reduceCtorEq,
      imp_false]
    omega
  · simp only [if_neg inside, bind, Option.bind, true_iff]
    omega

theorem index_of_contains {a : Address} {s : Sector} (h : s.Contains a) :
    s.index.val = indexOfOffset (a.toNat - flashStart) := by
  have low : flashStart + s.offset ≤ a.toNat := h.1
  have high : a.toNat < flashStart + s.offset + s.size := h.2
  refine (indexOfOffset_eq_iff.mpr ⟨?_, ?_⟩).symm
  · exact Nat.le_sub_of_add_le' low
  · omega

theorem eq_of_contains {a : Address} {s t : Sector} (h : s.Contains a) (h' : t.Contains a) :
    s = t :=
  Option.some.inj ((ofAddress?_eq_some_iff.mpr h).symm.trans (ofAddress?_eq_some_iff.mpr h'))

/-- Sectors are in the order of their addresses. -/
theorem le_of_contains {a b : Address} {s t : Sector} (le : a.toNat ≤ b.toNat) (h : s.Contains a)
    (h' : t.Contains b) : s ≤ t := by
  show s.index.val ≤ t.index.val
  rw [index_of_contains h, index_of_contains h']
  exact indexOfOffset_mono (Nat.sub_le_sub_right le _)

theorem isLE_compare_iff {s t : Sector} : (compare s t).isLE = true ↔ s ≤ t := by
  obtain ⟨i⟩ := s
  obtain ⟨j⟩ := t
  have derived : compare (Sector.mk i) (Sector.mk j) = (compare i.val j.val).then .eq := rfl
  rw [derived, Ordering.then_eq]
  exact Nat.isLE_compare

end Sector

/-- The end of the memory that a signature states is at most that of the largest device. -/
theorem flashEnd_le {kibibytes : UInt16} (small : kibibytes.toNat ≤ 2048) :
    (flashEnd kibibytes).toNat < 0x08200000 := by
  show flashStart - 1 + flashSize kibibytes < 0x08200000
  unfold flashStart flashSize
  omega

/-- One layout. The computed sector of an address is the one whose range has the address, and there
is one for every address below the end of the largest device; no step of the computation overflows.
Sectors are in the order of their addresses, and every address up to the end that a signature states
is in exactly one of them. -/
theorem layout_consistent :
    (∀ a s, Sector.ofAddress? a = some s ↔ s.Contains a) ∧
    (∀ a, Sector.ofAddress? a = none ↔ ¬ (0x08000000 ≤ a.toNat ∧ a.toNat < 0x08200000)) ∧
    (∀ a, Sector.ofAddress64 a = .ok (Sector.ofAddress? a)) ∧
    (∀ a b s t, a.toNat ≤ b.toNat → Sector.ofAddress? a = some s → Sector.ofAddress? b = some t →
      (compare s t).isLE = true) ∧
    ∀ kibibytes : UInt16, kibibytes.toNat ≤ 2048 → ∀ a : Address, flashStart ≤ a.toNat →
      a.toNat ≤ (flashEnd kibibytes).toNat →
        ∃ s : Sector, s.Contains a ∧ ∀ t : Sector, t.Contains a → t = s := by
  refine ⟨fun _ _ => Sector.ofAddress?_eq_some_iff, fun _ => Sector.ofAddress?_eq_none_iff,
    Sector.ofAddress64_eq, fun a b s t le here there => ?_, fun kibibytes small a low high => ?_⟩
  · have here := Sector.ofAddress?_eq_some_iff.mp here
    have there := Sector.ofAddress?_eq_some_iff.mp there
    exact Sector.isLE_compare_iff.mpr (Sector.le_of_contains le here there)
  · have inside : ¬ Sector.ofAddress? a = none := by
      rw [Sector.ofAddress?_eq_none_iff]
      have := flashEnd_le small
      unfold flashStart at low
      omega
    obtain ⟨s, found⟩ := Option.ne_none_iff_exists'.mp inside
    have here := Sector.ofAddress?_eq_some_iff.mp found
    exact ⟨s, here, fun t there => Sector.eq_of_contains there here⟩

/-- The last byte of the medium sector, and that of the largest device. -/
theorem layout_consistent_at_ends :
    let medium : Address := ⟨0x0803FFFF, by decide⟩
    let last : Address := ⟨0x081FFFFF, by decide⟩
    (Sector.ofAddress? medium = some ⟨4⟩ ∧ Sector.ofAddress? last = some ⟨11⟩ ∧
      (flashEnd 2048).toNat = last.toNat) ∧
      Sector.Contains ⟨4⟩ medium ∧ (compare (Sector.mk 4) ⟨11⟩).isLE = true ∧
      ∃ s : Sector, s.Contains last ∧ ∀ t : Sector, t.Contains last → t = s := by
  intro medium last
  have first : Sector.ofAddress? medium = some ⟨4⟩ := by decide
  have second : Sector.ofAddress? last = some ⟨11⟩ := by decide
  have top : (flashEnd 2048).toNat = last.toNat := by decide
  obtain ⟨covers, _, _, ordered, filled⟩ := layout_consistent
  have le : medium.toNat ≤ last.toNat := by decide
  refine ⟨⟨first, second, top⟩, (covers _ _).mp first, ordered _ _ _ _ le first second, ?_⟩
  exact filled 2048 (by decide) last (by decide) (Nat.le_of_eq top.symm)

end FlashController
