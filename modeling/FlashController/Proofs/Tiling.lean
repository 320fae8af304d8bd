import FlashController.Procedure.Programming
import FlashController.Proofs.Run

/-! Tilings. The words that a range is cut into are aligned one after the other, and together are
the range; cut into the smallest words it is programmed byte by byte. -/
namespace FlashController

theorem Width.x8_le (w : Width) : Width.x8 ≤ w := Nat.zero_le w.code

/-- Either nothing wider than a byte will do, or the width was found to. -/
theorem widestAccess_cases (address length : Nat) (limit : Width) :
    widestAccess address length limit = .x8 ∨
      widestAccess address length limit ≤ limit ∧
        address % (widestAccess address length limit).bytes = 0 ∧
        (widestAccess address length limit).bytes ≤ length := by
  simp only [widestAccess]
  cases found : [Width.x64, .x32, .x16].find? fun w =>
      decide (w ≤ limit) && address % w.bytes == 0 && decide (w.bytes ≤ length) with
  | none => exact .inl rfl
  | some w =>
    have fits := List.find?_some found
    simp only [Bool.and_eq_true, decide_eq_true_eq, beq_iff_eq] at fits
    exact .inr ⟨fits.1.1, fits.1.2, fits.2⟩

theorem widestAccess_fits (address : Nat) {length : Nat} (limit : Width) (some : 0 < length) :
    address % (widestAccess address length limit).bytes = 0 ∧
      (widestAccess address length limit).bytes ≤ length := by
  rcases widestAccess_cases address length limit with byte | ⟨_, fits⟩
  · rw [byte]
    exact ⟨Nat.mod_one _, some⟩
  · exact fits

theorem widestAccess_le (address length : Nat) (limit : Width) :
    widestAccess address length limit ≤ limit := by
  rcases widestAccess_cases address length limit with byte | ⟨small, _⟩
  · rw [byte]
    exact limit.x8_le
  · exact small

/-- Words that lie one after the other from an address on, each aligned to its width. -/
def Aligned (address : Nat) : List Word → Prop
  | [] => True
  | w :: rest => address % w.width.bytes = 0 ∧ Aligned (address + w.width.bytes) rest

theorem aligned_tile (address : Nat) (data : List UInt8) (limit : Width) :
    Aligned address (tile address data limit) := by
  fun_induction tile address data limit with
  | case1 => trivial
  | case2 address b rest w ih =>
    exact ⟨(widestAccess_fits address limit (Nat.succ_pos rest.length)).1, ih⟩

theorem tile_eq_nil_iff {address : Nat} {data : List UInt8} {limit : Width} :
    tile address data limit = [] ↔ data = [] := by
  cases data <;> simp [tile]

theorem bytes_tile (address : Nat) (data : List UInt8) (limit : Width) :
    (tile address data limit).flatMap Word.bytes = data := by
  fun_induction tile address data limit with
  | case1 => rfl
  | case2 address b rest w ih =>
    have fits : w.bytes ≤ (b :: rest).length :=
      (widestAccess_fits address limit (Nat.succ_pos rest.length)).2
    have first := Word.bytes_ofBytes (List.length_take_of_le fits)
    rw [List.flatMap_cons, first, ih, List.take_append_drop]

theorem width_tile_le {address : Nat} {data : List UInt8} {limit : Width} {w : Word}
    (member : w ∈ tile address data limit) : w.width ≤ limit := by
  fun_induction tile address data limit with
  | case1 => exact absurd member List.not_mem_nil
  | case2 address b rest width ih =>
    rcases List.mem_cons.mp member with rfl | later
    · exact widestAccess_le address (rest.length + 1) limit
    · exact ih later

/-- Words of the smallest width are single bytes. -/
theorem tile_x8 (address : Nat) (data : List UInt8) :
    tile address data .x8 = data.map Word.ofByte := by
  induction data generalizing address with
  | nil => rw [tile, List.map_nil]
  | cons b rest ih =>
    have small : widestAccess address (rest.length + 1) .x8 = .x8 := rfl
    have byte : Word.ofBytes .x8 [b] = Word.ofByte b := by
      simp [Word.ofBytes, Word.ofByte, ofLittleEndian, Width.bytes]
    rw [tile, small]
    simp only [Width.bytes, List.take_succ_cons, List.take_zero, List.drop_succ_cons,
      List.drop_zero, byte, ih, List.map_cons]

theorem bytes_map_ofByte (data : List UInt8) :
    (data.map Word.ofByte).flatMap Word.bytes = data := by
  induction data with
  | nil => rfl
  | cons b rest ih => simp only [List.map_cons, List.flatMap_cons, Word.bytes_ofByte, ih,
      List.singleton_append]

/-- Single bytes are programmed as words of the smallest width. That the address moves on after the
last makes no difference as long as there is an address to move on to. -/
theorem Procedure.programBytes_eq {a target : Address} {offset : Nat} {data : List UInt8}
    (moved : a.advance? offset = some target)
    (fits : target.toNat + data.length < UInt64.size) :
    programBytes a offset data = programWords target (data.map Word.ofByte) := by
  induction data generalizing offset target with
  | nil => rfl
  | cons b rest ih =>
    rw [List.length_cons] at fits
    have start := Address.ofNat?_eq_some_iff.mp moved
    obtain ⟨next, further, stepped⟩ : ∃ next, target.advance? 1 = some next ∧
        next.toNat = target.toNat + 1 :=
      ⟨⟨target.toNat + 1, by omega⟩, dif_pos (by omega), rfl⟩
    have moved' : a.advance? (offset + 1) = some next :=
      Address.ofNat?_eq_some_iff.mpr (by omega)
    have step : advance target (Word.ofByte b).width.bytes = pure next := advance_eq further
    rw [programBytes, List.map_cons, programWords, advance_eq moved, pure_bind, step, pure_bind,
      ih moved' (by omega)]

end FlashController
