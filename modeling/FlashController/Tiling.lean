import FlashController.Word

/-! Cutting a byte range into naturally aligned words, each as wide as can be. -/
namespace FlashController

/-- Widest aligned access at an address that a length and a width limit allow. -/
def widestAccess (address length : Nat) (limit : Width) : Width :=
  let fits (w : Width) := decide (w ≤ limit) && address % w.bytes == 0 && decide (w.bytes ≤ length)
  ([Width.x64, .x32, .x16].find? fits).getD .x8

/-- Words for data at an address, in order of their addresses. -/
def tile (address : Nat) (data : List UInt8) (limit : Width) : List Word :=
  match data with
  | [] => []
  | b :: rest =>
    let w := widestAccess address (rest.length + 1) limit
    Word.ofBytes w ((b :: rest).take w.bytes) ::
      tile (address + w.bytes) ((b :: rest).drop w.bytes) limit
termination_by data.length
decreasing_by
  have := (widestAccess address (rest.length + 1) limit).bytes_pos
  simp +zetaDelta only [List.length_drop, List.length_cons]
  omega

end FlashController
