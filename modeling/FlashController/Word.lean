import FlashController.Width

/-! Data words of the four program widths. The bytes of a word are stored low byte first. -/
namespace FlashController

def littleEndian : Nat → Nat → List UInt8
  | 0, _ => []
  | n + 1, value => UInt8.ofNat value :: littleEndian n (value / 256)

def ofLittleEndian : List UInt8 → Nat
  | [] => 0
  | b :: rest => b.toNat + 256 * ofLittleEndian rest

theorem length_littleEndian (n value : Nat) : (littleEndian n value).length = n := by
  induction n generalizing value with
  | zero => rfl
  | succ n ih => simp [littleEndian, ih]

/-- A list of bytes fits a number of eight bits for each. -/
theorem toNat_ofLittleEndian (bytes : List UInt8) :
    (BitVec.ofNat (8 * bytes.length) (ofLittleEndian bytes)).toNat = ofLittleEndian bytes := by
  suffices ofLittleEndian bytes < 2 ^ (8 * bytes.length) by
    rw [BitVec.toNat_ofNat, Nat.mod_eq_of_lt this]
  induction bytes with
  | nil => decide
  | cons b rest ih =>
    have hb : b.toNat < 256 := b.toNat_lt
    have step : 2 ^ (8 * (rest.length + 1)) = 256 * 2 ^ (8 * rest.length) := by
      rw [Nat.mul_add, Nat.pow_add, Nat.mul_comm]
    simp only [ofLittleEndian, List.length_cons, step]
    omega

theorem littleEndian_ofLittleEndian (bytes : List UInt8) :
    littleEndian bytes.length (ofLittleEndian bytes) = bytes := by
  induction bytes with
  | nil => rfl
  | cons b rest ih =>
    have hb := b.toNat_lt
    have low : UInt8.ofNat (b.toNat + 256 * ofLittleEndian rest) = b := by
      apply UInt8.toNat_inj.mp
      rw [UInt8.toNat_ofNat']
      omega
    have high : (b.toNat + 256 * ofLittleEndian rest) / 256 = ofLittleEndian rest := by omega
    simp only [List.length_cons, littleEndian, ofLittleEndian, low, high, ih]

structure Word where
  width : Width
  value : BitVec (8 * width.bytes)
  deriving DecidableEq

namespace Word

def ofNat? (width : Width) (value : Nat) : Option Word :=
  let v := BitVec.ofNat (8 * width.bytes) value
  if v.toNat = value then some ⟨width, v⟩ else none

/-- Takes the low bytes that fit the width. -/
def ofBytes (width : Width) (bytes : List UInt8) : Word :=
  ⟨width, BitVec.ofNat _ (ofLittleEndian bytes)⟩

def ofByte (b : UInt8) : Word := ⟨.x8, b.toBitVec⟩

/-- Bytes of the word, the one for the lowest address first. -/
def bytes (w : Word) : List UInt8 :=
  littleEndian w.width.bytes w.value.toNat

theorem length_bytes (w : Word) : w.bytes.length = w.width.bytes :=
  length_littleEndian _ _

theorem bytes_ne_nil (w : Word) : w.bytes ≠ [] := by
  apply List.ne_nil_of_length_pos
  rw [length_bytes]
  exact w.width.bytes_pos

theorem bytes_ofBytes {width : Width} {data : List UInt8} (h : data.length = width.bytes) :
    (ofBytes width data).bytes = data := by
  have fits := toNat_ofLittleEndian data
  rw [h] at fits
  rw [bytes, ofBytes, fits, ← h, littleEndian_ofLittleEndian]

theorem bytes_ofByte (b : UInt8) : (ofByte b).bytes = [b] := by
  simp [bytes, ofByte, Width.bytes, littleEndian]

end Word
end FlashController
