/-! The four registers of the controller that can be read back, and their parts. A part is a set
of bits, its mask; every update replaces the bits under one mask and keeps the others, and
`getLsbD_put` is the law behind all of them. -/
namespace FlashController

/-- Control, status, access control and option control register. -/
inductive Register
  | cr | sr | acr | optcr
  deriving DecidableEq, Repr

/-- Contents of one register. The index keeps a value from being written to another register. -/
structure Contents (r : Register) where
  raw : BitVec 32
  deriving DecidableEq

/-- Parts of one bit, under the names of the reference manual. -/
inductive Flag : Register → Type
  /-- Programming. -/
  | pg : Flag .cr
  /-- Sector erase. -/
  | ser : Flag .cr
  /-- Mass erase. -/
  | mer : Flag .cr
  /-- Start of an erase. -/
  | strt : Flag .cr
  /-- Interrupt at the end of an operation. -/
  | eopie : Flag .cr
  /-- Interrupt on an error. -/
  | errie : Flag .cr
  | lock : Flag .cr
  /-- End of operation. -/
  | eop : Flag .sr
  /-- Operation error. -/
  | operr : Flag .sr
  /-- Write protection error. -/
  | wrperr : Flag .sr
  /-- Programming alignment error. -/
  | pgaerr : Flag .sr
  /-- Programming error: wrong width, or a destination that was not erased. -/
  | pgperr : Flag .sr
  /-- Erase sequence error. -/
  | erserr : Flag .sr
  /-- Read protection error. -/
  | rderr : Flag .sr
  /-- An operation is in progress. -/
  | bsy : Flag .sr
  /-- Prefetch buffer. -/
  | prften : Flag .acr
  /-- Accelerator of the instruction and data fetch. -/
  | arten : Flag .acr
  | artrst : Flag .acr
  | optlock : Flag .optcr
  /-- Start of the option byte programming. -/
  | optstrt : Flag .optcr
  /-- Window watchdog under software control. -/
  | wwdgSw : Flag .optcr
  /-- Independent watchdog under software control. -/
  | iwdgSw : Flag .optcr
  /-- No reset when entering stop mode. -/
  | nrstStop : Flag .optcr
  /-- No reset when entering standby mode. -/
  | nrstStdby : Flag .optcr
  /-- Independent watchdog runs in standby mode. -/
  | iwdgStdby : Flag .optcr
  /-- Independent watchdog runs in stop mode. -/
  | iwdgStop : Flag .optcr
  deriving DecidableEq

def Flag.bit : Flag r → Nat
  | .pg => 0
  | .ser => 1
  | .mer => 2
  | .strt => 16
  | .eopie => 24
  | .errie => 25
  | .lock => 31
  | .eop => 0
  | .operr => 1
  | .wrperr => 4
  | .pgaerr => 5
  | .pgperr => 6
  | .erserr => 7
  | .rderr => 8
  | .bsy => 16
  | .prften => 8
  | .arten => 9
  | .artrst => 11
  | .optlock => 0
  | .optstrt => 1
  | .wwdgSw => 4
  | .iwdgSw => 5
  | .nrstStop => 6
  | .nrstStdby => 7
  | .iwdgStdby => 30
  | .iwdgStop => 31

theorem Flag.bit_lt (f : Flag r) : f.bit < 32 := by
  cases f <;> decide

def Flag.mask (f : Flag r) : BitVec 32 := BitVec.twoPow 32 f.bit

def maskOf (flags : List (Flag r)) : BitVec 32 :=
  flags.foldr (fun f mask => f.mask ||| mask) 0

/-- Parts of several neighbouring bits that hold a number. -/
structure Field (r : Register) where
  offset : Nat
  width : Nat
  fits : offset + width ≤ 32

def Field.mask (f : Field r) : BitVec 32 :=
  BitVec.setWidth 32 (BitVec.allOnes f.width) <<< f.offset

def Register.title : Register → String
  | .cr => "Cr"
  | .sr => "Sr"
  | .acr => "Acr"
  | .optcr => "Optcr"

def Register.atReset : (r : Register) → Contents r
  | .cr => ⟨0x80000000⟩
  | .sr => ⟨0⟩
  | .acr => ⟨0⟩
  | .optcr => ⟨0xCFFFAAFD⟩

namespace Contents

@[ext] theorem ext {v w : Contents r} (h : v.raw = w.raw) : v = w := by
  cases v; cases w; simp_all

/-- Replaces the bits under a mask. -/
def put (v : Contents r) (mask bits : BitVec 32) : Contents r :=
  ⟨v.raw &&& ~~~mask ||| bits &&& mask⟩

def has (v : Contents r) (f : Flag r) : Bool := v.raw.getLsbD f.bit

def set (v : Contents r) (f : Flag r) (on : Bool) : Contents r :=
  v.put f.mask (if on then BitVec.allOnes 32 else 0#32)

def field (v : Contents r) (f : Field r) : Nat :=
  (v.raw.extractLsb' f.offset f.width).toNat

/-- Higher bits of a number that does not fit are dropped. -/
def setField (v : Contents r) (f : Field r) (n : Nat) : Contents r :=
  v.put f.mask (BitVec.ofNat 32 n <<< f.offset)

def describe (v : Contents r) : String :=
  r.title ++ " \x7b val: " ++ toString v.raw.toNat ++ " \x7d"

end Contents

theorem Flag.getLsbD_mask (f : Flag r) (i : Nat) : f.mask.getLsbD i = decide (f.bit = i) := by
  have := f.bit_lt
  simp only [Flag.mask, BitVec.getLsbD_twoPow]
  grind

theorem Field.getLsbD_mask (f : Field r) (i : Nat) :
    f.mask.getLsbD i = (decide (f.offset ≤ i) && decide (i < f.offset + f.width)) := by
  have := f.fits
  simp only [Field.mask, BitVec.getLsbD_shiftLeft, BitVec.getLsbD_setWidth, BitVec.getLsbD_allOnes]
  grind

namespace Contents

theorem getLsbD_put (v : Contents r) (mask bits : BitVec 32) (i : Nat) :
    (v.put mask bits).raw.getLsbD i =
      if mask.getLsbD i then bits.getLsbD i else v.raw.getLsbD i := by
  by_cases hi : i < 32
  · simp only [put, BitVec.getLsbD_or, BitVec.getLsbD_and, BitVec.getLsbD_not, hi]
    cases mask.getLsbD i <;> simp
  · simp [BitVec.getLsbD_of_ge _ i (Nat.le_of_not_lt hi)]

theorem has_set (v : Contents r) (f g : Flag r) (on : Bool) :
    (v.set f on).has g = if f.bit = g.bit then on else v.has g := by
  have := g.bit_lt
  simp only [has, set, getLsbD_put, Flag.getLsbD_mask, decide_eq_true_eq]
  cases on
  · simp only [Bool.false_eq_true, if_false, BitVec.getLsbD_zero]
  · simp only [if_true, BitVec.getLsbD_allOnes, this, decide_true]

theorem field_testBit (v : Contents r) (f : Field r) (i : Nat) :
    (v.field f).testBit i = (decide (i < f.width) && v.raw.getLsbD (f.offset + i)) := by
  simp only [field, BitVec.testBit_toNat, BitVec.getLsbD_extractLsb']

/-- Two parts without a common bit do not see each other's updates. -/
theorem field_put {v : Contents r} {f : Field r} {mask bits : BitVec 32}
    (h : f.mask &&& mask = 0) : (v.put mask bits).field f = v.field f := by
  apply Nat.eq_of_testBit_eq
  intro i
  simp only [field_testBit, getLsbD_put]
  by_cases hi : i < f.width
  · have hm : (f.mask &&& mask).getLsbD (f.offset + i) = false := by
      rw [h]
      exact BitVec.getLsbD_zero
    have : mask.getLsbD (f.offset + i) = false := by
      simpa only [BitVec.getLsbD_and, Field.getLsbD_mask, Nat.le_add_right, decide_true,
        Nat.add_lt_add_iff_left, hi, Bool.true_and] using hm
    simp [this]
  · simp [hi]

theorem field_setField (v : Contents r) (f : Field r) (n : Nat) :
    (v.setField f n).field f = (BitVec.ofNat f.width n).toNat := by
  have := f.fits
  apply Nat.eq_of_testBit_eq
  intro i
  simp only [field_testBit, setField, getLsbD_put, Field.getLsbD_mask, BitVec.testBit_toNat,
    BitVec.getLsbD_ofNat]
  by_cases hi : i < f.width
  · have : f.offset + i < 32 := by omega
    have : i < 32 := by omega
    have : ¬ f.offset + i < f.offset := by omega
    simp only [BitVec.getLsbD_shiftLeft, BitVec.getLsbD_ofNat, Nat.add_sub_cancel_left]
    simp [*]
  · simp [hi]

end Contents
end FlashController
