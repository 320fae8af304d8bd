/-! Program widths: how many bits the controller programs in one access. -/
namespace FlashController

inductive Width
  | x8 | x16 | x32 | x64
  deriving DecidableEq, Repr, Ord

namespace Width

/-- Number of the width in the `PSIZE` field. -/
def code : Width → Nat
  | .x8 => 0
  | .x16 => 1
  | .x32 => 2
  | .x64 => 3

/-- Only the two low bits select a width, so every number is one. -/
def ofCode (n : Nat) : Width :=
  match n % 4 with
  | 0 => .x8
  | 1 => .x16
  | 2 => .x32
  | _ => .x64

def bytes : Width → Nat
  | .x8 => 1
  | .x16 => 2
  | .x32 => 4
  | .x64 => 8

instance : LE Width where
  le v w := v.code ≤ w.code

instance (v w : Width) : Decidable (v ≤ w) :=
  inferInstanceAs (Decidable (v.code ≤ w.code))

/-- Widest access that the supply voltage allows without an external programming voltage. -/
def maxForVoltage? (millivolts : Nat) : Option Width :=
  if 1700 ≤ millivolts ∧ millivolts ≤ 2099 then some .x8
  else if 2100 ≤ millivolts ∧ millivolts ≤ 2699 then some .x16
  else if 2700 ≤ millivolts ∧ millivolts ≤ 3600 then some .x32
  else none

theorem code_lt (w : Width) : w.code < 4 := by
  cases w <;> decide

theorem ofCode_code (w : Width) : ofCode w.code = w := by
  cases w <;> rfl

theorem code_ofCode (n : Nat) : (ofCode n).code = n % 4 := by
  have h := Nat.mod_lt n (by decide : 4 > 0)
  unfold ofCode
  generalize n % 4 = m at h
  match m, h with
  | 0, _ => rfl
  | 1, _ => rfl
  | 2, _ => rfl
  | 3, _ => rfl

theorem bytes_pos (w : Width) : 0 < w.bytes := by
  cases w <;> decide

end Width
end FlashController
