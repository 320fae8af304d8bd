import FlashController.Register.Control
import FlashController.Register.OptionControl
import FlashController.Register.Status

/-! Updates of the parts of a register, one after the other. Two updates of one part are the last
of them, and updates of parts without a common bit can change places. -/
namespace FlashController

theorem Flag.bit_injective {f g : Flag r} (h : f.bit = g.bit) : f = g := by
  cases f <;> cases g <;> first | rfl | exact absurd h (by decide)

theorem getLsbD_maskOf (flags : List (Flag r)) (i : Nat) :
    (maskOf flags).getLsbD i = flags.any fun f => decide (f.bit = i) := by
  induction flags with
  | nil => exact BitVec.getLsbD_zero
  | cons f rest ih =>
    have first : maskOf (f :: rest) = f.mask ||| maskOf rest := rfl
    rw [first, BitVec.getLsbD_or, Flag.getLsbD_mask, ih, List.any_cons]

namespace Contents

theorem eq_of_bits {v w : Contents r} (h : ∀ i, v.raw.getLsbD i = w.raw.getLsbD i) : v = w :=
  Contents.ext (BitVec.eq_of_getLsbD_eq fun i _ => h i)

@[simp] theorem put_put (v : Contents r) (mask a b : BitVec 32) :
    (v.put mask a).put mask b = v.put mask b := by
  apply eq_of_bits
  intro i
  simp only [getLsbD_put]
  split <;> rfl

theorem put_comm (v : Contents r) {m n : BitVec 32} (h : m &&& n = 0) (a b : BitVec 32) :
    (v.put m a).put n b = (v.put n b).put m a := by
  apply eq_of_bits
  intro i
  have apart : (m &&& n).getLsbD i = false := h ▸ BitVec.getLsbD_zero
  rw [BitVec.getLsbD_and] at apart
  simp only [getLsbD_put]
  cases hm : m.getLsbD i with
  | false => rfl
  | true =>
    rw [hm, Bool.true_and] at apart
    simp only [apart]
    rfl

theorem has_put {v : Contents r} {mask bits : BitVec 32} {f : Flag r}
    (h : mask.getLsbD f.bit = false) : (v.put mask bits).has f = v.has f := by
  simp only [has, getLsbD_put, h]
  rfl

theorem getLsbD_set (v : Contents r) (f : Flag r) (on : Bool) (i : Nat) :
    (v.set f on).raw.getLsbD i = if f.bit = i then on else v.raw.getLsbD i := by
  simp only [set, getLsbD_put, Flag.getLsbD_mask, decide_eq_true_eq]
  by_cases here : f.bit = i
  · have small : i < 32 := here ▸ f.bit_lt
    rw [if_pos here, if_pos here]
    cases on with
    | false => exact BitVec.getLsbD_zero
    | true => exact (BitVec.getLsbD_allOnes).trans (decide_eq_true small)
  · rw [if_neg here, if_neg here]

@[simp] theorem set_set (v : Contents r) (f : Flag r) (a b : Bool) :
    (v.set f a).set f b = v.set f b := v.put_put _ _ _

theorem set_comm (v : Contents r) {f g : Flag r} (other : f ≠ g) (a b : Bool) :
    (v.set f a).set g b = (v.set g b).set f a := by
  apply eq_of_bits
  intro i
  simp only [getLsbD_set]
  by_cases here : f.bit = i
  · have there : g.bit ≠ i := fun same => other (Flag.bit_injective (here.trans same.symm))
    simp only [if_pos here, if_neg there]
  · simp only [if_neg here]

/-- Setting a flag to what it is changes nothing. -/
theorem set_same {v : Contents r} {f : Flag r} {on : Bool} (h : v.has f = on) :
    v.set f on = v := by
  apply eq_of_bits
  intro i
  rw [getLsbD_set]
  split
  · rename_i here
    exact here ▸ h.symm
  · rfl

@[simp] theorem has_set_self (v : Contents r) (f : Flag r) (on : Bool) : (v.set f on).has f = on :=
  (v.has_set f f on).trans (if_pos rfl)

theorem has_set_of_ne {v : Contents r} {f g : Flag r} {on : Bool} (h : f ≠ g) :
    (v.set f on).has g = v.has g :=
  (v.has_set f g on).trans (if_neg fun same => h (Flag.bit_injective same))

theorem has_of_set_false {v : Contents r} {f g : Flag r}
    (raised : (v.set f false).has g = true) : v.has g = true := by
  rw [has_set] at raised
  split at raised
  · exact absurd raised nofun
  · exact raised

theorem has_set_true {v : Contents r} {f : Flag r} (g : Flag r) (raised : v.has f = true) :
    (v.set g true).has f = true := by
  rw [has_set]
  split
  · rfl
  · exact raised

section Control
variable (v : Contents .cr)

@[simp] theorem setProgramWidth_setProgramWidth (w u : Width) :
    (v.setProgramWidth w).setProgramWidth u = v.setProgramWidth u := v.put_put _ _ _

theorem set_setProgramWidth (w : Width) (f : Flag .cr) (on : Bool) :
    (v.set f on).setProgramWidth w = (v.setProgramWidth w).set f on :=
  v.put_comm (by cases f <;> decide) _ _

@[simp] theorem has_setProgramWidth (w : Width) (f : Flag .cr) :
    (v.setProgramWidth w).has f = v.has f :=
  has_put (by cases f <;> decide)

@[simp] theorem has_setSector (device : Device) (n : Nat) (f : Flag .cr) :
    (v.setSector device n).has f = v.has f :=
  has_put (by cases device <;> cases f <;> decide)

@[simp] theorem programWidth_set (f : Flag .cr) (on : Bool) :
    (v.set f on).programWidth = v.programWidth :=
  congrArg Width.ofCode (field_put (by cases f <;> decide))

@[simp] theorem sector_set (device : Device) (f : Flag .cr) (on : Bool) :
    (v.set f on).sector device = v.sector device :=
  field_put (by cases device <;> cases f <;> decide)

/-- A sector number is cut to its field. -/
@[simp] theorem sector_setSector (device : Device) (n : Nat) :
    (v.setSector device n).sector device = (BitVec.ofNat device.sectorBits n).toNat :=
  v.field_setField _ n

end Control

section Options
variable (v : Contents .optcr) {f : Flag .optcr}

theorem optionReserved_bit (reserved : f = .optlock ∨ f = .optstrt) :
    optionReserved.getLsbD f.bit = true := by
  rcases reserved with rfl | rfl <;> decide

theorem has_optionBytes (reserved : f = .optlock ∨ f = .optstrt) :
    v.optionBytes.has f = false := by
  simp only [optionBytes, has, BitVec.getLsbD_and, BitVec.getLsbD_not,
    optionReserved_bit reserved, Bool.not_true, Bool.and_false]

/-- The two reserved flags are no part of the option bytes. -/
theorem optionBytes_set (on : Bool) (reserved : f = .optlock ∨ f = .optstrt) :
    (v.set f on).optionBytes = v.optionBytes := by
  apply eq_of_bits
  intro i
  simp only [optionBytes, BitVec.getLsbD_and, BitVec.getLsbD_not, getLsbD_set]
  by_cases here : f.bit = i
  · simp only [← here, optionReserved_bit reserved, Bool.not_true, Bool.and_false]
  · rw [if_neg here]

theorem optionBytes_optionBytes : v.optionBytes.optionBytes = v.optionBytes := by
  simp only [optionBytes, BitVec.and_assoc, BitVec.and_self]

end Options
end Contents

/-- An update of the control register that neither locks, unlocks nor starts. -/
structure Harmless (f : Contents .cr → Contents .cr) : Prop where
  lock : ∀ v, (f v).has .lock = v.has .lock
  start : ∀ v, (f v).has .strt = v.has .strt

theorem harmless_set {f : Flag .cr} (on : Bool) (lock : f ≠ .lock) (start : f ≠ .strt) :
    Harmless (·.set f on) :=
  ⟨fun _ => Contents.has_set_of_ne lock, fun _ => Contents.has_set_of_ne start⟩

theorem harmless_setSector (device : Device) (n : Nat) : Harmless (·.setSector device n) :=
  ⟨fun v => v.has_setSector device n .lock, fun v => v.has_setSector device n .strt⟩

theorem Harmless.comp {f g : Contents .cr → Contents .cr} (first : Harmless f) (last : Harmless g) :
    Harmless fun v => g (f v) :=
  ⟨fun v => (last.lock _).trans (first.lock v), fun v => (last.start _).trans (first.start v)⟩

theorem harmless_mass (on : Bool) : Harmless (·.set .mer on) := harmless_set on nofun nofun

theorem harmless_selectSector (device : Device) (n : Nat) :
    Harmless fun v => (v.setSector device n).set .ser true :=
  (harmless_setSector device n).comp (harmless_set (f := .ser) true nofun nofun)

theorem harmless_deselectSector (device : Device) :
    Harmless fun v => (v.set .ser false).setSector device 0 :=
  (harmless_set (f := .ser) false nofun nofun).comp (harmless_setSector device 0)

theorem harmless_setProgramWidth (w : Width) : Harmless (·.setProgramWidth w) :=
  ⟨fun v => v.has_setProgramWidth w .lock, fun v => v.has_setProgramWidth w .strt⟩

end FlashController
