import FlashController.Proofs.Parts
import FlashController.Register.Setter

/-! Chains of setters. No two parts of a register have a bit in common, a setter writes the bits of
its own part, and a part is read from its own bits: after a chain each part is what the last setter
of it made it, whatever other setters came before, between and after. -/
namespace FlashController

/-- What can be read of a register by itself. -/
inductive Part : Register → Type
  | flag (f : Flag r) : Part r
  | sector : Part .cr
  | programWidth : Part .cr
  | latency : Part .acr
  | brownout : Part .optcr
  | readProtection : Part .optcr
  | writeProtected (n : UInt8) : Part .optcr
  deriving DecidableEq

namespace Part

abbrev Value : Part r → Type
  | .flag _ | .writeProtected _ => Bool
  | .sector | .latency => Nat
  | .programWidth => Width
  | .brownout => BrownoutLevel
  | .readProtection => ReadProtection

def get (device : Device) (v : Contents r) : (p : Part r) → p.Value
  | .flag f => v.has f
  | .sector => v.sector device
  | .programWidth => v.programWidth
  | .latency => v.latency
  | .brownout => v.brownout
  | .readProtection => v.readProtection
  | .writeProtected n => v.writeProtected n.toNat

/-- The bit belongs to the part. A sector without a protection bit has none. -/
def Covers (device : Device) (i : Nat) : Part r → Prop
  | .flag f => i = f.bit
  | .sector => 3 ≤ i ∧ i < 3 + device.sectorBits
  | .programWidth => 8 ≤ i ∧ i < 10
  | .latency => i < 4
  | .brownout => 2 ≤ i ∧ i < 4
  | .readProtection => 8 ≤ i ∧ i < 16
  | .writeProtected n => n.toNat < 12 ∧ i = 16 + n.toNat

instance (device : Device) (i : Nat) : (p : Part r) → Decidable (p.Covers device i)
  | .flag _ => inferInstanceAs (Decidable (_ = _))
  | .latency => inferInstanceAs (Decidable (_ < _))
  | .sector | .programWidth | .brownout | .readProtection | .writeProtected _ =>
    inferInstanceAs (Decidable (_ ∧ _))

section
variable {device : Device} {i : Nat} {v w : Contents r}

theorem eq_flag_of_covers {f : Flag r} {p : Part r} (h : p.Covers device f.bit) : p = .flag f := by
  have narrow := device.sectorBits_le
  cases p with
  | flag g => exact congrArg flag (Flag.bit_injective h.symm)
  | sector | programWidth | latency | brownout | readProtection | writeProtected =>
    cases f <;> simp only [Covers, Flag.bit] at h <;> omega

/-- Every bit of a register belongs to one part at most. -/
theorem eq_of_covers {p q : Part r} (hp : p.Covers device i) (hq : q.Covers device i) : p = q := by
  have narrow := device.sectorBits_le
  by_cases flagged : ∃ f : Flag r, i = f.bit
  · obtain ⟨f, rfl⟩ := flagged
    exact (eq_flag_of_covers hp).trans (eq_flag_of_covers hq).symm
  -- The parts left are as far apart as they are wide, and no two registers share one.
  · cases p with
    | flag f => exact absurd ⟨f, hp⟩ flagged
    | sector | programWidth | latency | brownout | readProtection | writeProtected =>
      cases q <;> grind [Covers, UInt8.toNat_inj]

/-- A part is read from its own bits. -/
theorem get_congr {p : Part r}
    (same : ∀ i, p.Covers device i → v.raw.getLsbD i = w.raw.getLsbD i) :
    p.get device v = p.get device w := by
  have field : ∀ f : Field r, (∀ i, f.offset ≤ i → i < f.offset + f.width →
      v.raw.getLsbD i = w.raw.getLsbD i) → v.field f = w.field f := by
    intro f same
    apply Nat.eq_of_testBit_eq
    intro i
    rw [Contents.field_testBit, Contents.field_testBit]
    by_cases inside : i < f.width
    · rw [same (f.offset + i) (Nat.le_add_right _ _) (Nat.add_lt_add_left inside _)]
    · simp only [inside, decide_false, Bool.false_and]
  cases p with
  | flag f => exact same f.bit rfl
  | sector => exact field (Field.snb device) fun i low high => same i ⟨low, high⟩
  | programWidth =>
    exact congrArg Width.ofCode (field Field.psize fun i low high => same i ⟨low, high⟩)
  | latency =>
    exact field Field.latency fun i _ high => same i (Nat.lt_of_lt_of_eq high (Nat.zero_add 4))
  | brownout =>
    exact congrArg BrownoutLevel.ofCode (field Field.brownout fun i low high => same i ⟨low, high⟩)
  | readProtection =>
    exact congrArg ReadProtection.ofCode
      (field Field.readProtection fun i low high => same i ⟨low, high⟩)
  | writeProtected n =>
    by_cases protectable : n.toNat < protectableSectors
    · have bit := same (16 + n.toNat) ⟨protectable, rfl⟩
      simp only [get, Contents.writeProtected, bit]
    · simp only [get, Contents.writeProtected, protectable, decide_false, Bool.false_and]

end
end Part

namespace Setter

/-- The part that the setter is for. -/
def part : Setter r → Part r
  | .flag f _ => .flag f
  | .sector _ => .sector
  | .programWidth _ => .programWidth
  | .latency _ => .latency
  | .brownout _ => .brownout
  | .readProtection _ => .readProtection
  | .writeProtected n _ => .writeProtected n

/-- What the setter makes of its part. Numbers are cut to their field, and a sector without a
protection bit is never protected. -/
def given (device : Device) : (s : Setter r) → s.part.Value
  | .flag _ on => on
  | .sector n => (BitVec.ofNat device.sectorBits n.toNat).toNat
  | .programWidth w => w
  | .latency n => (BitVec.ofNat 4 n.toNat).toNat
  | .brownout level => level
  | .readProtection level => level
  | .writeProtected n on => decide (n.toNat < protectableSectors) && on

section
variable {device : Device} {v : Contents r}

theorem getLsbD_apply {s : Setter r} {i : Nat} (outside : ¬ s.part.Covers device i) :
    (s.apply device v).raw.getLsbD i = v.raw.getLsbD i := by
  have field : ∀ (f : Field r) (n : Nat), ¬ (f.offset ≤ i ∧ i < f.offset + f.width) →
      (v.setField f n).raw.getLsbD i = v.raw.getLsbD i := by
    intro f n outside
    rw [Contents.setField, Contents.getLsbD_put, Field.getLsbD_mask, ← Bool.decide_and,
      decide_eq_false outside]
    rfl
  cases s with
  | flag f on => exact (v.getLsbD_set f on i).trans (if_neg fun here => outside here.symm)
  | sector n => exact field (Field.snb device) n.toNat outside
  | programWidth w => exact field Field.psize w.code outside
  | latency n =>
    exact field Field.latency n.toNat fun inside =>
      outside (Nat.lt_of_lt_of_eq inside.2 (Nat.zero_add 4))
  | brownout level => exact field Field.brownout level.code outside
  | readProtection level => exact field Field.readProtection level.code outside
  | writeProtected n on =>
    show (v.setWriteProtected n.toNat on).raw.getLsbD i = _
    unfold Contents.setWriteProtected
    split
    · rename_i protectable
      rw [Contents.getLsbD_put, BitVec.getLsbD_twoPow, if_neg]
      simp only [Bool.and_eq_true, decide_eq_true_eq]
      exact fun here => outside ⟨protectable, here.2.symm⟩
    · rfl

theorem get_apply_self (s : Setter r) (v : Contents r) :
    s.part.get device (s.apply device v) = s.given device := by
  cases s with
  | flag f on => exact v.has_set_self f on
  | sector n => exact v.sector_setSector device n.toNat
  | programWidth w => exact v.programWidth_setProgramWidth w
  | latency n => exact v.field_setField Field.latency n.toNat
  | brownout level =>
    have small : (BitVec.ofNat 2 level.code).toNat = level.code := by cases level <;> rfl
    have code := (v.field_setField Field.brownout level.code).trans small
    exact (congrArg BrownoutLevel.ofCode code).trans level.ofCode_code
  | readProtection level =>
    have small : (BitVec.ofNat 8 level.code).toNat = level.code := by cases level <;> rfl
    have code := (v.field_setField Field.readProtection level.code).trans small
    exact (congrArg ReadProtection.ofCode code).trans level.ofCode_code
  | writeProtected n on =>
    show (v.setWriteProtected n.toNat on).writeProtected n.toNat =
      (decide (n.toNat < protectableSectors) && on)
    unfold Contents.setWriteProtected Contents.writeProtected
    by_cases protectable : n.toNat < protectableSectors
    · have small : 16 + n.toNat < 32 := by
        unfold protectableSectors at protectable
        omega
      have own : (BitVec.twoPow 32 (16 + n.toNat)).getLsbD (16 + n.toNat) = true := by
        simp only [BitVec.getLsbD_twoPow, small, decide_true, Bool.and_self]
      rw [if_pos protectable, Contents.getLsbD_put, if_pos own]
      cases on with
      | true => simp only [if_true, BitVec.getLsbD_zero, Bool.not_false]
      | false =>
        simp only [Bool.false_eq_true, if_false, BitVec.getLsbD_allOnes, small, decide_true,
          Bool.not_true]
    · simp only [protectable, decide_false, Bool.false_and]

/-- What the setter makes of a part, if it is for that part. -/
def gives? (device : Device) (p : Part r) (s : Setter r) : Option p.Value :=
  if h : s.part = p then some (h ▸ s.given device) else none

/-- What the last setter for a part makes of it, if the chain has one. -/
def lastGiven? (device : Device) (p : Part r) (chain : List (Setter r)) : Option p.Value :=
  chain.reverse.findSome? (gives? device p)

def applyAll (device : Device) (v : Contents r) (chain : List (Setter r)) : Contents r :=
  chain.foldl (fun v s => s.apply device v) v

theorem getLast?_history (v : Contents r) (chain : List (Setter r)) :
    (history device v chain).getLast? = some (applyAll device v chain) := by
  induction chain generalizing v with
  | nil => rfl
  | cons s rest ih =>
    rw [history, List.getLast?_cons, ih]
    rfl

/-- A setter decides its own part, and leaves every other one as it was. -/
theorem get_apply (p : Part r) (s : Setter r) (v : Contents r) :
    p.get device (s.apply device v) = (s.gives? device p).getD (p.get device v) := by
  unfold gives?
  split
  · rename_i own
    subst own
    exact s.get_apply_self v
  · rename_i other
    exact Part.get_congr fun i inside =>
      getLsbD_apply fun also => other (Part.eq_of_covers also inside)

theorem get_applyAll (p : Part r) (v : Contents r) (chain : List (Setter r)) :
    p.get device (applyAll device v chain) =
      (lastGiven? device p chain).getD (p.get device v) := by
  induction chain generalizing v with
  | nil => rfl
  | cons s rest ih =>
    have later : lastGiven? device p (s :: rest) =
        (lastGiven? device p rest).or (s.gives? device p) := by
      simp only [lastGiven?, List.reverse_cons, List.findSome?_append, List.findSome?_cons,
        List.findSome?_nil]
      cases s.gives? device p <;> rfl
    have first : applyAll device v (s :: rest) = applyAll device (s.apply device v) rest := rfl
    rw [first, ih, later, get_apply, Option.getD_or]

theorem getLsbD_applyAll {chain : List (Setter r)} {i : Nat}
    (outside : ∀ s ∈ chain, ¬ s.part.Covers device i) (v : Contents r) :
    (applyAll device v chain).raw.getLsbD i = v.raw.getLsbD i := by
  induction chain generalizing v with
  | nil => rfl
  | cons s rest ih =>
    obtain ⟨here, later⟩ := List.forall_mem_cons.mp outside
    exact (ih later (s.apply device v)).trans (getLsbD_apply here)

theorem unprotectable {n : UInt8} (beyond : protectableSectors ≤ n.toNat) (v : Contents .optcr)
    (on : Bool) : (writeProtected n on).apply device v = v ∧
      (Part.writeProtected n).get device v = false := by
  have beyond := Nat.not_lt.mpr beyond
  constructor
  · exact if_neg beyond
  · simp only [Part.get, Contents.writeProtected, beyond, decide_false, Bool.false_and]

end

/-- Whatever a register holds at first, every part of it is at the end of a chain what the last
setter for it gave, and what it was if there is none; and no bit changes but those of such parts.
The setter for a sector without a protection bit does nothing. -/
theorem parts_independent (device : Device) :
    (∀ (r : Register) (v : Contents r) (chain : List (Setter r)), ∃ w,
      (history device v chain).getLast? = some w ∧
      (∀ p : Part r, p.get device w = (lastGiven? device p chain).getD (p.get device v)) ∧
      ∀ i, (∀ s ∈ chain, ¬ s.part.Covers device i) → w.raw.getLsbD i = v.raw.getLsbD i) ∧
    ∀ n : UInt8, 12 ≤ n.toNat → ∀ (v : Contents .optcr) (on : Bool),
      (writeProtected n on).apply device v = v ∧ (Part.writeProtected n).get device v = false := by
  refine ⟨fun r v chain => ⟨applyAll device v chain, getLast?_history v chain, ?_, ?_⟩,
    fun n beyond => unprotectable beyond⟩
  · exact fun p => get_applyAll p v chain
  · exact fun i outside => getLsbD_applyAll outside v

/-- A chain on a narrow sector field that sets some parts twice. The reserved bit over the field is
in none of them. -/
theorem parts_independent_narrow :
    let chain : List (Setter .cr) := [.flag .ser true, .sector 0x1F, .programWidth .x64,
      .flag .ser false, .sector 0x13]
    (∀ s ∈ chain, ¬ s.part.Covers .stm32f745 7) ∧ ∃ w,
      (history .stm32f745 ⟨0x80000087⟩ chain).getLast? = some w ∧
      w.sector .stm32f745 = 3 ∧ w.programWidth = .x64 ∧ w.has .ser = false ∧
      w.has .mer = true ∧ w.has .lock = true ∧ w.raw.getLsbD 7 = true ∧
      ∀ v : Contents .optcr, v.setWriteProtected 12 true = v := by
  intro chain
  have apart : ∀ s ∈ chain, ¬ s.part.Covers .stm32f745 7 := by decide
  obtain ⟨chains, beyond⟩ := parts_independent .stm32f745
  obtain ⟨w, last, parts, bits⟩ := chains .cr ⟨0x80000087⟩ chain
  exact ⟨apart, w, last, (parts .sector).trans (by decide), (parts .programWidth).trans (by decide),
    (parts (.flag .ser)).trans (by decide), (parts (.flag .mer)).trans (by decide),
    (parts (.flag .lock)).trans (by decide), (bits 7 apart).trans (by decide),
    fun v => (beyond 12 (by decide) v true).1⟩

end Setter
end FlashController
