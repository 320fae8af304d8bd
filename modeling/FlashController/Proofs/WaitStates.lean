import FlashController.Proofs.Simulator.Operations
import FlashController.Proofs.Steps
import FlashController.WaitStates

/-! Wait states. The number that a clock needs at a supply voltage is the least that serves it, so
it follows the clock up and the voltage down. It fits its field, and no prefetch or accelerator
operation changes it once it is set. -/
namespace FlashController

namespace SupplyRange
variable {range other : SupplyRange} {clock slower n m millivolts higher : Nat}

/-- The least number of wait states with which a clock can be run. -/
structure Serves (range : SupplyRange) (clock n : Nat) : Prop where
  enough : clock ≤ (n + 1) * range.perWaitState
  least : ∀ m, clock ≤ (m + 1) * range.perWaitState → n ≤ m

theorem serves_div (positive : 0 < range.perWaitState) (clock : Nat) :
    range.Serves clock ((clock - 1) / range.perWaitState) := by
  constructor
  · have above := Nat.lt_mul_div_succ (clock - 1) positive
    rw [Nat.mul_comm] at above
    exact Nat.le_of_pred_lt above
  · intro m enough
    have some : 0 < (m + 1) * range.perWaitState := Nat.mul_pos (Nat.succ_pos m) positive
    have below : clock - 1 < (m + 1) * range.perWaitState := by omega
    exact Nat.le_of_lt_succ ((Nat.div_lt_iff_lt_mul positive).mpr below)

theorem Serves.unique (h : range.Serves clock n) (h' : range.Serves clock m) : n = m :=
  Nat.le_antisymm (h.least m h'.enough) (h'.least n h.enough)

/-- A slower clock needs no more wait states, nor does a range in which each of them serves more. -/
theorem Serves.mono (h : range.Serves clock n) (h' : other.Serves slower m) (le : slower ≤ clock)
    (better : range.perWaitState ≤ other.perWaitState) : m ≤ n := by
  apply h'.least
  calc
    slower ≤ clock := le
    _ ≤ (n + 1) * range.perWaitState := h.enough
    _ ≤ (n + 1) * other.perWaitState := Nat.mul_le_mul_left (n + 1) better

theorem ofMillivolts?_eq_some_iff : ofMillivolts? millivolts = some range ↔
    2700 ≤ millivolts ∧ millivolts ≤ 3600 ∧ range = ⟨30000000, 216000000⟩ ∨
    2400 ≤ millivolts ∧ millivolts ≤ 2699 ∧ range = ⟨24000000, 216000000⟩ ∨
    2100 ≤ millivolts ∧ millivolts ≤ 2399 ∧ range = ⟨22000000, 216000000⟩ ∨
    1800 ≤ millivolts ∧ millivolts ≤ 2099 ∧ range = ⟨20000000, 180000000⟩ := by
  unfold ofMillivolts?
  grind

theorem exists_ofMillivolts?_iff :
    (∃ range, ofMillivolts? millivolts = some range) ↔ 1800 ≤ millivolts ∧ millivolts ≤ 3600 := by
  constructor
  · rintro ⟨range, supplied⟩
    have row := ofMillivolts?_eq_some_iff.mp supplied
    omega
  · rintro ⟨low, high⟩
    apply Option.ne_none_iff_exists'.mp
    unfold ofMillivolts?
    grind

theorem ofMillivolts?_mono (found : ofMillivolts? millivolts = some range)
    (found' : ofMillivolts? higher = some other) (le : millivolts ≤ higher) :
    range.perWaitState ≤ other.perWaitState ∧ range.maxClock ≤ other.maxClock := by
  rcases ofMillivolts?_eq_some_iff.mp found with
    ⟨_, _, rfl⟩ | ⟨_, _, rfl⟩ | ⟨_, _, rfl⟩ | ⟨_, _, rfl⟩ <;>
  rcases ofMillivolts?_eq_some_iff.mp found' with
    ⟨_, _, rfl⟩ | ⟨_, _, rfl⟩ | ⟨_, _, rfl⟩ | ⟨_, _, rfl⟩ <;>
  grind

/-- In every range ten wait states serve the highest clock, and more. -/
theorem maxClock_le (found : ofMillivolts? millivolts = some range) :
    0 < range.perWaitState ∧ range.maxClock ≤ 10 * range.perWaitState := by
  rcases ofMillivolts?_eq_some_iff.mp found with
    ⟨_, _, rfl⟩ | ⟨_, _, rfl⟩ | ⟨_, _, rfl⟩ | ⟨_, _, rfl⟩ <;> decide

end SupplyRange

section Numbers
variable {clock slower millivolts higher : Nat} {range : SupplyRange} {n m : UInt8}

theorem waitStates?_eq (supplied : SupplyRange.ofMillivolts? millivolts = some range) :
    waitStates? clock millivolts = if clock ≤ range.maxClock
      then some (UInt8.ofNat ((clock - 1) / range.perWaitState)) else none := by
  unfold waitStates?
  rw [supplied]
  rfl

theorem div_lt (supplied : SupplyRange.ofMillivolts? millivolts = some range)
    (slow : clock ≤ range.maxClock) : (clock - 1) / range.perWaitState < 10 := by
  obtain ⟨positive, bound⟩ := SupplyRange.maxClock_le supplied
  rw [Nat.div_lt_iff_lt_mul positive]
  omega

/-- The number that is found is the least that serves the clock: the quotient was not cut. -/
theorem waitStates?_eq_some_iff : waitStates? clock millivolts = some n ↔
    ∃ range, SupplyRange.ofMillivolts? millivolts = some range ∧ clock ≤ range.maxClock ∧
      range.Serves clock n.toNat := by
  cases supplied : SupplyRange.ofMillivolts? millivolts with
  | none =>
    unfold waitStates?
    rw [supplied]
    simp
  | some range =>
    have serves := SupplyRange.serves_div (SupplyRange.maxClock_le supplied).1 clock
    rw [waitStates?_eq supplied]
    by_cases slow : clock ≤ range.maxClock
    · have small := div_lt supplied slow
      generalize (clock - 1) / range.perWaitState = quotient at small serves ⊢
      have whole : (UInt8.ofNat quotient).toNat = quotient := by
        rw [UInt8.toNat_ofNat']
        omega
      simp only [if_pos slow, Option.some.injEq]
      constructor
      · rintro rfl
        exact ⟨range, rfl, slow, whole.symm ▸ serves⟩
      · rintro ⟨_, rfl, _, serves'⟩
        exact UInt8.toNat_inj.mp (whole.trans (serves.unique serves'))
    · simp [slow]

/-- Four bits hold every number that is found. -/
theorem waitStates?_lt (found : waitStates? clock millivolts = some n) : n.toNat < 16 := by
  obtain ⟨range, supplied, slow, serves⟩ := waitStates?_eq_some_iff.mp found
  have same := serves.unique (SupplyRange.serves_div (SupplyRange.maxClock_le supplied).1 clock)
  have small := div_lt supplied slow
  omega

theorem exists_waitStates?_iff : (∃ n, waitStates? clock millivolts = some n) ↔
    ∃ range, SupplyRange.ofMillivolts? millivolts = some range ∧ clock ≤ range.maxClock := by
  constructor
  · rintro ⟨n, found⟩
    obtain ⟨range, supplied, slow, _⟩ := waitStates?_eq_some_iff.mp found
    exact ⟨range, supplied, slow⟩
  · rintro ⟨range, supplied, slow⟩
    exact ⟨_, (waitStates?_eq supplied).trans (if_pos slow)⟩

/-- A slower clock and a higher voltage need no more wait states. -/
theorem waitStates?_mono (found : waitStates? clock millivolts = some n) (le : slower ≤ clock)
    (le' : millivolts ≤ higher) (bound : higher ≤ 3600) :
    ∃ m, waitStates? slower higher = some m ∧ m ≤ n := by
  obtain ⟨range, supplied, slow, serves⟩ := waitStates?_eq_some_iff.mp found
  have low := (SupplyRange.exists_ofMillivolts?_iff.mp ⟨range, supplied⟩).1
  obtain ⟨other, supplied'⟩ :=
    SupplyRange.exists_ofMillivolts?_iff.mpr ⟨Nat.le_trans low le', bound⟩
  obtain ⟨better, room⟩ := SupplyRange.ofMillivolts?_mono supplied supplied' le'
  obtain ⟨m, found'⟩ := exists_waitStates?_iff.mpr
    ⟨other, supplied', Nat.le_trans le (Nat.le_trans slow room)⟩
  obtain ⟨_, same, _, serves'⟩ := waitStates?_eq_some_iff.mp found'
  obtain rfl := Option.some.inj (supplied'.symm.trans same)
  exact ⟨m, found', serves.mono serves' le better⟩

end Numbers

namespace Operation

/-- The operation turns the prefetch buffer or the accelerator on or off, or resets it. -/
def Accelerates : Operation → Prop
  | .setPrefetch _ | .setAccelerator _ | .resetAccelerator => True
  | _ => False

end Operation

namespace Simulator
variable {device : Device} {s t : Simulator device} {op : Operation} {ops : List Operation}

/-- The number of wait states that is read. -/
def Waits (n : Nat) (s : Simulator device) : Prop :=
  ∃ v : Contents .acr, (Procedure.read .acr).run s = .ok v s ∧ v.latency = n

theorem waits_iff {n : Nat} : Waits n s ↔ s.acr.latency = n := by
  have read : (Procedure.read .acr).run s = .ok s.acr s := rfl
  constructor
  · rintro ⟨v, same, waits⟩
    obtain ⟨rfl, _⟩ := EStateM.Result.ok.inj (read.symm.trans same)
    exact waits
  · exact fun waits => ⟨s.acr, read, waits⟩

theorem latency_set (v : Contents .acr) (f : Flag .acr) (on : Bool) :
    (v.set f on).latency = v.latency :=
  Contents.field_put (by cases f <;> decide)

theorem latency_setLatency {v : Contents .acr} {n : Nat} (small : n < 16) :
    (v.setLatency n).latency = n := by
  have cut : (v.setLatency n).latency = (BitVec.ofNat 4 n).toNat := v.field_setField _ n
  rw [cut, BitVec.toNat_ofNat]
  exact Nat.mod_eq_of_lt small

theorem accelerates_completes (accelerates : op.Accelerates) (s : Simulator device) :
    ∃ t, (op.procedure device).run s = .ok .done t ∧ t.acr.latency = s.acr.latency := by
  have kept : ∀ f : Contents .acr → Contents .acr, (∀ v, (f v).latency = v.latency) →
      (accelerated f s).acr.latency = s.acr.latency :=
    fun f keeps => (latency_set _ .artrst false).trans (keeps s.acr)
  cases op with
  | setPrefetch on =>
    obtain ⟨later, run⟩ := (updateAccess_completes (·.set .prften on) s).silent s.events
    exact ⟨_, run, kept (·.set .prften on) fun v => latency_set v .prften on⟩
  | setAccelerator on =>
    obtain ⟨later, run⟩ := (updateAccess_completes (·.set .arten on) s).silent s.events
    exact ⟨_, run, kept (·.set .arten on) fun v => latency_set v .arten on⟩
  | resetAccelerator =>
    obtain ⟨later, run⟩ := (resetAccelerator_completes s).silent s.events
    exact ⟨_, run, kept id fun _ => rfl⟩
  | _ => exact absurd accelerates id

theorem setWaitStates_waits {n : UInt8} (small : n.toNat < 16) (s : Simulator device) :
    ∃ t, (Procedure.setWaitStates n).run s = .ok () t ∧ Waits n.toNat t := by
  obtain ⟨later, run⟩ := setWaitStates_completes n s s.events
  refine ⟨_, run, waits_iff.mpr ?_⟩
  exact (latency_set (s.acr.setLatency n.toNat) .artrst false).trans (latency_setLatency small)

/-- A run of prefetch and accelerator operations completes, with the same wait states all along. -/
theorem accelerates_waits {n : Nat} (waits : Waits n s)
    (accelerates : ∀ op ∈ ops, op.Accelerates) :
    let course := (Script.ofList ops).play device id s
    course.halt = none ∧ (∀ e ∈ course.entries, Waits n e.seen) ∧ Waits n course.final := by
  intro course
  have told : Recounts (fun _ => Waits n) (fun _ => Waits n) (fun _ _ => False) []
      (Script.ofList ops).steps course := by
    apply Script.play_recounts
    · intro _ t waits
      have same : t.acr.latency = n := waits_iff.mp waits
      exact waits_iff.mpr same
    · exact fun _ _ => id
    · intro x member past t waits
      obtain ⟨op, here, rfl⟩ := step_ofList member
      obtain ⟨u, run, kept⟩ := accelerates_completes (accelerates op here) t
      have act : (.operate op : Step Control).act device t = .ok .done u := run
      rw [act]
      exact waits_iff.mpr (kept.trans (waits_iff.mp waits))
    · exact waits
  have whole : course.halt = none := by
    cases ended : course.halt with
    | none => rfl
    | some h => exact absurd (told.halted h ended).2 id
  refine ⟨whole, fun e member => ?_, (told.whole whole).2⟩
  obtain ⟨k, found⟩ := List.getElem?_of_mem member
  exact told.entries k e found

end Simulator

/-- There are four supply ranges. A clock has wait states just when its supply range allows it, and
then as few as serve it. They follow the clock up and the voltage down. Once they are set on a
controller in any state, exactly that number is read back, and so it is behind any prefetch and
accelerator operations. -/
theorem wait_states_least :
    (∀ millivolts range, SupplyRange.ofMillivolts? millivolts = some range ↔
      2700 ≤ millivolts ∧ millivolts ≤ 3600 ∧ range = ⟨30000000, 216000000⟩ ∨
      2400 ≤ millivolts ∧ millivolts ≤ 2699 ∧ range = ⟨24000000, 216000000⟩ ∨
      2100 ≤ millivolts ∧ millivolts ≤ 2399 ∧ range = ⟨22000000, 216000000⟩ ∨
      1800 ≤ millivolts ∧ millivolts ≤ 2099 ∧ range = ⟨20000000, 180000000⟩) ∧
    (∀ clock millivolts, (∃ n, waitStates? clock millivolts = some n) ↔
      1800 ≤ millivolts ∧ millivolts ≤ 3600 ∧
        ∃ range, SupplyRange.ofMillivolts? millivolts = some range ∧ clock ≤ range.maxClock) ∧
    (∀ clock millivolts n, waitStates? clock millivolts = some n →
      ∃ range, SupplyRange.ofMillivolts? millivolts = some range ∧ range.Serves clock n.toNat) ∧
    (∀ clock slower millivolts n, waitStates? clock millivolts = some n → slower ≤ clock →
      ∃ m, waitStates? slower millivolts = some m ∧ m ≤ n) ∧
    (∀ clock millivolts higher n, waitStates? clock millivolts = some n → millivolts ≤ higher →
      higher ≤ 3600 → ∃ m, waitStates? clock higher = some m ∧ m ≤ n) ∧
    ∀ clock millivolts n, waitStates? clock millivolts = some n →
      ∀ (device : Device) (s : Simulator device), ∃ t,
        (Procedure.setWaitStates n).run s = .ok () t ∧ Simulator.Waits n.toNat t ∧
        ∀ ops : List Operation, (∀ op ∈ ops, op.Accelerates) →
          let course := (Script.ofList ops).play device id t
          course.halt = none ∧ (∀ e ∈ course.entries, Simulator.Waits n.toNat e.seen) ∧
            Simulator.Waits n.toNat course.final := by
  refine ⟨fun _ _ => SupplyRange.ofMillivolts?_eq_some_iff, fun clock millivolts => ?_, ?_, ?_, ?_,
    ?_⟩
  · constructor
    · intro found
      obtain ⟨range, supplied, slow⟩ := exists_waitStates?_iff.mp found
      obtain ⟨low, high⟩ := SupplyRange.exists_ofMillivolts?_iff.mp ⟨range, supplied⟩
      exact ⟨low, high, range, supplied, slow⟩
    · rintro ⟨_, _, served⟩
      exact exists_waitStates?_iff.mpr served
  · intro clock millivolts n found
    obtain ⟨range, supplied, _, serves⟩ := waitStates?_eq_some_iff.mp found
    exact ⟨range, supplied, serves⟩
  · intro clock slower millivolts n found le
    obtain ⟨range, supplied, _⟩ := waitStates?_eq_some_iff.mp found
    obtain ⟨_, high⟩ := SupplyRange.exists_ofMillivolts?_iff.mp ⟨range, supplied⟩
    exact waitStates?_mono found le (Nat.le_refl _) high
  · intro clock millivolts higher n found le bound
    exact waitStates?_mono found (Nat.le_refl _) le bound
  · intro clock millivolts n found device s
    obtain ⟨t, run, waits⟩ := Simulator.setWaitStates_waits (waitStates?_lt found) s
    exact ⟨t, run, waits, fun ops accelerates => Simulator.accelerates_waits waits accelerates⟩

/-- The highest clock of the lowest supply range, on a busy controller that had every bit of its
access control set. -/
theorem wait_states_least_at_top :
    let s : Simulator .generic := { Simulator.new .generic with acr := ⟨0xFFFFFFFF⟩, busy := 5 }
    waitStates? 180000000 2099 = some 8 ∧
      (∃ range, SupplyRange.ofMillivolts? 2099 = some range ∧ range.Serves 180000000 8) ∧
      (∃ m, waitStates? 160000000 2099 = some m ∧ m ≤ 8) ∧
      (∃ m, waitStates? 180000000 3600 = some m ∧ m ≤ 8) ∧
      ∃ t, (Procedure.setWaitStates 8).run s = .ok () t ∧ Simulator.Waits 8
        ((Script.ofList [.resetAccelerator, .setPrefetch true]).play .generic id t).final := by
  intro s
  have found : waitStates? 180000000 2099 = some 8 := by decide
  obtain ⟨_, _, least, slower, higher, sets⟩ := wait_states_least
  obtain ⟨t, run, _, kept⟩ := sets _ _ _ found .generic s
  have accelerates : ∀ op ∈ [Operation.resetAccelerator, .setPrefetch true], op.Accelerates := by
    simp [Operation.Accelerates]
  exact ⟨found, least _ _ _ found, slower _ _ _ _ found (by decide),
    higher _ _ _ _ found (by decide) (by decide), t, run, (kept _ accelerates).2.2⟩

end FlashController
