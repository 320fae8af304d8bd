import FlashController.Register

/-! Flash wait states: how many extra clock cycles a read takes. The access control register holds
their number, and the clock and the supply voltage decide it. -/
namespace FlashController

/-- Number of wait states. -/
def Field.latency : Field .acr := ⟨0, 4, by decide⟩

namespace Contents

def latency (v : Contents .acr) : Nat := v.field Field.latency

def setLatency (v : Contents .acr) (n : Nat) : Contents .acr := v.setField Field.latency n

end Contents

/-- What one supply voltage range allows, in hertz. -/
structure SupplyRange where
  perWaitState : Nat
  maxClock : Nat

def SupplyRange.ofMillivolts? (millivolts : Nat) : Option SupplyRange :=
  if 2700 ≤ millivolts ∧ millivolts ≤ 3600 then some ⟨30000000, 216000000⟩
  else if 2400 ≤ millivolts ∧ millivolts ≤ 2699 then some ⟨24000000, 216000000⟩
  else if 2100 ≤ millivolts ∧ millivolts ≤ 2399 then some ⟨22000000, 216000000⟩
  else if 1800 ≤ millivolts ∧ millivolts ≤ 2099 then some ⟨20000000, 180000000⟩
  else none

/-- A range's clock limit for `n` wait states is itself served with `n`: hence the clock less one
is divided. -/
def waitStates? (clock millivolts : Nat) : Option UInt8 := do
  let range ← SupplyRange.ofMillivolts? millivolts
  if clock ≤ range.maxClock then some (UInt8.ofNat ((clock - 1) / range.perWaitState)) else none

end FlashController
