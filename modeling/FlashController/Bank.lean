import FlashController.Register

/-! One thing for each register, of a type that may depend on the register. -/
namespace FlashController

structure Bank (α : Register → Type) where
  cr : α .cr
  sr : α .sr
  acr : α .acr
  optcr : α .optcr

namespace Bank

def get (bank : Bank α) : (r : Register) → α r
  | .cr => bank.cr
  | .sr => bank.sr
  | .acr => bank.acr
  | .optcr => bank.optcr

def put (bank : Bank α) : (r : Register) → α r → Bank α
  | .cr, a => { bank with cr := a }
  | .sr, a => { bank with sr := a }
  | .acr, a => { bank with acr := a }
  | .optcr, a => { bank with optcr := a }

theorem get_put_self (bank : Bank α) (r : Register) (a : α r) : (bank.put r a).get r = a := by
  cases r <;> rfl

theorem get_put_of_ne {bank : Bank α} {r q : Register} {a : α r} (h : q ≠ r) :
    (bank.put r a).get q = bank.get q := by
  cases r <;> cases q <;> simp_all [get, put]

end Bank

end FlashController
