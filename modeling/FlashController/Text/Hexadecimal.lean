/-! Hexadecimal text: numbers behind `0x`, bytes as digit pairs. Only the canonical spelling is
read, lower case and without leading zeros, so every number and byte string has one text. -/
namespace FlashController.Hexadecimal

def digit? (c : Char) : Option Nat :=
  if '0' ≤ c ∧ c ≤ '9' then some (c.toNat - '0'.toNat)
  else if 'a' ≤ c ∧ c ≤ 'f' then some (c.toNat - 'a'.toNat + 10)
  else none

def render (n : Nat) : String :=
  String.ofList ('0' :: 'x' :: Nat.toDigits 16 n)

/-- The prefix stays in lower case. -/
def renderUpper (n : Nat) : String :=
  String.ofList ('0' :: 'x' :: (Nat.toDigits 16 n).map Char.toUpper)

def value? (digits : List Char) : Option Nat :=
  digits.foldlM (fun n c => (digit? c).map (16 * n + ·)) 0

def read? (text : String) : Option Nat :=
  match text.toList with
  | ['0', 'x', '0'] => some 0
  | '0' :: 'x' :: c :: rest => if c = '0' then none else value? (c :: rest)
  | _ => none

def renderByte (b : UInt8) : List Char :=
  [Nat.digitChar (b.toNat / 16), Nat.digitChar (b.toNat % 16)]

def renderBytes (bytes : List UInt8) : String :=
  String.ofList (bytes.flatMap renderByte)

def bytes? : List Char → Option (List UInt8)
  | [] => some []
  | [_] => none
  | high :: low :: rest => do
    let h ← digit? high
    let l ← digit? low
    return UInt8.ofNat (16 * h + l) :: (← bytes? rest)

def readBytes? (text : String) : Option (List UInt8) :=
  bytes? text.toList

end FlashController.Hexadecimal
