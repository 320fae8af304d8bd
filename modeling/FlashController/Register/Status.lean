import FlashController.Register

/-! Status register: sticky flags, each cleared by writing a one to it, and the busy flag. -/
namespace FlashController

/-- Errors that the flags report, and the refusal of a locked register domain, for which there is no
flag. -/
inductive FlashError
  | programming | alignment | writeProtection | eraseSequence | locked
  deriving DecidableEq, Repr

def FlashError.message : FlashError → String
  | .programming => "programming error"
  | .alignment => "programming alignment error"
  | .writeProtection => "write protection error"
  | .eraseSequence => "erase sequence error"
  | .locked => "flash register domain is locked"

/-- The flags that a write of ones clears. The busy flag is not among them. -/
def stickyMask : BitVec 32 :=
  maskOf [Flag.eop, .operr, .wrperr, .pgaerr, .pgperr, .erserr, .rderr]

/-- The flags that are cleared one by one. -/
inductive Clearable
  | pgperr | pgaerr | wrperr | erserr | eop
  deriving DecidableEq, Repr

def Clearable.flag : Clearable → Flag .sr
  | .pgperr => .pgperr
  | .pgaerr => .pgaerr
  | .wrperr => .wrperr
  | .erserr => .erserr
  | .eop => .eop

namespace Contents

def hasError (v : Contents .sr) : Bool :=
  v.raw &&& maskOf [.wrperr, .pgaerr, .pgperr, .erserr] != 0

/-- The first error in order of precedence. The operation and the read protection error belong to
no programming or erase, and are left out. -/
def error? (v : Contents .sr) : Option FlashError :=
  if v.has .wrperr then some .writeProtection
  else if v.has .pgaerr then some .alignment
  else if v.has .pgperr then some .programming
  else if v.has .erserr then some .eraseSequence
  else none

end Contents
end FlashController
