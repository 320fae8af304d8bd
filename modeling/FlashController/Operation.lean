import FlashController.Procedure.Control
import FlashController.Procedure.Programming
import FlashController.Reply

/-! The operations of the driver as data, each with its procedure. -/
namespace FlashController

inductive Operation
  | waitUntilIdle
  | pollIdle
  | lock (d : Domain)
  | unlock (d : Domain)
  | isLocked (d : Domain)
  | ensureUnlocked (d : Domain)
  | eraseAll (w : Width)
  | eraseSector (n : UInt8) (w : Width)
  | program (a : Address) (w : Word)
  | programBlock (a : Address) (data : List UInt8)
  | programBlockWide (a : Address) (data : List UInt8) (limit : Width)
  | programOptionBytes (v : Contents .optcr)
  | optionBytes
  | status
  | clear (c : Clearable)
  | clearStatus
  | setWaitStates (n : UInt8)
  | setPrefetch (on : Bool)
  | setAccelerator (on : Bool)
  | resetAccelerator

def Operation.procedure (device : Device) : Operation → Procedure Reply
  | .waitUntilIdle => silent .waitUntilIdle
  | .pollIdle => .idle <$> .pollIdle
  | .lock d => silent (.lock d)
  | .unlock d => silent (.unlock d)
  | .isLocked d => .locked <$> .isLocked d
  | .ensureUnlocked d => .unlocked <$> .ensureUnlocked d
  | .eraseAll w => silent (.eraseAll w)
  | .eraseSector n w => silent (.eraseSector device n w)
  | .program a w => silent (.program a w)
  | .programBlock a data => silent (.programBlock a data)
  | .programBlockWide a data limit => silent (.programBlockWide a data limit)
  | .programOptionBytes v => silent (.programOptionBytes v)
  | .optionBytes => .parts .optcr <$> .optionBytes
  | .status => .parts .sr <$> .status
  | .clear c => silent (.clear c)
  | .clearStatus => silent .clearStatus
  | .setWaitStates n => silent (.setWaitStates n)
  | .setPrefetch on => silent (.setPrefetch on)
  | .setAccelerator on => silent (.setAccelerator on)
  | .resetAccelerator => silent .resetAccelerator
where
  silent (p : Procedure Unit) : Procedure Reply := (fun _ => .done) <$> p

end FlashController
