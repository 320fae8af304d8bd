import FlashController.Bank
import FlashController.Machine

/-! A recorder: registers that keep what is written to them, and a log of every access. Reads can
be answered from queues instead, so a log can be taken of any behaviour of a controller. -/
namespace FlashController

inductive Recorder.Event
  | read (r : Register) (v : Contents r)
  | write (r : Register) (v : Contents r)
  | key (d : Domain) (k : BitVec 32)
  | barrier
  | store (a : Address) (w : Word)

structure Recorder where
  stored : Bank Contents
  /-- Answers to coming reads, the next one first. -/
  queued : Bank fun r => List (Contents r)
  /-- Newest first. -/
  events : List Recorder.Event

namespace Recorder

def start (stored : Bank Contents) : Recorder where
  stored := stored
  queued := ⟨[], [], [], []⟩
  events := []

def Event.isRead (r : Register) : Event → Bool
  | .read q _ => q == r
  | _ => false

/-- Reads of a register with nothing between them, counted back from the newest event. -/
def streak (r : Register) (events : List Event) : Nat :=
  (events.takeWhile (Event.isRead r)).length

/-- Longest streak. One more read would be part of an endless wait. -/
def maxStreak : Nat := 64

def note (e : Event) (s : Recorder) : Recorder :=
  { s with events := e :: s.events }

/-- Takes the next queued answer, or the stored contents when there is none. -/
def answer (r : Register) (s : Recorder) : Contents r × Recorder :=
  match s.queued.get r with
  | [] => (s.stored.get r, note (.read r (s.stored.get r)) s)
  | v :: rest => (v, note (.read r v) { s with queued := s.queued.put r rest })

/-- A write of ones to the status register clears. -/
def kept : (r : Register) → (old new : Contents r) → Contents r
  | .sr, old, new => ⟨old.raw &&& ~~~new.raw⟩
  | _, _, new => new

def keep (r : Register) (v : Contents r) (s : Recorder) : Recorder :=
  { s with stored := s.stored.put r (kept r (s.stored.get r) v) }

def perform : (a : Access) → MachineM Recorder a.Answer
  | .read r => do
    unless streak r (← get).events < maxStreak do throw .stuck
    modifyGet (answer r)
  | .write r v => modify fun s => note (.write r v) (keep r v s)
  | .key d k => modify (note (.key d k))
  | .barrier => modify (note .barrier)
  | .store a w => modify (note (.store a w))

inductive Control
  /-- Queues further answers. -/
  | enqueue (r : Register) (answers : List (Contents r))
  /-- Replaces the stored contents, without an event. -/
  | replace (r : Register) (v : Contents r)

def control : Control → MachineM Recorder Reply
  | .enqueue r answers => do
    modify fun s => { s with queued := s.queued.put r (s.queued.get r ++ answers) }
    return .done
  | .replace r v => do
    modify fun s => { s with stored := s.stored.put r v }
    return .done

instance : Machine Recorder where
  perform := perform
  patience _ := maxStreak + 1
  settle s := { s with events := [] }
  Control := Control
  control := control

end Recorder
end FlashController
