import FlashController.Machine.Mapped
import FlashController.Machine.Recorder

/-! Logs of a recorder, replayed on plain words. Each word ends as the last one that the log has for
it, and so does each byte of the window. Logs are newest first, as the recorder keeps them. -/
namespace FlashController

namespace Recorder.Event

/-- What was written to the status register. -/
def status? : Event → Option (Contents .sr)
  | .write .sr v => some v
  | _ => none

/-- What was written to the key register of a domain. -/
def key? (d : Domain) : Event → Option (BitVec 32)
  | .key e k => if e = d then some k else none
  | _ => none

/-- What was stored at an address. -/
def byte? (address : Nat) : Event → Option UInt8
  | .store a w => if a.toNat ≤ address then w.bytes[address - a.toNat]? else none
  | _ => none

def isBarrier : Event → Bool
  | .barrier => true
  | _ => false

end Recorder.Event

namespace Mapped
open Recorder (Event)

def mirror : Event → Mapped → Mapped
  | .read _ _, m => m
  | .write r v, m => m.writeRegister r v
  | .key d k, m => m.writeKey d k
  | .barrier, m => { m with barriers := m.barriers + 1 }
  | .store a w, m => storeBytes a w m

def replay (log : List Event) (m : Mapped) : Mapped := log.foldr mirror m

/-- The last thing that a log has, or what was there before. -/
def latest (pick : Event → Option α) (log : List Event) (before : α) : α :=
  (log.findSome? pick).getD before

def key (m : Mapped) : Domain → BitVec 32
  | .main => m.mainKey
  | .optionBytes => m.optionKey

/-- All that is stored lies in the window. -/
def Inside (log : List Event) : Prop := ∀ a w, .store a w ∈ log → InWindow a w.width

section
variable {log later : List Event} {e : Event} {m : Mapped}

theorem replay_append (later log : List Event) (m : Mapped) :
    replay (later ++ log) m = replay later (replay log m) := List.foldr_append

theorem Inside.append (first : Inside log) (second : Inside later) : Inside (later ++ log) :=
  fun a w member => (List.mem_append.mp member).elim (second a w) (first a w)

/-- What every event replaces or leaves is in the end the last thing of the log. -/
theorem replay_latest (get : Mapped → α) (pick : Event → Option α)
    (step : ∀ e m, get (mirror e m) = (pick e).getD (get m)) (log : List Event) (m : Mapped) :
    get (replay log m) = latest pick log (get m) := by
  induction log with
  | nil => rfl
  | cons e rest ih =>
    refine (step e (replay rest m)).trans ?_
    rw [ih, latest, latest, List.findSome?_cons]
    cases pick e <;> rfl

/-- What an event does to each of the words. -/
theorem mirror_eq (e : Event) (m : Mapped) : ∃ acr cr optcr window,
    mirror e m = { m with
      acr, cr, optcr, window
      mainKey := (e.key? .main).getD m.mainKey
      optionKey := (e.key? .optionBytes).getD m.optionKey
      sr := (e.status?.map (·.raw &&& stickyMask)).getD m.sr
      barriers := m.barriers + if e.isBarrier then 1 else 0 } ∧
      window.size = m.window.size := by
  cases e with
  | write r v => cases r <;> exact ⟨_, _, _, _, rfl, rfl⟩
  | key d k => cases d <;> exact ⟨_, _, _, _, rfl, rfl⟩
  | store a w => exact ⟨_, _, _, _, rfl, m.window.size_merge _ _ _⟩
  | read | barrier => exact ⟨_, _, _, _, rfl, rfl⟩

theorem key_replay (d : Domain) (log : List Event) (m : Mapped) :
    (replay log m).key d = latest (·.key? d) log (m.key d) := by
  refine replay_latest (key · d) _ (fun e m => ?_) log m
  obtain ⟨_, _, _, _, same, _⟩ := mirror_eq e m
  rw [same]
  cases d <;> rfl

theorem sr_replay (log : List Event) (m : Mapped) :
    (replay log m).sr = latest (·.status?.map (·.raw &&& stickyMask)) log m.sr := by
  refine replay_latest sr _ (fun e m => ?_) log m
  obtain ⟨_, _, _, _, same, _⟩ := mirror_eq e m
  rw [same]

theorem optcr1_replay (log : List Event) (m : Mapped) : (replay log m).optcr1 = m.optcr1 := by
  induction log with
  | nil => rfl
  | cons e rest ih =>
    obtain ⟨_, _, _, _, same, _⟩ := mirror_eq e (replay rest m)
    exact (congrArg optcr1 same).trans ih

theorem size_replay (log : List Event) (m : Mapped) :
    (replay log m).window.size = m.window.size := by
  induction log with
  | nil => rfl
  | cons e rest ih =>
    obtain ⟨_, _, _, _, same, size⟩ := mirror_eq e (replay rest m)
    exact (congrArg (·.window.size) same).trans (size.trans ih)

theorem barriers_replay (log : List Event) (m : Mapped) :
    (replay log m).barriers = m.barriers + log.countP (·.isBarrier) := by
  induction log with
  | nil => rfl
  | cons e rest ih =>
    obtain ⟨_, _, _, _, same, _⟩ := mirror_eq e (replay rest m)
    rw [List.countP_cons, ← Nat.add_assoc, ← ih]
    exact congrArg barriers same

/-- A store replaces the bytes that it covers. -/
theorem get?_mirror (inside : ∀ a w, e = .store a w → InWindow a w.width) (m : Mapped) (i : Nat) :
    (mirror e m).window.get? i =
      (m.window.get? i).map fun old => (e.byte? (flashStart + i)).getD old := by
  cases e with
  | write r v => cases r <;> simp [mirror, writeRegister, Event.byte?]
  | key d k => cases d <;> simp [mirror, writeKey, Event.byte?]
  | read | barrier => simp [mirror, Event.byte?]
  | store a w =>
    have low := (inside a w rfl).1
    have same : flashStart + i - a.toNat = i - (a.toNat - flashStart) := by omega
    simp only [mirror, storeBytes, Memory.get?_merge, Event.byte?, same]
    by_cases above : a.toNat ≤ flashStart + i
    · rw [if_pos above, if_pos (by omega)]
      cases w.bytes[i - (a.toNat - flashStart)]? <;> simp
    · rw [if_neg above, if_neg (by omega)]
      simp

theorem get?_replay (inside : Inside log) (m : Mapped) (i : Nat) :
    (replay log m).window.get? i =
      (m.window.get? i).map (latest (·.byte? (flashStart + i)) log) := by
  induction log with
  | nil => exact (Option.map_id_apply ..).symm
  | cons e rest ih =>
    have here : ∀ a w, e = .store a w → InWindow a w.width :=
      fun a w same => inside a w (same ▸ List.mem_cons_self)
    refine (get?_mirror here (replay rest m) i).trans ?_
    rw [ih fun a w member => inside a w (List.mem_cons_of_mem e member), Option.map_map]
    refine congrFun (congrArg _ (funext fun old => ?_)) _
    simp only [Function.comp, latest, List.findSome?_cons]
    cases e.byte? (flashStart + i) <;> rfl

/-- The number of barriers has no influence on anything else. -/
theorem settle_mirror (e : Event) (m : Mapped) :
    (Machine.settle (mirror e (Machine.settle m)) : Mapped) = Machine.settle (mirror e m) := by
  cases e with
  | write r v => cases r <;> rfl
  | key d k => cases d <;> rfl
  | read | barrier | store => rfl

theorem settle_replay (log : List Event) (m : Mapped) :
    (Machine.settle (replay log (Machine.settle m)) : Mapped) = Machine.settle (replay log m) := by
  induction log with
  | nil => rfl
  | cons e rest ih =>
    show Machine.settle (mirror e (replay rest (Machine.settle m))) = _
    rw [← settle_mirror, ih, settle_mirror]
    rfl

end
end Mapped
end FlashController
