import FlashController.Proofs.Mapped.Mirroring
import FlashController.Proofs.Steps

/-! Scripts on plain words, beside the same scripts on a recorder. Between any two steps the words
are what the log so far makes of those at the start. -/
namespace FlashController

namespace Operation
open Mapped

instance : (op : Operation) → Decidable op.Fits
  | .program a w => inferInstanceAs (Decidable (Within a w.width.bytes))
  | .programBlock a data | .programBlockWide a data _ =>
    inferInstanceAs (Decidable (data ≠ [] → Within a data.length))
  | .waitUntilIdle | .pollIdle | .lock _ | .unlock _ | .isLocked _ | .ensureUnlocked _
  | .eraseAll _ | .eraseSector _ _ | .programOptionBytes _ | .optionBytes | .status | .clear _
  | .clearStatus | .setWaitStates _ | .setPrefetch _ | .setAccelerator _ | .resetAccelerator =>
    inferInstanceAs (Decidable True)

end Operation

/-- All that a script stores lies in the window. -/
def Script.Fits : Script → Prop
  | .done => True
  | .step op rest => op.Fits ∧ rest.Fits
  | .guarded body rest => body.Fits ∧ rest.Fits

instance Script.decidableFits : (script : Script) → Decidable script.Fits
  | .done => inferInstanceAs (Decidable True)
  | .step op rest =>
    have := decidableFits rest
    inferInstanceAs (Decidable (op.Fits ∧ rest.Fits))
  | .guarded body rest =>
    have := decidableFits body
    have := decidableFits rest
    inferInstanceAs (Decidable (body.Fits ∧ rest.Fits))

namespace Mapped
open Recorder (Event)

/-- The logs of all steps as one, newest first. -/
def wholeLog (entries : List (Entry (List Event))) : List Event :=
  (entries.map Entry.seen).reverse.flatten

/-- A recorder and plain words between two steps. -/
structure Abreast (s : Recorder) (m : Mapped) : Prop where
  fresh : s.events = []
  tracks : Tracks 0 m s
  uncounted : m.barriers = 0

/-- Steps from some plain words and a recorder abreast of them, with what was seen after each on
either side, to where both are then. -/
structure Shadows (m : Mapped) (entries : List (Entry (List Event))) (shadow : List (Entry Nat))
    (t : Recorder) (u : Mapped) : Prop where
  abreast : Abreast t u
  replayed : u = Machine.settle (replay (wholeLog entries) m)
  barriers : shadow.map Entry.seen = entries.map fun e => e.seen.countP (·.isBarrier)
  inside : Inside (wholeLog entries)

/-- Courses of which neither was halted. -/
structure Shadowed (m : Mapped) (course : Course Recorder (List Event))
    (shadow : Course Mapped Nat) : Prop where
  whole : course.halt = none
  shadow_whole : shadow.halt = none
  shadows : Shadows m course.entries shadow.entries course.final shadow.final

section
variable {s t : Recorder} {m u : Mapped} {n : Nat} {entries : List (Entry (List Event))}
  {shadow : List (Entry Nat)}

theorem settle_same (uncounted : m.barriers = 0) : (Machine.settle m : Mapped) = m := by
  cases m
  cases uncounted
  rfl

theorem Tracks.settle (h : Tracks n m t) :
    Abreast (Machine.settle t) (Machine.settle (replay t.events m)) where
  fresh := rfl
  uncounted := rfl
  tracks := {
    same := fun r other => (by cases r <;> rfl : _ = _).trans (h.same r other)
    idle := h.idle
    idle_word := h.idle_word
    unqueued := h.unqueued
    reads := fun _ => Nat.le_refl 0
    inside := nofun }

theorem Shadows.nil (h : Abreast s m) : Shadows m [] [] s m where
  abreast := h
  replayed := (settle_same h.uncounted).symm
  barriers := rfl
  inside := nofun

theorem Shadows.step (tracks : Tracks n m t) (uncounted : m.barriers = 0) (reply answer : Reply) :
    Shadows m [⟨reply, t.events⟩] [⟨answer, (replay t.events m).barriers⟩] (Machine.settle t)
      (Machine.settle (replay t.events m)) := by
  have log : wholeLog [⟨reply, t.events⟩] = t.events := List.append_nil _
  constructor
  · exact tracks.settle
  · rw [log]
  · rw [List.map_singleton, List.map_singleton, barriers_replay, uncounted, Nat.zero_add]
  · rw [log]
    exact tracks.inside

theorem Shadows.append {later : List (Entry (List Event))} {after : List (Entry Nat)}
    {t' : Recorder} {u' : Mapped} (first : Shadows m entries shadow t u)
    (second : Shadows u later after t' u') :
    Shadows m (entries ++ later) (shadow ++ after) t' u' := by
  have log : wholeLog (entries ++ later) = wholeLog later ++ wholeLog entries := by
    simp only [wholeLog, List.map_append, List.reverse_append, List.flatten_append]
  constructor
  · exact second.abreast
  · rw [second.replayed, first.replayed, settle_replay, log, replay_append]
  · rw [List.map_append, List.map_append, first.barriers, second.barriers]
  · rw [log]
    exact first.inside.append second.inside

theorem Shadowed.after {course : Course Recorder (List Event)} {other : Course Mapped Nat}
    (first : Shadows m entries shadow t u) (h : Shadowed u course other) :
    Shadowed m (course.after entries) (other.after shadow) :=
  ⟨h.whole, h.shadow_whole, first.append h.shadows⟩

/-- Two actions that complete side by side. -/
def ActsAlike (act : MachineM Recorder Reply) (other : MachineM Mapped Reply) : Prop :=
  ∀ s m, Abreast s m → ∃ n a b t, act s = .ok a t ∧ other m = .ok b (replay t.events m) ∧
    Tracks n m t

theorem Mirrors.alike {p : Procedure Reply} {R : Reply → Reply → Prop} (h : Mirrors 0 n R p p) :
    ActsAlike p.run p.run := by
  intro s m abreast
  obtain ⟨a, b, t, run, run', _, tracks⟩ := h m s abreast.tracks
  rw [abreast.fresh] at run'
  exact ⟨n, a, b, t, run, run', tracks⟩

theorem ActsAlike.andThen {act : MachineM Recorder Reply} {other : MachineM Mapped Reply}
    {next : Recorder → Course Recorder (List Event)} {following : Mapped → Course Mapped Nat}
    (alike : ActsAlike act other) (h : Abreast s m)
    (rest : ∀ t u, Abreast t u → Shadowed u (next t) (following u)) :
    Shadowed m ((playStep Recorder.events act s).andThen next)
      ((playStep Mapped.barriers other m).andThen following) := by
  obtain ⟨n, a, b, t, run, run', tracks⟩ := alike s m h
  rw [playStep_ok run, playStep_ok run', Course.andThen_whole rfl, Course.andThen_whole rfl]
  exact (rest _ _ tracks.settle).after (.step tracks h.uncounted a b)

section Steps
variable {device : Device}

theorem operate_alike {op : Operation} (fits : op.Fits) :
    ActsAlike (Step.act device (.operate op)) (Step.act device (.operate op)) := by
  obtain ⟨_, mirrors⟩ := operation_mirrors device fits
  exact mirrors.alike

theorem open_alike : ActsAlike (Step.act device .openGuard) (Step.act device .openGuard) := by
  have opens : Mirrors 0 0 Eq (Procedure.unlock .main >>= fun _ => pure Reply.opened) _ :=
    (unlock_mirrors (by decide) .main).bind fun _ _ _ => .result rfl
  have alike := opens.alike
  rwa [Procedure.run_bind, Procedure.run_bind] at alike

theorem close_alike : ActsAlike (Step.act device .closeGuard) (Step.act device .closeGuard) := by
  have closes : Mirrors 0 0 Eq (Procedure.lock .main >>= fun _ => pure Reply.closed) _ :=
    (lock_mirrors (by decide) .main).bind fun _ _ _ => .result rfl
  have alike := closes.alike
  rwa [Procedure.run_bind, Procedure.run_bind] at alike

/-- A guard that was not halted is closed by one more step. -/
theorem Shadowed.close {course : Course Recorder (List Event)} {other : Course Mapped Nat}
    {next : Recorder → Course Recorder (List Event)} {following : Mapped → Course Mapped Nat}
    (h : Shadowed m course other)
    (rest : ∀ t u, Abreast t u → Shadowed u (next t) (following u)) :
    Shadowed m ((closeGuard Recorder.events course).andThen next)
      ((closeGuard Mapped.barriers other).andThen following) := by
  rw [Course.closeGuard_whole .generic h.whole, Course.closeGuard_whole .generic h.shadow_whole,
    Course.followedBy_whole h.whole, Course.followedBy_whole h.shadow_whole,
    Course.after_andThen, Course.after_andThen]
  exact (close_alike.andThen h.shadows.abreast rest).after h.shadows

theorem play_shadowed {script : Script} (fits : script.Fits) (h : Abreast s m) :
    Shadowed m (script.play device Recorder.events s) (script.play device Mapped.barriers m) := by
  induction script generalizing s m with
  | done => exact ⟨rfl, rfl, .nil h⟩
  | step op rest ih => exact (operate_alike fits.1).andThen h fun _ _ => ih fits.2
  | guarded body rest body_ih rest_ih =>
    obtain ⟨n, a, b, t, opens, opens', tracks⟩ := open_alike s m h
    rw [Script.play_guarded opens, Script.play_guarded opens']
    have inside := (body_ih fits.1 tracks.settle).after (.step tracks h.uncounted a b)
    exact inside.close fun _ _ => rest_ih fits.2

end Steps
end

/-- Plain words that hold what a recorder starts with, in front of a window of one byte. -/
def start (stored : Bank Contents) (mainKey optionKey optcr1 : BitVec 32) (fill : UInt8) :
    Mapped where
  acr := stored.acr.raw
  mainKey := mainKey
  optionKey := optionKey
  sr := stored.sr.raw
  cr := stored.cr.raw
  optcr := stored.optcr.raw
  optcr1 := optcr1
  window := .filled windowSize fill
  barriers := 0

/-- Plain words in their last state, as the log and the end of a recorder have them. -/
structure Reflects (first : Mapped) (fill : UInt8) (log : List Event) (stored : Bank Contents)
    (last : Mapped) : Prop where
  cr : last.cr = stored.cr.raw
  acr : last.acr = stored.acr.raw
  optcr : last.optcr = stored.optcr.raw
  key : ∀ d, last.key d = latest (·.key? d) log (first.key d)
  sr : last.sr = latest (·.status?.map (·.raw &&& stickyMask)) log first.sr
  optcr1 : last.optcr1 = first.optcr1
  size : last.window.size = windowSize
  window : ∀ i, i < windowSize →
    last.window.get? i = some (latest (·.byte? (flashStart + i)) log fill)

theorem abreast_start {stored : Bank Contents} (idle : stored.sr.has .bsy = false)
    (mainKey optionKey optcr1 : BitVec 32) (fill : UInt8) :
    Abreast (.start stored) (start stored mainKey optionKey optcr1 fill) where
  fresh := rfl
  uncounted := rfl
  tracks := {
    same := fun r _ => by cases r <;> rfl
    idle := idle
    idle_word := idle
    unqueued := fun r => by cases r <;> rfl
    reads := fun _ => Nat.le_refl 0
    inside := nofun }

/-- A script whose stores fit the window is halted neither on a recorder nor on plain words, and the
words end as the recorder and its log have them, with as many barriers in every step. -/
theorem plain_words_follow (device : Device) {stored : Bank Contents}
    (idle : stored.sr.has .bsy = false) (mainKey optionKey optcr1 : BitVec 32) (fill : UInt8)
    {script : Script} (fits : script.Fits) :
    let first := start stored mainKey optionKey optcr1 fill
    let recorded := script.play device Recorder.events (.start stored)
    let plain := script.play device Mapped.barriers first
    recorded.halt = none ∧ plain.halt = none ∧ Inside (wholeLog recorded.entries) ∧
      (plain.entries.map Entry.seen =
        recorded.entries.map fun e => e.seen.countP (·.isBarrier)) ∧
      Reflects first fill (wholeLog recorded.entries) recorded.final.stored plain.final := by
  intro first recorded plain
  obtain ⟨whole, plain_whole, abreast, replayed, barriers, inside⟩ := play_shadowed
    fits (abreast_start idle mainKey optionKey optcr1 fill)
  have same : ∀ r, r ≠ .sr → plain.final.readRegister r = recorded.final.stored.get r := by
    intro r other
    have same := abreast.tracks.same r other
    rwa [abreast.fresh] at same
  refine ⟨whole, plain_whole, inside, barriers, ?_⟩
  constructor
  · exact congrArg Contents.raw (same .cr (by decide))
  · exact congrArg Contents.raw (same .acr (by decide))
  · exact congrArg Contents.raw (same .optcr (by decide))
  · intro d
    exact (congrArg (key · d) replayed).trans (key_replay d _ first)
  · exact (congrArg sr replayed).trans (sr_replay _ first)
  · exact (congrArg Mapped.optcr1 replayed).trans (optcr1_replay _ first)
  · have size : first.window.size = windowSize := Memory.size_filled _ _
    exact (congrArg (·.window.size) replayed).trans ((size_replay _ first).trans size)
  · intro i small
    have filled : first.window.get? i = some fill :=
      (Memory.get?_filled windowSize i fill).trans (if_pos small)
    refine (congrArg (·.window.get? i) replayed).trans ((get?_replay inside first i).trans ?_)
    rw [filled, Option.map_some]

/-- A word that is not aligned and a block over a part of it in a guard, new option bytes behind a
lock, and flags that are cleared. -/
theorem plain_words_follow_guarded :
    let stored : Bank Contents := ⟨⟨0x80000000⟩, ⟨0x000000F1⟩, ⟨0x00000307⟩, ⟨0xC0FFAAFD⟩⟩
    let script : Script := .guarded
      (.step (.program ⟨0x08000001, by decide⟩ (.ofBytes .x32 [0x78, 0x56, 0x34, 0x12]))
        (.step (.programBlockWide ⟨0x08000003, by decide⟩ [0xA5, 0x5A, 0x0F] .x16) .done))
      (.step (.programOptionBytes ⟨0xCFFFAAEC⟩) (.step .clearStatus (.step .status .done)))
    let first := start stored 0x11111111 0x22222222 0x33333333 0xFF
    let recorded := script.play .generic Recorder.events (.start stored)
    let plain := script.play .generic Mapped.barriers first
    stored.sr.has .bsy = false ∧ script.Fits ∧
      recorded.halt = none ∧ plain.halt = none ∧ Inside (wholeLog recorded.entries) ∧
      (plain.entries.map Entry.seen =
        recorded.entries.map fun e => e.seen.countP (·.isBarrier)) ∧
      Reflects first 0xFF (wholeLog recorded.entries) recorded.final.stored plain.final := by
  intro stored script first recorded plain
  have idle : stored.sr.has .bsy = false := by decide
  have fits : script.Fits := by decide
  exact ⟨idle, fits, plain_words_follow .generic idle 0x11111111 0x22222222 0x33333333 0xFF fits⟩

end Mapped
end FlashController
