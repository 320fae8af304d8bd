import FlashController.Proofs.Parts
import FlashController.Proofs.Recorder.Notes

/-! Programming a block in wide words covers its range. The stores of a run that completes lie one
after the other, each aligned, set up for its own width and no wider than allowed, and the data is
what they store. In single bytes nothing tells the run from programming the block byte by byte. -/
namespace FlashController.Recorder

/-- Directly before came a write that enables programming, and before that, with no store between
the two, one that sets the width. -/
def Enabled (w : Width) (older : List Event) : Prop :=
  ∃ v u between oldest, older = .write .cr u :: (between ++ .write .cr v :: oldest) ∧
    v.programWidth = w ∧ u.has .pg = true ∧ stores between = []

/-- A log covers the range of some data from an address on. -/
structure Covers (a : Address) (data : List UInt8) (limit : Width) (log : List Event) : Prop where
  adjoining : Adjoining a.toNat (stores log) (a.toNat + data.length)
  aligned : ∀ b w, (b, w) ∈ stores log → b.toNat % w.width.bytes = 0
  limited : ∀ b w, (b, w) ∈ stores log → w.width ≤ limit
  enabled : ∀ later b w older, log = later ++ .store b w :: older → Enabled w.width older
  bytes : (stores log).flatMap (·.2.bytes) = data

section Stores
variable {a stop : Address} {words : List Word} {older log : List Event}

theorem Adjoining.aligned {start stop : Nat} {laid : List (Address × Word)}
    (h : Adjoining start laid stop) (aligned : Aligned start (laid.map Prod.snd)) :
    ∀ b w, (b, w) ∈ laid → b.toNat % w.width.bytes = 0 := by
  induction laid generalizing start with
  | nil => exact fun _ _ member => absurd member List.not_mem_nil
  | cons first rest ih =>
    obtain ⟨rfl, later⟩ := h
    intro b w member
    rcases List.mem_cons.mp member with rfl | old
    · exact aligned.1
    · exact ih later aligned.2 b w old

theorem Adjoining.stop_eq {start stop : Nat} {laid : List (Address × Word)}
    (h : Adjoining start laid stop) :
    stop = start + (laid.flatMap (·.2.bytes)).length := by
  induction laid generalizing start with
  | nil => exact Eq.symm h
  | cons first rest ih =>
    rw [ih h.2, List.flatMap_cons, List.length_append, Word.length_bytes, Nat.add_assoc]

/-- Every store so far was set up. -/
def AllEnabled (log : List Event) : Prop :=
  ∀ later b w older, log = later ++ .store b w :: older → Enabled w.width older

theorem allEnabled_nil : AllEnabled [] := by
  intro later b w older same
  simp at same

theorem AllEnabled.cons {e : Event} (h : AllEnabled log)
    (here : ∀ b w, e.store? = some (b, w) → Enabled w.width log) : AllEnabled (e :: log) := by
  intro later b w older same
  cases later with
  | nil =>
    cases same
    exact here b w rfl
  | cons f rest =>
    cases same
    exact h rest b w older rfl

theorem AllEnabled.other {e : Event} (h : AllEnabled log) (none : e.store? = none) :
    AllEnabled (e :: log) :=
  h.cons fun _ _ same => absurd (none.symm.trans same) nofun

theorem AllEnabled.waited {later : List Event} (h : AllEnabled log) (waits : Waiting later) :
    AllEnabled (later ++ log) := by
  induction later with
  | nil => exact h
  | cons e rest ih =>
    obtain ⟨wait, waits⟩ := List.forall_mem_cons.mp waits
    exact (ih waits).other (Event.store?_of_waits wait)

theorem Programmed.enabled {w : Word} (here : Programmed a w older log) (h : AllEnabled older) :
    AllEnabled log := by
  obtain ⟨v, u, x, waits, waits'⟩ := here
  have setUp := ((((h.waited waits).other (e := .read .cr v) rfl).other
    (e := .write .cr (v.setProgramWidth w.width)) rfl).other (e := .read .cr u) rfl).other
    (e := .write .cr (u.set .pg true)) rfl
  refine ((AllEnabled.waited (setUp.cons ?_) waits').other rfl).other rfl
  rintro _ _ ⟨⟩
  exact ⟨v.setProgramWidth w.width, u.set .pg true, [.read .cr u], _, rfl,
    v.programWidth_setProgramWidth _, u.has_set_self .pg true, rfl⟩

theorem Laid.enabled (h : Laid a words stop older log) (before : AllEnabled older) :
    AllEnabled log := by
  induction h with
  | nil => exact before
  | cons here _ _ ih => exact ih (here.enabled before)

end Stores

/-- A run that completes has covered the range of its data, which therefore ends inside the address
space; with words of one byte it takes the same course as programming byte by byte. -/
theorem programBlockWide_covers {s t : Recorder} {a : Address} {data : List UInt8} {limit : Width}
    (run : (Procedure.programBlockWide a data limit).run s = .ok () t) :
    (∃ log, t.events = log ++ s.events ∧ Covers a data limit log) ∧
      (limit = .x8 → (Procedure.programBlock a data).run s = .ok () t) := by
  obtain ⟨log, events, stop, laid⟩ :=
    (programWords_notes a (tile a.toNat data limit) [] rfl).of_ok run
  obtain ⟨stored, same, words, adjoining⟩ := laid.stores
  rw [stores] at same
  obtain rfl : stores log = stored := same
  have bytes : (stores log).flatMap (·.2.bytes) = data := by
    rw [← List.flatMap_map, words, bytes_tile]
  have ends := adjoining.stop_eq
  rw [bytes] at ends
  refine ⟨⟨log, events, ?_⟩, ?_⟩
  · constructor
    · exact ends ▸ adjoining
    · exact adjoining.aligned (words ▸ aligned_tile a.toNat data limit)
    · intro b w member
      exact width_tile_le (words ▸ List.mem_map_of_mem member)
    · exact laid.enabled allEnabled_nil
    · exact bytes
  · rintro rfl
    have start : a.advance? 0 = some a := Address.ofNat?_eq_some_iff.mpr rfl
    rw [Procedure.programBlock, Procedure.programBytes_eq start (ends ▸ stop.isLt), ← tile_x8 a.toNat]
    exact run

/-- Seven bytes from an odd address on, with a busy status to begin with and reads of the control
register that have nothing to do with what was written. -/
theorem programBlockWide_covers_odd :
    let queued : Bank fun r => List (Contents r) :=
      ⟨[⟨0⟩, ⟨0x304⟩], [⟨0x10000⟩, ⟨0⟩], [], []⟩
    let s : Recorder := ⟨⟨⟨0xFFFFFFFF⟩, ⟨0⟩, ⟨0⟩, ⟨0⟩⟩, queued, []⟩
    let a : Address := ⟨0x08000001, by decide⟩
    let data : List UInt8 := [1, 2, 3, 4, 5, 6, 7]
    ∃ t, (Procedure.programBlockWide a data .x64).run s = .ok () t ∧
      (stores t.events).map (·.2.width) = [.x8, .x16, .x32] ∧ Covers a data .x64 t.events := by
  intro queued s a data
  have widths : (stores (leaves (Procedure.programBlockWide a data .x64).run s).events).map
      (·.2.width) = [.x8, .x16, .x32] := by decide +kernel
  have whole : (match (Procedure.programBlockWide a data .x64).run s with
      | .ok _ _ => true
      | .error _ _ => false) = true := by decide +kernel
  cases run : (Procedure.programBlockWide a data .x64).run s with
  | error e t =>
    rw [run] at whole
    contradiction
  | ok _ t =>
    obtain ⟨⟨log, events, covers⟩, _⟩ := programBlockWide_covers run
    rw [List.append_nil] at events
    exact ⟨t, rfl, leaves_ok run ▸ widths, events ▸ covers⟩

end FlashController.Recorder

