import FlashController.Proofs.Simulator.Noting
import FlashController.Proofs.Simulator.Ordering
import FlashController.Proofs.Simulator.Update

/-! What programming a block writes. Every byte of the range is on its own: it is refused if its
sector is protected, and else clears bits in its cell. So the memory, the flags and the control
register after a call follow from those before it, however the range lies across the sectors. -/
namespace FlashController.Simulator
variable {device : Device}

/-- The flags that programming data at an offset raises: one for bytes that were accepted, one for
bytes that were refused, and one for bytes that had to set bits. -/
inductive Gains (offset : Nat) (data : List UInt8) (s : Simulator device) : Flag .sr → Prop
  | eop {i : Nat} {sector : Sector} (inside : i < data.length) (covers : sector.Covers (offset + i))
      (free : s.isProtected sector = false) : Gains offset data s .eop
  | wrperr {i : Nat} {sector : Sector} (inside : i < data.length)
      (covers : sector.Covers (offset + i)) (closed : s.isProtected sector = true) :
      Gains offset data s .wrperr
  | pgperr {i : Nat} {b old : UInt8} {sector : Sector} (here : data[i]? = some b)
      (covers : sector.Covers (offset + i)) (free : s.isProtected sector = false)
      (was : s.memory.get? (offset + i) = some old) (clear : old &&& b ≠ b) :
      Gains offset data s .pgperr

/-- A state after data was programmed at an address, told by the state before. -/
structure Written (a : Address) (data : List UInt8) (s t : Simulator device) : Prop where
  /-- A protected sector keeps its bytes, and in the others bits are cleared. -/
  bytes : ∀ i b, data[i]? = some b → ∃ (sector : Sector) (old : UInt8),
    sector.Covers (a.toNat - flashStart + i) ∧
      s.memory.get? (a.toNat - flashStart + i) = some old ∧
      t.memory.get? (a.toNat - flashStart + i) =
        some (if s.isProtected sector then old else old &&& b)
  outside : ∀ i, ¬ (a.toNat - flashStart ≤ i ∧ i < a.toNat - flashStart + data.length) →
    t.memory.get? i = s.memory.get? i
  flags : ∃ gained, t.flags = s.flags.raised gained ∧
    ∀ f, f ∈ gained ↔ Gains (a.toNat - flashStart) data s f
  unlocked : t.isLocked .main = false
  control : data ≠ [] → ∃ w, LastStore w s.events t ∧ t.cr = (s.cr.setProgramWidth w).set .pg false
  idle : data ≠ [] → t.busy = 0
  untouched : data = [] → t = s
  /-- In particular no violation was counted. -/
  others : t = { s with
    memory := t.memory, cr := t.cr, flags := t.flags, busy := t.busy, events := t.events }

section Flags
variable {s : Simulator device} {offset : Nat} {data : List UInt8} {marks : List Mark}

/-- Marks on different cells raise what each raises alone. -/
theorem flags_marked (apart : marks.Pairwise Mark.Apart) (s : Simulator device) :
    (marked marks s).flags = s.flags.raised (marks.flatMap (Mark.reports s.guards s.memory)) := by
  induction marks generalizing s with
  | nil => exact s.flags.raised_nil.symm
  | cons p rest ih =>
    obtain ⟨first, later⟩ := List.pairwise_cons.mp apart
    have alone : rest.flatMap (Mark.reports s.guards (p.apply s).memory) =
        rest.flatMap (Mark.reports s.guards s.memory) := by
      rw [p.apply_eq, List.flatMap_def, List.flatMap_def]
      refine congrArg List.flatten (List.map_congr_left fun q member => ?_)
      exact Mark.reports_lower s.guards (fun i both => first q member i both.symm) s.memory
    have applied : (p.apply s).flags = s.flags.raised (p.reports s.guards s.memory) := by
      rw [p.apply_eq]
    have marked : marked (p :: rest) s = marked rest (p.apply s) := rfl
    rw [marked, ih later, guards_apply, alone, applied, Contents.raised_raised, List.flatMap_cons]

theorem mem_reports_byte {guards : Nat → Bool} {m : Memory} {i : Nat} {b : UInt8} {f : Flag .sr} :
    f ∈ (Mark.byte i b).reports guards m ↔
      (guards i = true ∧ f = .wrperr) ∨
        (guards i = false ∧
          (f = .eop ∨ f = .pgperr ∧ ∃ old, m.get? i = some old ∧ old &&& b ≠ b)) := by
  simp only [Mark.reports, Mark.obstructed_single]
  cases guards i with
  | true => simp
  | false =>
    cases m.get? i with
    | none => simp
    | some old => by_cases clear : old &&& b = b <;> simp [clear, or_comm]

/-- The flags of the single bytes are those that the data gains. -/
theorem mem_reports_iff (inside : offset + data.length ≤ memorySize) {f : Flag .sr} :
    f ∈ (bytesAt offset data).flatMap (Mark.reports s.guards s.memory) ↔
      Gains offset data s f := by
  simp only [List.mem_flatMap, mem_bytesAt_iff]
  constructor
  · rintro ⟨_, ⟨i, b, here, rfl⟩, reported⟩
    obtain ⟨small, _⟩ := List.getElem?_eq_some_iff.mp here
    have low : offset + i < memorySize := by omega
    obtain ⟨sector, _, covers⟩ := covered low
    have covers : sector.Covers (offset + i) := covers
    rw [mem_reports_byte, guards_covered covers] at reported
    rcases reported with ⟨closed, rfl⟩ | ⟨free, rfl | ⟨rfl, old, was, clear⟩⟩
    · exact .wrperr small covers closed
    · exact .eop small covers free
    · exact .pgperr here covers free was clear
  · intro gains
    cases gains with
    | @eop i _ small covers free =>
      refine ⟨_, ⟨i, _, List.getElem?_eq_getElem small, rfl⟩, mem_reports_byte.mpr ?_⟩
      exact .inr ⟨(guards_covered covers).trans free, .inl rfl⟩
    | @wrperr i _ small covers closed =>
      refine ⟨_, ⟨i, _, List.getElem?_eq_getElem small, rfl⟩, mem_reports_byte.mpr ?_⟩
      exact .inl ⟨(guards_covered covers).trans closed, rfl⟩
    | @pgperr i b old _ here covers free was clear =>
      refine ⟨_, ⟨i, b, here, rfl⟩, mem_reports_byte.mpr ?_⟩
      exact .inr ⟨(guards_covered covers).trans free, .inr ⟨rfl, old, was, clear⟩⟩

theorem burnBytes_gains (inside : offset + data.length ≤ memorySize) (s : Simulator device) :
    ∃ gained, (burnBytes offset data s).flags = s.flags.raised gained ∧
      ∀ f, f ∈ gained ↔ Gains offset data s f := by
  rw [burnBytes_marked]
  exact ⟨_, flags_marked (pairwise_bytesAt offset data) s, fun _ => mem_reports_iff inside⟩

end Flags

section Blocks
variable {s : Simulator device} {a : Address} {data : List UInt8}

/-- What becomes of a byte in the memory is up to the sector that it is in. -/
theorem burnBytes_bytes {offset i : Nat} {b : UInt8} (size : s.memory.size = memorySize)
    (inside : offset + data.length ≤ memorySize) (here : data[i]? = some b) :
    ∃ (sector : Sector) (old : UInt8), sector.Covers (offset + i) ∧
      s.memory.get? (offset + i) = some old ∧
      (burnBytes offset data s).memory.get? (offset + i) =
        some (if s.isProtected sector then old else old &&& b) := by
  obtain ⟨small, _⟩ := List.getElem?_eq_some_iff.mp here
  have inside : offset + i < memorySize := Nat.lt_of_lt_of_le (Nat.add_lt_add_left small _) inside
  obtain ⟨sector, _, covers⟩ := covered inside
  have inside : offset + i < s.memory.size := size ▸ inside
  have was : s.memory.get? (offset + i) = some _ := Array.getElem?_eq_getElem inside
  refine ⟨sector, _, covers, was, ?_⟩
  rw [get?_burnBytes_inside here, was, Option.map_some, guards_covered covers]

theorem written_nothing (unlocked : s.isLocked .main = false) (a : Address) :
    Written a [] s s := by
  constructor
  · exact nofun
  · exact fun _ _ => rfl
  · refine ⟨[], s.flags.raised_nil.symm, fun f => ?_⟩
    refine iff_of_false List.not_mem_nil fun gains => ?_
    cases gains with
    | eop inside | wrperr inside => exact absurd inside (Nat.not_lt_zero _)
    | pgperr here => cases here
  · exact unlocked
  · exact fun some => absurd rfl some
  · exact fun some => absurd rfl some
  · exact fun _ => rfl
  · rfl

theorem written_programmed (size : s.memory.size = memorySize) (unlocked : s.isLocked .main = false)
    (within : Within a data.length) (some : data ≠ []) {w : Width} {events : List Event}
    (last : LastStore w s.events
      ((programmed w (burnBytes (a.toNat - flashStart) data) s).logged events)) :
    Written a data s ((programmed w (burnBytes (a.toNat - flashStart) data) s).logged events) := by
  have inside : a.toNat - flashStart + data.length ≤ memorySize := by
    obtain ⟨low, high⟩ := within
    omega
  obtain ⟨memory, flags, frame, _⟩ := burnBytes_frame (a.toNat - flashStart) data s
  have bytes := fun i b (here : data[i]? = .some b) => burnBytes_bytes size inside here
  have around : ∀ i, ¬ (a.toNat - flashStart ≤ i ∧ i < a.toNat - flashStart + data.length) →
      (burnBytes (a.toNat - flashStart) data s).memory.get? i = s.memory.get? i :=
    fun _ outside => get?_burnBytes_outside outside s
  have gains := burnBytes_gains inside s
  rw [programmed_unlocked unlocked, frame] at last ⊢
  rw [frame] at gains
  simp only [frame] at bytes around
  constructor
  · exact bytes
  · exact around
  · exact gains
  · exact (has_lock_setUp s.cr w false).trans unlocked
  · exact fun _ => ⟨w, last, rfl⟩
  · exact fun _ => rfl
  · exact fun none => absurd none some
  · rfl

/-- A block in the window is programmed whole, each byte as its sector allows, and the status tells
what happened to its bytes. -/
theorem programBlockWide_writes (h : Reachable s) (unlocked : s.isLocked .main = false)
    (within : data ≠ [] → Within a data.length) (limit : Width) :
    ∃ t, (Procedure.programBlockWide a data limit).run s = .ok () t ∧ Written a data s t := by
  by_cases some : data = []
  · subst some
    refine ⟨s, ?_, written_nothing unlocked a⟩
    rw [Procedure.programBlockWide, tile]
    rfl
  · have bytes := bytes_tile a.toNat data limit
    obtain ⟨events, run⟩ := programWords_completes h.sound (aligned_tile a.toNat data limit)
      (fun _ => bytes.symm ▸ within some) s.events
    have run : (Procedure.programBlockWide a data limit).run s = _ := run
    obtain ⟨w, last⟩ : ∃ w, (tile a.toNat data limit).getLast? = .some w :=
      Option.ne_none_iff_exists'.mp (mt (List.getLast?_eq_none_iff.trans tile_eq_nil_iff).mp some)
    have stores := programWords_lastStore ⟨[], rfl⟩ run w last
    rw [wordsProgrammed, last, bytes] at run stores
    exact ⟨_, run, written_programmed h.sound.memory_size unlocked (within some) some stores⟩

/-- Three bytes before a protected sector and two in it, on a busy controller. The first byte would
have to set bits. -/
theorem programBlockWide_writes_at_boundary :
    let s : Simulator .generic := afterAll [
      .access (.key .main (Domain.firstKey .main)),
      .access (.key .main (Domain.secondKey .main)),
      .control (.setBusy 2)] (withOptionBytes .generic ⟨0xCFFDAAEC⟩)
    let a : Address := ⟨0x08007FFD, by decide⟩
    let data : List UInt8 := [0x5A, 0x00, 0xA5, 0xFF, 0x77]
    s.isLocked .main = false ∧ Gains 0x7FFD data s .pgperr ∧ Gains 0x7FFD data s .wrperr ∧
      ∃ t, (Procedure.programBlockWide a data .x64).run s = .ok () t ∧ Written a data s t := by
  intro s a data
  have reachable : Reachable s := (Reachable.start ⟨0xCFFDAAEC⟩).calls _
  have was : s.memory.get? 0x7FFD = some 0xA5 := Memory.get?_filled memorySize 0x7FFD 0xA5
  have unlocked : s.isLocked .main = false := by decide
  refine ⟨unlocked, ?_, ?_, programBlockWide_writes reachable unlocked (fun _ => ?_) .x64⟩
  · have free : s.isProtected ⟨0⟩ = false := by decide
    exact .pgperr (i := 0) rfl (by decide) free was (by decide)
  · have closed : s.isProtected ⟨1⟩ = true := by decide
    exact .wrperr (i := 3) (by decide) (by decide) closed
  · exact ⟨by decide, by decide⟩

end Blocks
end FlashController.Simulator
