import FlashController.Proofs.Recorder.Covering
import FlashController.Proofs.Relocking

/-! Blocks at the top of the address space. Byte by byte an address is computed before each store,
in wide words after it, so the two overflow on ranges whose lengths differ by one; the bytes that
were stored by then are the same, since an aligned word never reaches over the top. -/
namespace FlashController.Recorder

/-- The status register shows no operation in progress, and no queued answer of it does. -/
structure Idle (s : Recorder) : Prop where
  stored : s.stored.sr.has .bsy = false
  queued : ∀ v ∈ s.queued.sr, v.has .bsy = false

/-- The bytes that were stored, each with its address, in order of time. -/
def storedBytes (log : List Event) : List (UInt8 × Nat) :=
  (stores log).flatMap fun store => store.2.bytes.zipIdx store.1.toNat

/-- A run ends because a sum is too large. -/
def Overflows (p : Procedure Unit) (s : Recorder) : Prop :=
  ∃ e t, p.run s = .error e t ∧ e.message? = some "attempt to add with overflow"

/-- A run overflows under a condition and else completes. In either case it has stored some
bytes. -/
structure Ends (p : Procedure Unit) (s : Recorder) (beyond : Prop)
    (bytes : List (UInt8 × Nat)) : Prop where
  overflows : Overflows p s ↔ beyond
  completes : ¬ beyond → ∃ t, p.run s = .ok () t
  stored : ∃ log, (leaves p.run s).events = log ++ s.events ∧ storedBytes log = bytes

section Idle
variable {s : Recorder} {r : Register}

/-- What is read of the status of an idle recorder is idle. -/
theorem Idle.answer (h : Idle s) : (answer .sr s).1.has .bsy = false := by
  unfold Recorder.answer
  cases queue : s.queued.get .sr with
  | nil => exact h.stored
  | cons v rest =>
    have queue : s.queued.sr = v :: rest := queue
    exact h.queued v (queue ▸ List.mem_cons_self)

theorem Idle.read (h : Idle s) (r : Register) : Idle (Recorder.answer r s).2 := by
  unfold Recorder.answer
  cases queue : s.queued.get r with
  | nil => exact ⟨h.stored, h.queued⟩
  | cons v rest =>
    refine ⟨h.stored, fun u member => ?_⟩
    cases r with
    | sr =>
      have queue : s.queued.sr = v :: rest := queue
      exact h.queued u (queue ▸ List.mem_cons_of_mem v member)
    | cr | acr | optcr => exact h.queued u member

theorem waitUntilIdle_completes (h : Idle s) :
    ∃ t, Procedure.waitUntilIdle.run s = .ok () t ∧ Idle t ∧ Unread t := by
  have barred : Idle (note .barrier s) := ⟨h.stored, h.queued⟩
  have fresh : streak .sr (note .barrier s).events < maxStreak := by
    simp [streak, note, Event.isRead, maxStreak]
  have read := (perform_read .sr (note .barrier s)).trans (if_pos fresh)
  have poll : (Procedure.readUntil .sr fun v => !v.has .bsy).run (note .barrier s) =
      .ok (answer .sr (note .barrier s)).1 (answer .sr (note .barrier s)).2 := by
    have ready : (!(answer .sr (note .barrier s)).1.has .bsy) = true := by rw [barred.answer]; rfl
    rw [Procedure.run_readUntil]
    exact (bind_ok read).trans (congrFun (if_pos ready) _)
  refine ⟨_, Procedure.run_bind_ok poll, barred.read .sr, ?_⟩
  rw [Unread, events_answer]
  rfl

theorem update_completes (h : Idle s) (unread : Unread s) (f : Contents .cr → Contents .cr) :
    ∃ t, (Procedure.update .cr f).run s = .ok () t ∧ Idle t ∧ Unread t := by
  have read := (perform_read .cr s).trans (if_pos unread.short)
  have idle := h.read .cr
  exact ⟨_, Procedure.run_update read, ⟨idle.stored, idle.queued⟩, rfl⟩

/-- An idle recorder stores the word and is idle again. -/
theorem program_completes (h : Idle s) (a : Address) (w : Word) :
    ∃ log t, (Procedure.program a w).run s = .ok () t ∧ t.events = log ++ s.events ∧
      storedBytes log = w.bytes.zipIdx a.toNat ∧ Idle t := by
  obtain ⟨t₁, waits, idle, unread⟩ := waitUntilIdle_completes h
  obtain ⟨t₂, aims, idle, unread⟩ := update_completes idle unread (·.setProgramWidth w.width)
  obtain ⟨t₃, enables, idle, _⟩ := update_completes idle unread (·.set .pg true)
  have stores : (Procedure.store a w).run t₃ = .ok () (note (.store a w) t₃) := rfl
  have idle : Idle (note (.store a w) t₃) := ⟨idle.stored, idle.queued⟩
  obtain ⟨t₄, waits', idle, unread⟩ := waitUntilIdle_completes idle
  obtain ⟨t, disables, idle, _⟩ := update_completes idle unread (·.set .pg false)
  have run : (Procedure.program a w).run s = .ok () t := by
    rw [Procedure.program, Procedure.run_bind_ok waits, Procedure.setProgramWidth,
      Procedure.run_bind_ok aims, Procedure.run_bind_ok enables, Procedure.run_bind_ok stores,
      Procedure.run_bind_ok waits', disables]
  obtain ⟨log, events, here⟩ := (program_notes a [] [] rfl).of_ok run
  refine ⟨log, t, run, events, ?_, idle⟩
  rw [storedBytes, here.stores]
  exact List.append_nil _

end Idle

section Ends
variable {s : Recorder} {p : Procedure Unit} {beyond : Prop} {bytes : List (UInt8 × Nat)}

theorem storedBytes_append (later log : List Event) :
    storedBytes (later ++ log) = storedBytes log ++ storedBytes later := by
  rw [storedBytes, stores_append, List.flatMap_append]
  rfl

theorem ends_pure (s : Recorder) (within : ¬ beyond) : Ends (pure ()) s beyond [] := by
  constructor
  · constructor
    · rintro ⟨e, t, run, _⟩
      cases run
    · exact fun high => absurd high within
  · exact fun _ => ⟨s, rfl⟩
  · exact ⟨[], rfl, rfl⟩

theorem ends_overflow (s : Recorder) (high : beyond) :
    Ends (.halt .additionOverflow) s beyond [] := by
  constructor
  · exact ⟨fun _ => high, fun _ => ⟨_, s, rfl, rfl⟩⟩
  · exact fun within => absurd high within
  · exact ⟨[], rfl, rfl⟩

/-- Programming a word first stores its bytes first. -/
theorem Ends.program (h : Idle s) (a : Address) (w : Word)
    (rest : ∀ t, Idle t → Ends p t beyond bytes) :
    Ends (Procedure.program a w >>= fun _ => p) s beyond (w.bytes.zipIdx a.toNat ++ bytes) := by
  obtain ⟨log, t, run, events, here, idle⟩ := program_completes h a w
  obtain ⟨overflows, completes, later, events', there⟩ := rest t idle
  have same : (Procedure.program a w >>= fun _ => p).run s = p.run t := Procedure.run_bind_ok run
  constructor
  · rwa [Overflows, same]
  · rwa [same]
  · refine ⟨later ++ log, ?_, ?_⟩
    · rw [leaves, same, List.append_assoc, ← events]
      exact events'
    · rw [storedBytes_append, here, there]

theorem Ends.congr {beyond' : Prop} {bytes' : List (UInt8 × Nat)} (h : Ends p s beyond' bytes')
    (same : beyond' ↔ beyond) (same' : bytes' = bytes) : Ends p s beyond bytes :=
  propext same ▸ same' ▸ h

end Ends

section Loops
variable {s : Recorder}

/-- The bytes of a list that are below the top of the address space when it starts at an address,
each with its address. -/
def belowTop (address : Nat) (bytes : List UInt8) : List (UInt8 × Nat) :=
  (bytes.take (UInt64.size - address)).zipIdx address

theorem belowTop_append {address : Nat} (first rest : List UInt8)
    (fits : address + first.length ≤ UInt64.size) :
    belowTop address (first ++ rest) =
      first.zipIdx address ++ belowTop (address + first.length) rest := by
  have left : UInt64.size - address = first.length + (UInt64.size - (address + first.length)) := by
    omega
  rw [belowTop, left, List.take_length_add_append, List.zipIdx_append]
  rfl

theorem belowTop_top (bytes : List UInt8) : belowTop UInt64.size bytes = [] := by
  rw [belowTop, Nat.sub_self, List.take_zero, List.zipIdx_nil]

/-- An aligned word does not reach over the top of the address space. -/
theorem word_below_top {a : Address} {w : Width} (aligned : a.toNat % w.bytes = 0) :
    a.toNat + w.bytes ≤ UInt64.size := by
  have low := a.isLt
  unfold UInt64.size at *
  cases w <;> simp only [Width.bytes] at aligned ⊢ <;> omega

theorem programBytes_ends (h : Idle s) {a : Address} {offset : Nat} (data : List UInt8)
    (start : a.toNat + offset ≤ UInt64.size) :
    Ends (Procedure.programBytes a offset data) s (UInt64.size < a.toNat + offset + data.length)
      (belowTop (a.toNat + offset) data) := by
  induction data generalizing s offset with
  | nil => exact (ends_pure s (Nat.not_lt.mpr start)).congr Iff.rfl (by simp [belowTop])
  | cons b rest ih =>
    rw [Procedure.programBytes]
    rcases Nat.eq_or_lt_of_le start with top | low
    · rw [Procedure.advance_beyond (Nat.le_of_eq top.symm), top, belowTop_top]
      exact ends_overflow s (by simp)
    · have moved : a.advance? offset = some ⟨a.toNat + offset, low⟩ := dif_pos low
      rw [Procedure.advance_eq moved, pure_bind]
      refine (Ends.program h _ _ fun t idle => ih idle low).congr ?_ ?_
      · rw [List.length_cons, Nat.add_assoc, Nat.add_assoc, Nat.add_assoc, Nat.add_comm 1]
      · have step := belowTop_append [b] rest low
        rw [Word.bytes_ofByte]
        exact step.symm

theorem programWords_ends (h : Idle s) {a : Address} {words : List Word}
    (aligned : Aligned a.toNat words) :
    Ends (Procedure.programWords a words) s
      (words ≠ [] ∧ UInt64.size ≤ a.toNat + (words.flatMap Word.bytes).length)
      (belowTop a.toNat (words.flatMap Word.bytes)) := by
  induction words generalizing s a with
  | nil => exact (ends_pure s fun high => high.1 rfl).congr Iff.rfl (by simp [belowTop])
  | cons w rest ih =>
    have fits : a.toNat + w.bytes.length ≤ UInt64.size :=
      (Word.length_bytes w).symm ▸ word_below_top aligned.1
    rw [Procedure.programWords, List.flatMap_cons, belowTop_append _ _ fits, List.length_append,
      ← Nat.add_assoc, Word.length_bytes]
    rw [Word.length_bytes] at fits
    refine Ends.program h a w fun t idle => ?_
    -- The address after the word is computed also if the word was the last.
    rcases Nat.eq_or_lt_of_le fits with top | low
    · rw [Procedure.advance_beyond (Nat.le_of_eq top.symm), top, belowTop_top]
      exact ends_overflow t ⟨List.cons_ne_nil w rest, Nat.le_add_right _ _⟩
    · have moved : a.advance? w.width.bytes = some ⟨a.toNat + w.width.bytes, low⟩ := dif_pos low
      rw [Procedure.advance_eq moved, pure_bind]
      refine (ih idle aligned.2).congr ?_ rfl
      constructor
      · exact fun high => ⟨List.cons_ne_nil w rest, high.2⟩
      · rintro ⟨_, high⟩
        refine ⟨?_, high⟩
        rintro rfl
        exact absurd high (Nat.not_le_of_lt low)

end Loops

/-- Byte by byte a block overflows if it is longer than the rest of the address space, in wide words
already if it is as long. In either way it has stored what is below the top, no more and no less. -/
theorem blocks_overflow {s : Recorder} (h : Idle s) (a : Address) (data : List UInt8)
    (limit : Width) :
    let left := UInt64.size - a.toNat
    let stored := (data.take (min data.length left)).zipIdx a.toNat
    Ends (Procedure.programBlock a data) s (left < data.length) stored ∧
      Ends (Procedure.programBlockWide a data limit) s (0 < data.length ∧ left ≤ data.length)
        stored := by
  intro left stored
  have low := a.isLt
  have same : belowTop a.toNat data = stored := by
    rw [belowTop, List.take_eq_take_min, Nat.min_comm]
  constructor
  · refine (programBytes_ends h data (Nat.le_of_lt low)).congr ?_ same
    rw [Nat.add_zero]
    omega
  · refine (programWords_ends h (aligned_tile a.toNat data limit)).congr ?_ ?_
    · rw [bytes_tile, ne_eq, tile_eq_nil_iff, ← ne_eq, ← List.length_pos_iff]
      omega
    · rw [bytes_tile]
      exact same

/-- Four bytes right below the top, while the status shows flags of earlier operations. -/
theorem blocks_overflow_at_top :
    let queued : Bank fun r => List (Contents r) := ⟨[], [⟨0x2⟩], [], []⟩
    let s : Recorder := ⟨⟨⟨0⟩, ⟨0x1⟩, ⟨0⟩, ⟨0⟩⟩, queued, [.barrier]⟩
    let a : Address := ⟨0xFFFFFFFFFFFFFFFC, by decide⟩
    Idle s ∧ (∃ t, (Procedure.programBlock a [1, 2, 3, 4]).run s = .ok () t) ∧
      Overflows (Procedure.programBlockWide a [1, 2, 3, 4] .x64) s := by
  intro queued s a
  have idle : Idle s := ⟨by decide, by decide⟩
  obtain ⟨bytewise, wide⟩ := blocks_overflow idle a [1, 2, 3, 4] .x64
  exact ⟨idle, bytewise.completes (by decide), wide.overflows.mpr (by decide)⟩

end FlashController.Recorder
