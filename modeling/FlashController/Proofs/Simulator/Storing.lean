import FlashController.Proofs.Simulator.Protection

/-! Which stores halt. A store looks at the first byte of its word to see whether it is in the
window, and then at up to eight bytes of the memory. No look goes astray: what gets that far is
aligned, and the window starts and ends where a word of any width may. -/
namespace FlashController.Simulator
variable {device : Device}

/-- The state in which a store is judged: it was noted and, if it disturbs an operation in progress,
counted. -/
def judged (a : Address) (w : Word) (s : Simulator device) : Simulator device :=
  { s with
    violations := if s.busy = 0 then s.violations else s.violations + 1
    events := .store a w.width :: s.events }

section
variable {a : Address} {w : Word} {s : Simulator device}

theorem storeWord_judged (room : s.violations + 1 < UInt32.size) :
    storeWord a w s = settleStore a w (judged a w s) := by
  by_cases idle : s.busy = 0
  · rw [storeWord_idle idle, judged, if_pos idle]
    rfl
  · rw [storeWord_busy idle, if_pos room, judged, if_neg idle]
    rfl

/-- The bytes of a word that nothing speaks against are in the memory. -/
theorem accepted_inside (inside : InWindow a) (clear : storeError? a w s = none)
    (size : s.memory.size = memorySize) :
    a.offsetFrom? flashStart = some (a.toNat - flashStart) ∧
      a.toNat - flashStart + w.width.bytes ≤ s.memory.size :=
  ⟨if_pos inside.1, size ▸ word_inside inside (storeError?_eq_none inside clear).1⟩

theorem locate_accepted (inside : InWindow a) (clear : storeError? a w s = none)
    (size : s.memory.size = memorySize) :
    locate a w.width.bytes s = .ok (a.toNat - flashStart) s := by
  have small : w.width.bytes ≤ 8 := by cases w.width <;> decide
  rw [locate_inWindow inside _ small, if_pos (accepted_inside inside clear size).2]

theorem settleStore_inside (inside : InWindow a) (size : s.memory.size = memorySize) :
    ∃ t, settleStore a w s = .ok () t := by
  cases lock : s.isLocked .main with
  | true => exact ⟨s, settleStore_locked inside lock⟩
  | false =>
    cases error : storeError? a w s with
    | some f => exact ⟨raise f s, settleStore_refused inside lock error⟩
    | none =>
      -- Only now does the alignment of the word speak for its last byte.
      have fits := (accepted_inside inside error size).2
      exact ⟨_, (settleStore_accepted inside lock error).trans (if_pos fits)⟩

theorem storeWord_inside (h : Sound s) (room : s.violations + 1 < UInt32.size)
    (inside : InWindow a) : ∃ t, storeWord a w s = .ok () t := by
  rw [storeWord_judged room]
  exact settleStore_inside inside h.memory_size

theorem storeWord_outside (room : s.violations + 1 < UInt32.size) (outside : ¬ InWindow a) :
    storeWord a w s = .error (.outsideWindow a) (judged a w s) := by
  rw [storeWord_judged room]
  exact settleStore_outside outside

/-- In every state of the controller a store halts for one cause, an address outside the window, and
then leaves behind its note and at most its violation. A store that comes to program finds the whole
word in the memory. -/
theorem store_halts_outside (h : Reachable s) (room : s.violations + 1 < UInt32.size) (a : Address)
    (w : Word) :
    ((∃ e t, storeWord a w s = .error e t) ↔ ¬ InWindow a) ∧
    (∀ e t, storeWord a w s = .error e t → e = .outsideWindow a ∧ t = { s with
      violations := if s.busy = 0 then s.violations else s.violations + 1
      events := .store a w.width :: s.events }) ∧
    (InWindow a → storeError? a w (judged a w s) = none → ∃ offset,
      a.offsetFrom? flashStart = some offset ∧ offset + w.width.bytes ≤ s.memory.size ∧
      locate a w.width.bytes (judged a w s) = .ok offset (judged a w s)) := by
  have sound := h.sound
  refine ⟨⟨?_, fun outside => ⟨_, _, storeWord_outside room outside⟩⟩, fun e t halts => ?_,
    fun inside clear => ?_⟩
  · rintro ⟨e, t, halts⟩ inside
    obtain ⟨u, completes⟩ := storeWord_inside (w := w) sound room inside
    cases halts.symm.trans completes
  · by_cases inside : InWindow a
    · obtain ⟨u, completes⟩ := storeWord_inside (w := w) sound room inside
      cases halts.symm.trans completes
    · cases halts.symm.trans (storeWord_outside room inside)
      exact ⟨rfl, rfl⟩
  · obtain ⟨offset, fits⟩ := accepted_inside inside clear sound.memory_size
    exact ⟨_, offset, fits, locate_accepted inside clear sound.memory_size⟩

end

/-- The last word of the window in a busy controller set up for it, and the same word one byte
further up and right behind the window. -/
theorem store_halts_outside_at_end :
    let s : Simulator .generic := afterAll [
      .access (.key .main (Domain.firstKey .main)),
      .access (.key .main (Domain.secondKey .main)),
      .access (.write .cr ⟨0x00000301⟩),
      .control (.setBusy 2)] (new .generic)
    let w : Word := ⟨.x64, 0x0102030405060708⟩
    let last : Address := ⟨0x080FFFF8, by decide⟩
    let askew : Address := ⟨0x080FFFF9, by decide⟩
    let behind : Address := ⟨0x08100000, by decide⟩
    s.violations + 1 < UInt32.size ∧
      (InWindow last ∧ storeError? last w (judged last w s) = none ∧ ∃ offset,
        last.offsetFrom? flashStart = some offset ∧ offset + w.width.bytes ≤ s.memory.size) ∧
      (InWindow askew ∧ ¬ ∃ e t, storeWord askew w s = .error e t) ∧
      ¬ InWindow behind ∧ ∃ t, storeWord behind w s = .error (.outsideWindow behind) t ∧
        t.violations = 1 ∧ t.busy = 2 := by
  intro s w last askew behind
  have reachable : Reachable s := (Reachable.start _).calls _
  have room : s.violations + 1 < UInt32.size := by decide
  have outside : ¬ InWindow behind := by decide
  have clear : storeError? last w (judged last w s) = none := by decide
  have within : InWindow last ∧ InWindow askew := by decide
  obtain ⟨offset, located, fits, _⟩ :=
    (store_halts_outside reachable room last w).2.2 within.1 clear
  obtain ⟨halts, leaves, _⟩ := store_halts_outside reachable room behind w
  obtain ⟨e, t, error⟩ := halts.mpr outside
  obtain ⟨rfl, rfl⟩ := leaves e t error
  refine ⟨room, ⟨within.1, clear, offset, located, fits⟩, ⟨within.2, ?_⟩,
    outside, _, error, rfl, rfl⟩
  exact fun halted => (store_halts_outside reachable room askew w).1.mp halted within.2

end FlashController.Simulator
