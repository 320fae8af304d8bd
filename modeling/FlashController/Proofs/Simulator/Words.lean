import FlashController.Proofs.Simulator.Diagnosis

/-! Programming words that lie one after the other in the window. All that the control register
keeps of them is the width of the last. -/
namespace FlashController.Simulator
variable {device : Device}

def wordsProgrammed (a : Address) (words : List Word) (s : Simulator device) : Simulator device :=
  match words.getLast? with
  | none => s
  | some last =>
    programmed last.width (burnBytes (a.toNat - flashStart) (words.flatMap Word.bytes)) s

/-- Either there are no words, or they are programmed like one block of bytes. -/
theorem wordsProgrammed_cases (a : Address) (words : List Word) :
    (words = [] ∧ ∀ s : Simulator device, wordsProgrammed a words s = s) ∨
      ∃ w, ∀ s : Simulator device, wordsProgrammed a words s =
        programmed w (burnBytes (a.toNat - flashStart) (words.flatMap Word.bytes)) s := by
  cases last : words.getLast? with
  | none =>
    exact .inl ⟨List.getLast?_eq_none_iff.mp last, fun s => by rw [wordsProgrammed, last]⟩
  | some w => exact .inr ⟨w.width, fun s => by rw [wordsProgrammed, last]⟩

theorem wordsProgrammed_cons {a next : Address} {w : Word} {rest : List Word} (inside : InWindow a)
    (moved : next.toNat = a.toNat + w.width.bytes) (s : Simulator device) :
    wordsProgrammed next rest (programmed w.width (burnBytes (a.toNat - flashStart) w.bytes) s) =
      wordsProgrammed a (w :: rest) s := by
  have low := inside.1
  have offset : next.toNat - flashStart = a.toNat - flashStart + w.bytes.length := by
    rw [Word.length_bytes]
    omega
  cases rest with
  | nil =>
    simp only [wordsProgrammed, List.getLast?_nil, List.getLast?_singleton, List.flatMap_cons,
      List.flatMap_nil, List.append_nil]
  | cons c more =>
    have last : (c :: more).getLast? = some ((c :: more).getLast (List.cons_ne_nil c more)) :=
      List.getLast?_eq_some_getLast _
    simp only [wordsProgrammed, List.getLast?_cons_cons, last, offset]
    exact programmed_programmed _ _ _ _ _ _

section
variable {s : Simulator device}

theorem Within.inside {a : Address} {n : Nat} (within : Within a n) (some : 0 < n) : InWindow a :=
  ⟨within.1, by have := within.2; omega⟩

theorem programWords_completes (h : Sound s) {a : Address} {words : List Word}
    (aligned : Aligned a.toNat words)
    (within : words ≠ [] → Within a (words.flatMap Word.bytes).length) :
    Completes (Procedure.programWords a words) s () (wordsProgrammed a words s) := by
  induction words generalizing s a with
  | nil => exact completes_pure () s
  | cons w rest ih =>
    have within := within (List.cons_ne_nil w rest)
    rw [List.flatMap_cons, List.length_append, Word.length_bytes] at within
    have inside : InWindow a := within.inside (Nat.add_pos_left w.width.bytes_pos _)
    have fits : w.width.bytes ≤ room a := Nat.le_trans (Nat.le_add_right _ _) (within_room within)
    have first := program_completes h inside w
    rw [stored_aligned aligned.1] at first
    obtain ⟨next, further, stepped⟩ := advance_inside inside fits
    have later := ih (h.run first) (a := next) (stepped ▸ aligned.2) fun _ =>
      ⟨by have := inside.1; omega, by have := within.2; omega⟩
    rw [wordsProgrammed_cons inside stepped] at later
    rw [Procedure.programWords, Procedure.advance_eq further, pure_bind]
    exact first.bind later

/-- Bytes are words of the smallest width, which are always aligned. -/
theorem programBytes_completes (h : Sound s) {a target : Address} {offset : Nat}
    {data : List UInt8} (moved : a.advance? offset = some target)
    (within : data ≠ [] → Within target data.length) :
    Completes (Procedure.programBytes a offset data) s ()
      (wordsProgrammed target (data.map Word.ofByte) s) := by
  by_cases none : data = []
  · subst none
    exact completes_pure () s
  · have inside := within none
    have fits : target.toNat + data.length < UInt64.size := by
      have high := inside.2
      unfold flashStart memorySize at high
      unfold UInt64.size
      omega
    have aligned := aligned_tile target.toNat data .x8
    rw [tile_x8] at aligned
    rw [Procedure.programBytes_eq moved fits]
    refine programWords_completes h aligned fun _ => ?_
    rwa [bytes_map_ofByte]

end
end FlashController.Simulator
