import FlashController.Proofs.Geometry
import FlashController.Proofs.Simulator.Idle

/-! Programming a range of the simulated memory byte by byte, and word by word with the same
effect. -/
namespace FlashController.Simulator
variable {device : Device}

/-- An offset lies in a protected sector. -/
def guards (s : Simulator device) (offset : Nat) : Bool :=
  (Sector.ofIndex? (Sector.indexOfOffset offset)).any s.isProtected

/-- The flags after programming data that no protection kept out. -/
def reports (obstacle : Bool) (flags : Contents .sr) : Contents .sr :=
  (if obstacle then flags.set .pgperr true else flags).set .eop true

def burnByte (offset : Nat) (b : UInt8) (s : Simulator device) : Simulator device :=
  if s.guards offset then raise .wrperr s
  else { s with
    memory := s.memory.merge (· &&& ·) offset [b]
    flags := reports (obstructed s.memory offset [b]) s.flags }

def burnBytes (offset : Nat) : List UInt8 → Simulator device → Simulator device
  | [], s => s
  | b :: rest, s => burnBytes (offset + 1) rest (burnByte offset b s)

theorem burnBytes_append (offset : Nat) (data more : List UInt8) (s : Simulator device) :
    burnBytes offset (data ++ more) s =
      burnBytes (offset + data.length) more (burnBytes offset data s) := by
  induction data generalizing offset s with
  | nil => rfl
  | cons b rest ih =>
    have moved : offset + 1 + rest.length = offset + (b :: rest).length := by
      rw [List.length_cons]
      omega
    rw [List.cons_append, burnBytes, ih, moved]
    rfl

theorem burnByte_controlled (offset : Nat) (b : UInt8) (v : Contents .cr) (s : Simulator device) :
    burnByte offset b (controlled v s.rested) = controlled v (burnByte offset b s).rested := by
  by_cases guarded : s.guards offset = true
  · have here : burnByte offset b s = raise .wrperr s := if_pos guarded
    rw [here]
    exact if_pos guarded
  · have here : burnByte offset b s = { s with
        memory := s.memory.merge (· &&& ·) offset [b]
        flags := reports (obstructed s.memory offset [b]) s.flags } := if_neg guarded
    rw [here]
    exact if_neg guarded

/-- Programming looks neither at the control register nor at the busy count. -/
theorem burnBytes_controlled (offset : Nat) (data : List UInt8) (v : Contents .cr)
    (s : Simulator device) :
    burnBytes offset data (controlled v s.rested) =
      controlled v (burnBytes offset data s).rested := by
  induction data generalizing offset s with
  | nil => rfl
  | cons b rest ih => rw [burnBytes, burnByte_controlled, ih, burnBytes]

theorem burnByte_frame (offset : Nat) (b : UInt8) (s : Simulator device) :
    ∃ memory flags, burnByte offset b s = { s with memory, flags } ∧ Follows s memory flags := by
  by_cases guarded : s.guards offset = true
  · exact ⟨_, _, if_pos guarded, follows_raise rfl nofun⟩
  · refine ⟨_, _, if_neg guarded, s.memory.size_merge _ _ _, ?_⟩
    rw [reports, Contents.has_set_of_ne (by decide)]
    split
    · exact Contents.has_set_of_ne (by decide)
    · rfl

/-- Programming changes the memory and the flags alone. -/
theorem burnBytes_frame (offset : Nat) (data : List UInt8) (s : Simulator device) :
    ∃ memory flags, burnBytes offset data s = { s with memory, flags } ∧
      Follows s memory flags := by
  induction data generalizing offset s with
  | nil => exact ⟨s.memory, s.flags, rfl, rfl, rfl⟩
  | cons b rest ih =>
    obtain ⟨middle, raised, first, follows⟩ := burnByte_frame offset b s
    obtain ⟨memory, flags, later, follows'⟩ := ih (offset + 1) (burnByte offset b s)
    rw [first] at later follows'
    refine ⟨memory, flags, ?_, follows'.size.trans follows.size, follows'.busy.trans follows.busy⟩
    rw [burnBytes, first, later]

theorem guards_burnByte (offset i : Nat) (b : UInt8) (s : Simulator device) :
    (burnByte offset b s).guards i = s.guards i := by
  obtain ⟨memory, flags, first, _⟩ := burnByte_frame offset b s
  rw [first]
  rfl

theorem get?_burnByte {offset i : Nat} (other : i ≠ offset) (b : UInt8) (s : Simulator device) :
    (burnByte offset b s).memory.get? i = s.memory.get? i := by
  unfold burnByte
  split
  · rfl
  · refine s.memory.get?_merge_outside _ ?_
    rw [List.length_singleton]
    omega

theorem get?_burnByte_self (offset : Nat) (b : UInt8) (s : Simulator device) :
    (burnByte offset b s).memory.get? offset = (s.memory.get? offset).map fun old =>
      if s.guards offset then old else old &&& b := by
  unfold burnByte
  split <;> simp_all [raise, Memory.get?_merge]

theorem get?_burnBytes_outside {offset i : Nat} {data : List UInt8}
    (outside : ¬ (offset ≤ i ∧ i < offset + data.length)) (s : Simulator device) :
    (burnBytes offset data s).memory.get? i = s.memory.get? i := by
  induction data generalizing offset s with
  | nil => rfl
  | cons b rest ih =>
    rw [List.length_cons] at outside
    rw [burnBytes, ih (by omega)]
    exact get?_burnByte (by omega) b s

/-- No byte of the data looks at the cell of another. -/
theorem get?_burnBytes_inside {offset i : Nat} {data : List UInt8} {b : UInt8}
    (here : data[i]? = some b) (s : Simulator device) :
    (burnBytes offset data s).memory.get? (offset + i) =
      (s.memory.get? (offset + i)).map fun old =>
        if s.guards (offset + i) then old else old &&& b := by
  induction data generalizing offset s i with
  | nil => cases here
  | cons c rest ih =>
    cases i with
    | zero =>
      obtain rfl : c = b := Option.some.inj here
      rw [burnBytes, get?_burnBytes_outside (by omega)]
      exact get?_burnByte_self offset c s
    | succ i =>
      have later : (burnBytes (offset + 1) rest (burnByte offset c s)).memory.get?
          (offset + 1 + i) = _ := ih here _
      rwa [guards_burnByte, Nat.add_right_comm, get?_burnByte (by omega)] at later

theorem reports_has {f : Flag .sr} (other : f ≠ .eop ∧ f ≠ .pgperr) (obstacle : Bool)
    (flags : Contents .sr) : (reports obstacle flags).has f = flags.has f := by
  rw [reports, Contents.has_set_of_ne other.1.symm]
  split
  · exact Contents.has_set_of_ne other.2.symm
  · rfl

/-- Programming raises no other flags than these three. -/
theorem burnBytes_has {f : Flag .sr} (other : f ≠ .eop ∧ f ≠ .pgperr) (unguarded : f ≠ .wrperr)
    (offset : Nat) (data : List UInt8) (s : Simulator device) :
    (burnBytes offset data s).flags.has f = s.flags.has f := by
  induction data generalizing offset s with
  | nil => rfl
  | cons b rest ih =>
    refine (ih (offset + 1) _).trans ?_
    unfold burnByte
    split
    · exact Contents.has_set_of_ne unguarded.symm
    · exact reports_has other _ _

theorem obstructed_cons (m : Memory) (offset : Nat) (b : UInt8) (rest : List UInt8) :
    obstructed m offset (b :: rest) =
      (obstructed m offset [b] || obstructed m (offset + 1) rest) := by
  simp [obstructed, List.zipIdx_cons]

/-- What was programmed below a range is no obstacle in it. -/
theorem obstructed_merge (m : Memory) (offset : Nat) (b : UInt8) (rest : List UInt8) :
    obstructed (m.merge (· &&& ·) offset [b]) (offset + 1) rest =
      obstructed m (offset + 1) rest := by
  unfold obstructed
  rw [Bool.eq_iff_iff, List.any_eq_true, List.any_eq_true]
  refine exists_congr fun ⟨c, i⟩ => and_congr_right fun member => ?_
  have above : offset + 1 ≤ i := List.le_snd_of_mem_zipIdx member
  have same : (m.merge (· &&& ·) offset [b]).get? i = m.get? i := by
    have beyond : [b][i - offset]? = none := List.getElem?_eq_none (by simp; omega)
    rw [Memory.get?_merge, if_pos (by omega), beyond]
  simp only [same]

theorem reports_reports (a b : Bool) (flags : Contents .sr) :
    reports b (reports a flags) = reports (a || b) flags := by
  have swap : ∀ v : Contents .sr, (v.set .eop true).set .pgperr true =
      (v.set .pgperr true).set .eop true := fun v => v.set_comm (f := .eop) (g := .pgperr) nofun _ _
  cases a <;> cases b <;> simp [reports, swap, Contents.set_set]

section
variable {offset : Nat} {data : List UInt8} {s : Simulator device}

theorem burnBytes_open (some : data ≠ [])
    (free : ∀ i, i < data.length → s.guards (offset + i) = false) :
    burnBytes offset data s = { s with
      memory := s.memory.merge (· &&& ·) offset data
      flags := reports (obstructed s.memory offset data) s.flags } := by
  induction data generalizing offset s with
  | nil => exact absurd rfl some
  | cons b rest ih =>
    have here : s.guards offset = false := free 0 (Nat.succ_pos _)
    have first : burnByte offset b s = { s with
        memory := s.memory.merge (· &&& ·) offset [b]
        flags := reports (obstructed s.memory offset [b]) s.flags } :=
      if_neg (Bool.eq_false_iff.mp here)
    cases rest with
    | nil => exact first
    | cons c rest =>
      rw [burnBytes, ih nofun]
      · rw [first, obstructed_merge, reports_reports, ← obstructed_cons]
        rfl
      · intro i small
        rw [guards_burnByte, Nat.add_assoc, Nat.add_comm 1]
        exact free (i + 1) (Nat.succ_lt_succ small)

theorem burnBytes_guarded (some : data ≠ [])
    (closed : ∀ i, i < data.length → s.guards (offset + i) = true) :
    burnBytes offset data s = raise .wrperr s := by
  induction data generalizing offset s with
  | nil => exact absurd rfl some
  | cons b rest ih =>
    have here : s.guards offset = true := closed 0 (Nat.succ_pos _)
    have first : burnByte offset b s = raise .wrperr s := if_pos here
    cases rest with
    | nil => exact first
    | cons c rest =>
      rw [burnBytes, ih nofun]
      · rw [first, raise, raise, Contents.set_set]
      · intro i small
        rw [guards_burnByte, Nat.add_assoc, Nat.add_comm 1]
        exact closed (i + 1) (Nat.succ_lt_succ small)

/-- One protected byte in the range is reported. -/
theorem burnBytes_wrperr {i : Nat} (small : i < data.length)
    (closed : s.guards (offset + i) = true) :
    (burnBytes offset data s).flags.has .wrperr = true := by
  have stays : ∀ data offset (s : Simulator device), s.flags.has .wrperr = true →
      (burnBytes offset data s).flags.has .wrperr = true := by
    intro data
    induction data with
    | nil => exact fun _ _ h => h
    | cons b rest ih =>
      intro offset s h
      refine ih _ _ ?_
      unfold burnByte reports
      split
      · exact Contents.has_set_self _ _ _
      · rw [Contents.has_set_of_ne (by decide)]
        split
        · exact (Contents.has_set_of_ne (by decide)).trans h
        · exact h
  induction data generalizing offset s i with
  | nil => exact absurd small (Nat.not_lt_zero i)
  | cons b rest ih =>
    cases i with
    | zero =>
      have first : burnByte offset b s = raise .wrperr s := if_pos closed
      rw [burnBytes, first]
      exact stays _ _ _ (Contents.has_set_self _ _ _)
    | succ i =>
      refine ih (Nat.lt_of_succ_lt_succ small) (i := i) ?_
      rw [guards_burnByte, Nat.add_assoc, Nat.add_comm 1]
      exact closed

end

/-- An aligned word has the effect of its bytes. -/
theorem burn_word {offset : Nat} {w : Word} (aligned : offset % w.width.bytes = 0)
    (s : Simulator device) :
    burnBytes offset w.bytes s =
      if s.guards offset then raise .wrperr s else { burn offset w s with busy := s.busy } := by
  have some := w.bytes_ne_nil
  have same : ∀ i, i < w.bytes.length → s.guards (offset + i) = s.guards offset := by
    intro i small
    rw [Word.length_bytes] at small
    rw [guards, Sector.indexOfOffset_aligned w.width aligned small, guards]
  by_cases guarded : s.guards offset = true
  · rw [if_pos guarded]
    exact burnBytes_guarded some fun i small => (same i small).trans guarded
  · have free : s.guards offset = false := Bool.eq_false_iff.mpr guarded
    rw [if_neg guarded, burnBytes_open some fun i small => (same i small).trans free]
    unfold burn reports
    split <;> rfl

end FlashController.Simulator
