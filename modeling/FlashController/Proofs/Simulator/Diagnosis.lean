import FlashController.Procedure.Control
import FlashController.Proofs.Simulator.Blocks
import FlashController.Proofs.Simulator.Erasing

/-! What the status flags tell about an operation, once they were cleared before it. Operations
return nothing, so the flags are all that a caller learns. -/
namespace FlashController

namespace Procedure

/-- An operation between clearing the status flags and looking at them. -/
def diagnosed (p : Procedure Unit) : Procedure (Option FlashError × Bool) := do
  clearStatus
  p
  let error := (← status).error?
  return (error, (← status).has .eop)

end Procedure

namespace Contents

theorem error?_eq_none_iff {v : Contents .sr} :
    v.error? = none ↔ v.has .wrperr = false ∧ v.has .pgaerr = false ∧ v.has .pgperr = false ∧
      v.has .erserr = false := by
  unfold error?
  cases v.has .wrperr <;> cases v.has .pgaerr <;> cases v.has .pgperr <;> cases v.has .erserr <;>
    simp

/-- Writing a one to a flag clears it and no other. -/
theorem clear_flag (c : Clearable) (v : Contents .sr) :
    (⟨v.raw &&& ~~~(((Contents.mk 0 : Contents .sr).set c.flag true).raw &&& stickyMask)⟩ :
      Contents .sr) = v.set c.flag false := by
  have sticky : stickyMask.getLsbD c.flag.bit = true := by cases c <;> decide
  apply eq_of_bits
  intro i
  by_cases small : i < 32
  · rw [getLsbD_set, BitVec.getLsbD_and, BitVec.getLsbD_not, BitVec.getLsbD_and, getLsbD_set]
    by_cases here : c.flag.bit = i
    · rw [if_pos here, if_pos here, ← here, sticky]
      simp
    · rw [if_neg here, if_neg here]
      simp [small]
  · rw [BitVec.getLsbD_of_ge _ _ (Nat.le_of_not_lt small),
      BitVec.getLsbD_of_ge _ _ (Nat.le_of_not_lt small)]

end Contents

namespace Simulator
variable {device : Device}

/-- The state after the status flags were cleared. -/
def cleared (s : Simulator device) : Simulator device :=
  { s with flags := ((((s.flags.set .erserr false).set .pgaerr false).set .wrperr false).set
      .pgperr false).set .eop false }

theorem cleared_error (s : Simulator device) : (cleared s).flags.error? = none := by
  rw [Contents.error?_eq_none_iff]
  simp [cleared, Contents.has_set, Flag.bit]

theorem cleared_eop (s : Simulator device) : (cleared s).flags.has .eop = false :=
  Contents.has_set_self _ _ _

section
variable {s t : Simulator device}

theorem clear_completes (c : Clearable) (s : Simulator device) :
    Completes (Procedure.clear c) s () { s with flags := s.flags.set c.flag false } := by
  intro events
  have lowered := Contents.clear_flag c s.flags
  rw [← lowered]
  exact ⟨_, congrFun (Procedure.run_act _) _⟩

theorem clearStatus_completes (s : Simulator device) :
    Completes Procedure.clearStatus s () (cleared s) :=
  (clear_completes .erserr s).bind <| (clear_completes .pgaerr _).bind <|
    (clear_completes .wrperr _).bind <| (clear_completes .pgperr _).bind (clear_completes .eop _)

theorem status_completes (idle : t.busy = 0) : Completes Procedure.status t t.flags t := by
  intro events
  refine ⟨.statusRead false :: events, (congrFun (Procedure.run_act _) _).trans ?_⟩
  refine (perform_status (t.logged events)).trans ?_
  simp only [pollStatus, if_pos idle]
  rfl

theorem diagnosed_completes {p : Procedure Unit} (run : Completes p (cleared s) () t)
    (idle : t.busy = 0) :
    Completes p.diagnosed s (t.flags.error?, t.flags.has .eop) t :=
  (clearStatus_completes s).bind <| run.bind <| (status_completes idle).bind <|
    (status_completes idle).bind (completes_pure _ t)

end

section Data
variable {s : Simulator device} {offset : Nat} {data : List UInt8}

theorem obstructed_eq_false_iff {m : Memory} :
    obstructed m offset data = false ↔
      ∀ i b, data[i]? = some b → ∀ old, m.get? (offset + i) = some old → old &&& b = b := by
  rw [obstructed, List.any_eq_false]
  constructor
  · intro free i b here old was
    have member : (b, offset + i) ∈ data.zipIdx offset := by
      rw [List.mk_mem_zipIdx_iff_le_and_getElem?_sub, Nat.add_sub_cancel_left]
      exact ⟨Nat.le_add_right _ _, here⟩
    have kept := free _ member
    simp only [was, Option.any_some, bne_iff_ne, Decidable.not_not] at kept
    exact kept
  · rintro kept ⟨b, i⟩ member
    obtain ⟨low, here⟩ := List.mk_mem_zipIdx_iff_le_and_getElem?_sub.mp member
    have moved : offset + (i - offset) = i := Nat.add_sub_cancel' low
    cases was : m.get? i with
    | none => simp [was]
    | some old =>
      have same := kept (i - offset) b here old ((congrArg m.get? moved).trans was)
      simp [was, same]

/-- Programmed data reads back just when no bit had to be set. -/
theorem read_merge_eq_iff {m : Memory} (fits : offset + data.length ≤ m.size) :
    (m.merge (· &&& ·) offset data).read offset data.length = data ↔
      obstructed m offset data = false := by
  rw [obstructed_eq_false_iff, List.ext_getElem?_iff]
  apply forall_congr'
  intro i
  rw [Memory.getElem?_read]
  by_cases small : i < data.length
  · have here : data[i]? = some data[i] := List.getElem?_eq_getElem small
    have inside : offset + i < m.cells.size := Nat.lt_of_lt_of_le (Nat.add_lt_add_left small _) fits
    have was : m.get? (offset + i) = some m.cells[offset + i] := Array.getElem?_eq_getElem inside
    rw [if_pos small, Memory.get?_merge, if_pos (Nat.le_add_right _ _), Nat.add_sub_cancel_left,
      here, was]
    simp
  · have beyond : data[i]? = none := List.getElem?_eq_none (Nat.le_of_not_lt small)
    rw [if_neg small, beyond]
    simp

theorem reports_error {flags : Contents .sr} (clear : flags.error? = none) (obstacle : Bool) :
    (reports obstacle flags).error? = none ↔ obstacle = false := by
  obtain ⟨wrperr, pgaerr, pgperr, erserr⟩ := Contents.error?_eq_none_iff.mp clear
  rw [Contents.error?_eq_none_iff]
  cases obstacle <;> simp [reports, Contents.has_set, Flag.bit, *]

/-- Programming bytes shows no error just when no byte is protected and all of them read back. -/
theorem burnBytes_honest (clear : s.flags.error? = none) (some : data ≠ [])
    (fits : offset + data.length ≤ s.memory.size) :
    (burnBytes offset data s).flags.error? = none ↔
      (∀ i, i < data.length → s.guards (offset + i) = false) ∧
        (burnBytes offset data s).memory.read offset data.length = data := by
  by_cases free : ∀ i, i < data.length → s.guards (offset + i) = false
  · rw [burnBytes_open some free, reports_error clear, read_merge_eq_iff fits]
    exact (and_iff_right free).symm
  · refine iff_of_false (fun silent => ?_) fun honest => free honest.1
    obtain ⟨i, h⟩ := Classical.not_forall.mp free
    obtain ⟨small, closed⟩ := Classical.not_imp.mp h
    have raised := burnBytes_wrperr (s := s) small (Bool.of_not_eq_false closed)
    exact absurd (raised.symm.trans (Contents.error?_eq_none_iff.mp silent).1) nofun

end Data

/-- A range lies in the window. -/
def Within (a : Address) (n : Nat) : Prop :=
  flashStart ≤ a.toNat ∧ a.toNat + n ≤ flashStart + memorySize

/-- No byte of a range lies in a protected sector. -/
def Unprotected (s : Simulator device) (a : Address) (n : Nat) : Prop :=
  ∀ (b : Address) (sector : Sector), a.toNat ≤ b.toNat → b.toNat < a.toNat + n →
    sector.Contains b → s.isProtected sector = false

theorem unprotected_iff {s : Simulator device} {a : Address} {n : Nat} (within : Within a n) :
    Unprotected s a n ↔ ∀ i, i < n → s.guards (a.toNat - flashStart + i) = false := by
  obtain ⟨low, high⟩ := within
  have at_offset : ∀ b : Address, a.toNat ≤ b.toNat → b.toNat < a.toNat + n →
      (Sector.ofAddress? b).any s.isProtected =
        s.guards (a.toNat - flashStart + (b.toNat - a.toNat)) := by
    intro b above below
    have offset : b.toNat - flashStart = a.toNat - flashStart + (b.toNat - a.toNat) := by omega
    rw [protected_iff_guards ⟨Nat.le_trans low above, Nat.lt_of_lt_of_le below high⟩, offset]
  constructor
  · intro free i small
    have bound : a.toNat + i < UInt64.size := by
      unfold flashStart memorySize UInt64.size at *
      omega
    have here := at_offset ⟨a.toNat + i, bound⟩ (Nat.le_add_right _ _)
      (Nat.add_lt_add_left small _)
    simp only [Nat.add_sub_cancel_left] at here
    rw [← here]
    cases found : Sector.ofAddress? ⟨a.toNat + i, bound⟩ with
    | none => rfl
    | some sector =>
      exact free _ sector (Nat.le_add_right _ _) (Nat.add_lt_add_left small _)
        (Sector.ofAddress?_eq_some_iff.mp found)
  · intro free b sector above below contains
    have here := at_offset b above below
    rw [Sector.ofAddress?_eq_some_iff.mpr contains, free _ (by omega)] at here
    exact here

/-- A diagnosed operation completes, and a claim holds of the error, the end of operation and the
memory afterwards. -/
def Tells (p : Procedure Unit) (s : Simulator device)
    (claim : Option FlashError → Bool → Memory → Prop) : Prop :=
  ∃ error eop t, p.diagnosed.run s = .ok (error, eop) t ∧ claim error eop t.memory

/-- Silence with an end of operation means that the data was programmed. In an unlocked controller
silence means no more and no less than that it could be and was. -/
def Programs (s : Simulator device) (a : Address) (data : List UInt8) (aligned : Prop)
    (error : Option FlashError) (eop : Bool) (m : Memory) : Prop :=
  (error = none → eop = true → m.read (a.toNat - flashStart) data.length = data) ∧
    (s.isLocked .main = false → (error = none ↔
      Unprotected s a data.length ∧ m.read (a.toNat - flashStart) data.length = data ∧ aligned))

section
variable {s t : Simulator device} {p : Procedure Unit}

theorem Completes.tells {claim : Option FlashError → Bool → Memory → Prop}
    (run : Completes p (cleared s) () t) (idle : t.busy = 0)
    (holds : claim t.flags.error? (t.flags.has .eop) t.memory) : Tells p s claim := by
  obtain ⟨later, run⟩ := diagnosed_completes run idle s.events
  exact ⟨_, _, t.logged later, run, holds⟩

theorem Sound.cleared (h : Sound s) : Sound (cleared s) := h.run (clearStatus_completes s)

/-- A locked controller shows no end of operation. -/
theorem tells_locked {claim : Option FlashError → Bool → Memory → Prop}
    (run : Completes p (cleared s) () (cleared s).rested.unkeyed)
    (holds : ∀ error, claim error false s.memory) : Tells p s claim := by
  refine run.tells rfl ?_
  have silent : (cleared s).rested.unkeyed.flags.has .eop = false := cleared_eop s
  rw [silent]
  exact holds _

theorem programmed_tells {a : Address} {data : List UInt8} {aligned : Prop} {w : Width}
    {effect : Simulator device → Simulator device} (within : Within a data.length)
    (run : Completes p (cleared s) () (programmed w effect (cleared s)))
    (honest : (effect (cleared s)).flags.error? = none ↔
      (∀ i, i < data.length → s.guards (a.toNat - flashStart + i) = false) ∧
        (effect (cleared s)).memory.read (a.toNat - flashStart) data.length = data ∧ aligned) :
    Tells p s (Programs s a data aligned) := by
  cases lock : s.isLocked .main with
  | true =>
    have locked : (cleared s).isLocked .main = true := lock
    rw [programmed_locked locked] at run
    refine tells_locked run fun error => ⟨fun _ => nofun, fun unlocked => ?_⟩
    exact absurd (lock.symm.trans unlocked) nofun
  | false =>
    have unlocked : (cleared s).isLocked .main = false := lock
    rw [programmed_unlocked unlocked] at run
    refine run.tells rfl ⟨fun silent _ => (honest.mp silent).2.1, fun _ => ?_⟩
    rw [unprotected_iff within]
    exact honest

theorem within_fits (h : Sound s) {a : Address} {n : Nat} (within : Within a n) :
    a.toNat - flashStart + n ≤ (cleared s).memory.size := by
  have size : (cleared s).memory.size = memorySize := h.memory_size
  obtain ⟨low, high⟩ := within
  omega

/-- Raised errors are not silent. -/
theorem raise_loud {f : Flag .sr}
    (error : f = .wrperr ∨ f = .pgaerr ∨ f = .pgperr ∨ f = .erserr) :
    (raise f s).flags.error? ≠ none := by
  rw [Ne, Contents.error?_eq_none_iff]
  rcases error with rfl | rfl | rfl | rfl <;> simp [raise]

theorem program_tells (h : Sound s) {a : Address} {w : Word} (within : Within a w.bytes.length) :
    Tells (.program a w) s (Programs s a w.bytes (a.toNat % w.width.bytes = 0)) := by
  have some := w.bytes_ne_nil
  have inside : InWindow a := by
    have positive := List.length_pos_iff.mpr some
    exact ⟨within.1, by have := within.2; omega⟩
  refine programmed_tells within (program_completes h.cleared inside w) ?_
  by_cases aligned : a.toNat % w.width.bytes = 0
  · rw [stored_aligned aligned, burnBytes_honest (cleared_error s) some (within_fits h within)]
    simp only [aligned, and_true]
    rfl
  · have refused : stored a w (cleared s) = raise .pgaerr (cleared s) := if_neg aligned
    refine iff_of_false (fun silent => ?_) fun honest => aligned honest.2.2
    rw [refused] at silent
    exact raise_loud (by simp) silent

theorem within_room {a : Address} {n : Nat} (within : Within a n) : n ≤ room a := by
  obtain ⟨low, high⟩ := within
  rw [room, if_pos low]
  omega

theorem outcome_tells (h : Sound s) {a : Address} {data : List UInt8} (some : data ≠ [])
    (within : Within a data.length) (outcome : Outcome p a data (cleared s)) :
    Tells p s (Programs s a data True) := by
  cases outcome with
  | whole w _ run =>
    refine programmed_tells within run ?_
    rw [burnBytes_honest (cleared_error s) some (within_fits h within)]
    simp only [and_true]
    rfl
  | cut _ _ _ long _ _ => exact absurd (within_room within) (Nat.not_le_of_lt long)

/-- Silence with an end of operation means that some erase was done. -/
theorem erase_tells (h : Sound s) (w : Width) {select deselect : Contents .cr → Contents .cr}
    (selects : Harmless select) (deselects : Harmless deselect) {blank : Memory → Prop}
    (one : ∀ sector, sectors[(starting w select s.cr).sector device]? = some sector →
      (starting w select s.cr).has .mer = false →
      blank (s.memory.fill sector.offset sector.size 0xFF))
    (all : (starting w select s.cr).has .ser = false →
      blank (sectors.foldl (fun m sector => m.fill sector.offset sector.size 0xFF) s.memory)) :
    Tells (Procedure.erase w select deselect) s
      fun error eop m => error = none → eop = true → blank m := by
  cases lock : s.isLocked .main with
  | true =>
    exact tells_locked (erase_locked h.cleared lock w selects deselects) fun _ _ => nofun
  | false =>
    refine (erase_unlocked h.cleared lock w selects deselects).tells rfl ?_
    have same : starting w select (cleared s).cr = starting w select s.cr := rfl
    rw [same]
    intro silent ended
    have silent : (erased (starting w select s.cr) (cleared s)).flags.error? = none := silent
    have ended : (erased (starting w select s.cr) (cleared s)).flags.has .eop = true := ended
    show blank (erased (starting w select s.cr) (cleared s)).memory
    have effect := erased_cases (starting w select s.cr) (cleared s)
    generalize erased (starting w select s.cr) (cleared s) = t at silent ended effect ⊢
    cases effect with
    | refused => exact absurd silent (raise_loud (by simp))
    | confused => exact absurd silent (raise_loud (by simp))
    | nowhere => exact absurd ((cleared_eop s).symm.trans ended) nofun
    | sector sector found alone => exact one sector found alone
    | everything mass =>
      rw [foldl_eraseMemory]
      exact all mass

/-- A sector number is cut to the field of the device. -/
def fieldNumber (device : Device) (n : UInt8) : Nat :=
  (BitVec.ofNat device.sectorBits n.toNat).toNat

theorem eraseSector_tells (h : Sound s) (n : UInt8) (w : Width) :
    Tells (.eraseSector device n w) s fun error eop m => error = none → eop = true →
      ∃ sector ∈ sectors, sector.index.val = fieldNumber device n ∧
        ∀ i, sector.offset ≤ i → i < sector.offset + sector.size → m.get? i = some 0xFF := by
  refine erase_tells h w (harmless_selectSector device n.toNat) (harmless_deselectSector device)
    ?_ ?_
  · intro sector found _
    simp only [starting, Contents.sector_set, Contents.sector_setSector] at found
    obtain ⟨number, small⟩ := getElem?_sectors found
    refine ⟨sector, List.mem_of_getElem? found, number, fun i low high => ?_⟩
    have ends := sector_inside (number ▸ small)
    exact get?_fill_inside (Nat.lt_of_lt_of_le high (h.memory_size ▸ ends)) low high
  · intro mass
    simp [starting, Contents.has_set_of_ne] at mass

theorem eraseAll_tells (h : Sound s) (w : Width) :
    Tells (.eraseAll w) s fun error eop m => error = none → eop = true →
      ∀ i, i < memorySize → m.get? i = some 0xFF := by
  refine erase_tells h w (harmless_mass true) (harmless_mass false) ?_ ?_
  · intro sector _ alone
    simp [starting, Contents.has_set_of_ne] at alone
  · intro _ i inside
    exact get?_blanked_inside (h.memory_size ▸ inside) (covered inside)

end

/-- The flags report honestly, in every state of the controller. -/
theorem status_honest {s : Simulator device} (h : Reachable s) :
    (∀ a w, Within a w.bytes.length →
      Tells (.program a w) s (Programs s a w.bytes (a.toNat % w.width.bytes = 0))) ∧
    (∀ a data, data ≠ [] → Within a data.length →
      Tells (.programBlock a data) s (Programs s a data True)) ∧
    (∀ a data limit, data ≠ [] → Within a data.length →
      Tells (.programBlockWide a data limit) s (Programs s a data True)) ∧
    (∀ n w, Tells (.eraseSector device n w) s fun error eop m => error = none → eop = true →
      ∃ sector ∈ sectors, sector.index.val = fieldNumber device n ∧
        ∀ i, sector.offset ≤ i → i < sector.offset + sector.size → m.get? i = some 0xFF) ∧
    ∀ w, Tells (.eraseAll w) s fun error eop m => error = none → eop = true →
      ∀ i, i < memorySize → m.get? i = some 0xFF := by
  have sound := h.sound
  refine ⟨fun a w => program_tells sound, fun a data some within => ?_,
    fun a data limit some within => ?_, eraseSector_tells sound, eraseAll_tells sound⟩
  · have start : a.advance? 0 = .some a := Address.ofNat?_eq_some_iff.mpr rfl
    exact outcome_tells sound some within (programBytes_outcome sound.cleared some start)
  · exact outcome_tells sound some within
      (programWords_outcome sound.cleared some (Nat.le_refl _) limit)

/-- Six bytes over the boundary to a protected sector, in an unlocked controller. -/
theorem status_honest_at_boundary :
    let s : Simulator .generic := afterAll [
      .access (.key .main (Domain.firstKey .main)),
      .access (.key .main (Domain.secondKey .main)),
      .control (.setFlags ⟨0xF0⟩)] (withOptionBytes .generic ⟨0xCFFDAAEC⟩)
    let a : Address := ⟨0x08007FFC, by decide⟩
    s.isLocked .main = false ∧
      Tells (.programBlockWide a [1, 2, 3, 4, 5, 6] .x64) s
        (Programs s a [1, 2, 3, 4, 5, 6] True) := by
  intro s a
  have reachable : Reachable s := (Reachable.start ⟨0xCFFDAAEC⟩).calls _
  exact ⟨by decide, (status_honest reachable).2.2.1 a _ _ nofun ⟨by decide, by decide⟩⟩

end Simulator
end FlashController
