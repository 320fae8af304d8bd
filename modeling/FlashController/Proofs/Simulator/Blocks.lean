import FlashController.Proofs.Simulator.Programming
import FlashController.Proofs.Tiling

/-! Programming blocks of data, byte by byte and in words as wide as can be. Both program what lies
in the window up to its end, and halt at the first address outside. -/
namespace FlashController.Simulator
variable {device : Device}

/-- Bytes from an address on that lie in the window without a break. -/
def room (a : Address) : Nat :=
  if flashStart ≤ a.toNat then flashStart + memorySize - a.toNat else 0

theorem room_pos_iff {a : Address} : 0 < room a ↔ InWindow a := by
  unfold room InWindow
  split <;> omega

theorem room_moved {a next : Address} {n : Nat} (inside : InWindow a)
    (moved : next.toNat = a.toNat + n) : room next = room a - n := by
  obtain ⟨low, _⟩ := inside
  unfold room
  rw [if_pos low, if_pos (moved ▸ Nat.le_add_right_of_le low)]
  omega

/-- How programming data from an address on ends. -/
inductive Outcome (p : Procedure Unit) (a : Address) (data : List UInt8)
    (s : Simulator device) : Prop
  | whole (w : Width) (fits : data.length ≤ room a)
      (run : Completes p s () (programmed w (burnBytes (a.toNat - flashStart) data) s))
  | cut (w u : Width) (edge : Address) (long : room a < data.length)
      (at_edge : edge.toNat = a.toNat + room a)
      (run : Halts p s (.outsideWindow edge)
        (aimed w (programmed u (burnBytes (a.toNat - flashStart) (data.take (room a))) s)))

section
variable {s : Simulator device}

/-- Setting up a word after another one leaves the width of the later. -/
theorem setUp_setUp (v : Contents .cr) (w u : Width) (on off : Bool) :
    (((v.setProgramWidth w).set .pg on).setProgramWidth u).set .pg off =
      (v.setProgramWidth u).set .pg off := by
  rw [Contents.set_setProgramWidth, Contents.setProgramWidth_setProgramWidth,
    Contents.set_set]

theorem programmed_programmed (w u : Width) (offset : Nat) (data more : List UInt8)
    (s : Simulator device) :
    programmed u (burnBytes (offset + data.length) more) (programmed w (burnBytes offset data) s) =
      programmed u (burnBytes offset (data ++ more)) s := by
  cases lock : s.isLocked .main with
  | true =>
    have still : s.rested.unkeyed.isLocked .main = true := lock
    rw [programmed_locked lock, programmed_locked still, programmed_locked lock]
    rfl
  | false =>
    have still : (controlled ((s.cr.setProgramWidth w).set .pg false)
        (burnBytes offset data s).rested).isLocked .main = false :=
      (has_lock_setUp s.cr w false).trans lock
    rw [programmed_unlocked lock, programmed_unlocked still, programmed_unlocked lock,
      burnBytes_controlled, ← burnBytes_append]
    exact congrArg (controlled · _) (setUp_setUp s.cr w u false false)

theorem aimed_programmed (w u : Width) (effect : Simulator device → Simulator device)
    (s : Simulator device) :
    aimed w (programmed u effect s) =
      if s.isLocked .main then s.rested.unkeyed
      else controlled ((s.cr.setProgramWidth w).set .pg true) (effect s).rested := by
  cases lock : s.isLocked .main with
  | true =>
    have still : s.rested.unkeyed.isLocked .main = true := lock
    rw [programmed_locked lock, aimed_locked still]
    rfl
  | false =>
    have still : (controlled ((s.cr.setProgramWidth u).set .pg false)
        (effect s).rested).isLocked .main = false := (has_lock_setUp s.cr u false).trans lock
    rw [programmed_unlocked lock, aimed_unlocked still]
    exact congrArg (controlled · _) (setUp_setUp s.cr u w false true)

theorem stored_aligned {a : Address} {w : Word} (aligned : a.toNat % w.width.bytes = 0) :
    (stored a w : Simulator device → Simulator device) =
      burnBytes (a.toNat - flashStart) w.bytes := funext fun _ => if_pos aligned

section
variable {p q : Procedure Unit} {a next : Address} {chunk rest : List UInt8}

theorem Outcome.append {w : Width} (inside : InWindow a) (fits : chunk.length ≤ room a)
    (moved : next.toNat = a.toNat + chunk.length)
    (first : Completes p s () (programmed w (burnBytes (a.toNat - flashStart) chunk) s))
    (later : Outcome q next rest (programmed w (burnBytes (a.toNat - flashStart) chunk) s)) :
    Outcome (p >>= fun _ => q) a (chunk ++ rest) s := by
  have left : room next = room a - chunk.length := room_moved inside moved
  have offset : next.toNat - flashStart = a.toNat - flashStart + chunk.length := by
    have low := inside.1
    omega
  cases later with
  | whole u fits' run =>
    rw [offset, programmed_programmed] at run
    refine .whole u ?_ (first.bind run)
    rw [List.length_append]
    omega
  | cut u x edge long at_edge run =>
    have taken : (chunk ++ rest).take (room a) = chunk ++ rest.take (room next) := by
      rw [left, List.take_append, List.take_of_length_le fits]
    rw [offset, programmed_programmed, ← taken] at run
    refine .cut u x edge ?_ ?_ (first.halts run)
    · rw [List.length_append]
      omega
    · omega

theorem Outcome.outside {data : List UInt8} {w : Width} (outside : ¬ InWindow a)
    (some : data ≠ []) (run : Halts p s (.outsideWindow a) (aimed w s)) : Outcome p a data s := by
  have none : room a = 0 := Nat.eq_zero_of_not_pos fun pos => outside (room_pos_iff.mp pos)
  have length := List.length_pos_iff.mpr some
  refine .cut w w a (none ▸ length) (none ▸ rfl) ?_
  rw [none, List.take_zero, aimed_programmed]
  exact run

end

/-- The window ends before the address space. -/
theorem advance_inside {a : Address} {n : Nat} (inside : InWindow a) (fits : n ≤ room a) :
    ∃ next : Address, a.advance? n = some next ∧ next.toNat = a.toNat + n := by
  have small : a.toNat + n < UInt64.size := by
    obtain ⟨low, high⟩ := inside
    unfold room at fits
    rw [if_pos low] at fits
    unfold flashStart memorySize UInt64.size at *
    omega
  exact ⟨⟨a.toNat + n, small⟩, dif_pos small, rfl⟩

theorem programBytes_outcome (h : Sound s) {a target : Address} {offset : Nat}
    {data : List UInt8} (some : data ≠ []) (moved : a.advance? offset = .some target) :
    Outcome (Procedure.programBytes a offset data) target data s := by
  induction data generalizing s offset target with
  | nil => exact absurd rfl some
  | cons b rest ih =>
    rw [Procedure.programBytes, Procedure.advance_eq moved, pure_bind]
    by_cases inside : InWindow target
    · have fits : [b].length ≤ room target := room_pos_iff.mpr inside
      have first := program_completes h inside (.ofByte b)
      rw [stored_aligned (Nat.mod_one _), Word.bytes_ofByte] at first
      cases rest with
      | nil => exact .whole .x8 fits (first.bind (completes_pure () _))
      | cons c rest =>
        obtain ⟨next, further, stepped⟩ := advance_inside inside fits
        have start := Address.ofNat?_eq_some_iff.mp moved
        have moved' : a.advance? (offset + 1) = .some next :=
          Address.ofNat?_eq_some_iff.mpr (by rw [stepped, start, Nat.add_assoc]; rfl)
        exact .append inside fits stepped first (ih (h.run first) (List.cons_ne_nil c rest) moved')
    · exact .outside inside some (program_halts h inside _).bind

theorem programWords_outcome (h : Sound s) {a : Address} {data : List UInt8} {n : Nat}
    (some : data ≠ []) (short : data.length ≤ n) (limit : Width) :
    Outcome (Procedure.programWords a (tile a.toNat data limit)) a data s := by
  induction n generalizing s a data with
  | zero => exact absurd (List.eq_nil_of_length_eq_zero (Nat.le_zero.mp short)) some
  | succ n ih =>
    obtain ⟨b, rest, rfl⟩ := List.exists_cons_of_ne_nil some
    obtain ⟨aligned, wide⟩ := widestAccess_fits a.toNat limit (Nat.succ_pos rest.length)
    rw [tile, Procedure.programWords]
    generalize widestAccess a.toNat (rest.length + 1) limit = w at aligned wide
    by_cases inside : InWindow a
    · have length : ((b :: rest).take w.bytes).length = w.bytes := List.length_take_of_le wide
      have fits : w.bytes ≤ room a := by
        have ends : a.toNat - flashStart + w.bytes ≤ memorySize :=
          word_inside (w := .ofBytes w ((b :: rest).take w.bytes)) inside aligned
        have low := inside.1
        rw [room, if_pos low]
        omega
      have first := program_completes h inside (.ofBytes w ((b :: rest).take w.bytes))
      rw [stored_aligned aligned, Word.bytes_ofBytes length] at first
      obtain ⟨next, further, stepped⟩ := advance_inside inside fits
      have moves : Procedure.advance a (Word.ofBytes w ((b :: rest).take w.bytes)).width.bytes =
          pure next := Procedure.advance_eq further
      rw [moves, pure_bind, ← stepped]
      rw [← length] at stepped fits
      have split := List.take_append_drop w.bytes (b :: rest)
      cases remaining : (b :: rest).drop w.bytes with
      | nil =>
        rw [remaining, List.append_nil] at split
        rw [split] at fits first ⊢
        rw [tile]
        exact .whole w fits (first.bind (completes_pure () _))
      | cons c more =>
        have shorter : (c :: more).length ≤ n := by
          rw [← remaining, List.length_drop]
          have := w.bytes_pos
          omega
        rw [remaining] at split
        have later : Outcome (Procedure.programWords next (tile next.toNat (c :: more) limit)) next
            (c :: more) _ := ih (h.run first) (List.cons_ne_nil c more) shorter
        have joined := Outcome.append inside fits stepped first later
        rwa [split] at joined
    · exact .outside inside some (program_halts h inside _).bind

end

/-- Equal in all but the program width and what was noted. -/
def AgreeButWidth (s t : Simulator device) : Prop :=
  ∃ cr events, t = { s with cr, events } ∧
    cr.raw &&& ~~~Field.psize.mask = s.cr.raw &&& ~~~Field.psize.mask

/-- Both complete, or both halt with a store outside of the window at one address. -/
inductive SameOutcome : (x y : EStateM.Result Halt (Simulator device) Unit) → Prop
  | completed {s t} : AgreeButWidth s t → SameOutcome (.ok () s) (.ok () t)
  | halted (edge : Address) {s t} : AgreeButWidth s t →
      SameOutcome (.error (.outsideWindow edge) s) (.error (.outsideWindow edge) t)

theorem setUp_agrees (v : Contents .cr) (w u : Width) (on : Bool) :
    ((v.setProgramWidth u).set .pg on).raw &&& ~~~Field.psize.mask =
      ((v.setProgramWidth w).set .pg on).raw &&& ~~~Field.psize.mask := by
  have masked : ∀ (v : Contents .cr) (w : Width),
      (v.setProgramWidth w).raw &&& ~~~Field.psize.mask = v.raw &&& ~~~Field.psize.mask := by
    intro v w
    apply BitVec.eq_of_getLsbD_eq
    intro i _
    rw [BitVec.getLsbD_and, BitVec.getLsbD_and, BitVec.getLsbD_not, Contents.setProgramWidth,
      Contents.setField, Contents.getLsbD_put]
    cases (Field.psize.mask).getLsbD i <;> simp
  rw [← Contents.set_setProgramWidth, masked,
    ← Contents.set_setProgramWidth, masked]

theorem programmed_agrees (w u : Width) (effect : Simulator device → Simulator device)
    (s : Simulator device) (events later : List Event) :
    AgreeButWidth ((programmed w effect s).logged events)
      ((programmed u effect s).logged later) := by
  cases lock : s.isLocked .main with
  | true =>
    rw [programmed_locked lock, programmed_locked lock]
    exact ⟨s.cr, later, rfl, rfl⟩
  | false =>
    rw [programmed_unlocked lock, programmed_unlocked lock]
    exact ⟨_, later, rfl, setUp_agrees s.cr w u false⟩

theorem aimed_agrees (w u x y : Width) (effect : Simulator device → Simulator device)
    (s : Simulator device) (events later : List Event) :
    AgreeButWidth ((aimed w (programmed x effect s)).logged events)
      ((aimed u (programmed y effect s)).logged later) := by
  rw [aimed_programmed, aimed_programmed]
  cases s.isLocked .main with
  | true => exact ⟨s.cr, later, rfl, rfl⟩
  | false => exact ⟨_, later, rfl, setUp_agrees s.cr w u true⟩

theorem Outcome.same {p q : Procedure Unit} {a : Address} {data : List UInt8}
    {s : Simulator device} (first : Outcome p a data s) (second : Outcome q a data s) :
    SameOutcome (p.run s) (q.run s) := by
  cases first with
  | whole w fits run =>
    cases second with
    | whole u _ run' =>
      obtain ⟨events, run⟩ := run s.events
      obtain ⟨later, run'⟩ := run' s.events
      have run : p.run s = _ := run
      have run' : q.run s = _ := run'
      rw [run, run']
      exact .completed (programmed_agrees _ _ _ s _ _)
    | cut _ _ _ long _ _ => exact absurd fits (Nat.not_le_of_lt long)
  | cut w x edge long at_edge run =>
    cases second with
    | whole _ fits _ => exact absurd fits (Nat.not_le_of_lt long)
    | cut u y edge' _ at_edge' run' =>
      obtain rfl : edge = edge' := Address.ext (at_edge.trans at_edge'.symm)
      obtain ⟨events, run⟩ := run s.events
      obtain ⟨later, run'⟩ := run' s.events
      have run : p.run s = _ := run
      have run' : q.run s = _ := run'
      rw [run, run']
      exact .halted edge (aimed_agrees _ _ _ _ _ s _ _)

/-- Programming a block in wide words does what programming it byte by byte does, at every address
and in every state of the controller. -/
theorem programBlockWide_agrees {s : Simulator device} (h : Reachable s) (a : Address)
    (data : List UInt8) (limit : Width) :
    SameOutcome ((Procedure.programBlockWide a data limit).run s)
      ((Procedure.programBlock a data).run s) := by
  cases data with
  | nil =>
    rw [Procedure.programBlockWide, tile]
    exact .completed ⟨s.cr, s.events, rfl, rfl⟩
  | cons b rest =>
    have wide := programWords_outcome h.sound (a := a) (List.cons_ne_nil b rest) (Nat.le_refl _)
      limit
    have narrow := programBytes_outcome h.sound (List.cons_ne_nil b rest)
      (Address.ofNat?_eq_some_iff.mpr rfl : a.advance? 0 = some a)
    exact wide.same narrow

/-- Six bytes over the end of the window, with stale bits in the control register. -/
theorem programBlockWide_agrees_at_end :
    let s : Simulator .generic := afterAll [
      .access (.key .main (Domain.firstKey .main)),
      .access (.key .main (Domain.secondKey .main)),
      .access (.write .cr ⟨0x00000206⟩)] (new .generic)
    let a : Address := ⟨0x080FFFFC, by decide⟩
    s.isLocked .main = false ∧ room a = 4 ∧
      SameOutcome ((Procedure.programBlockWide a [1, 2, 3, 4, 5, 6] .x64).run s)
        ((Procedure.programBlock a [1, 2, 3, 4, 5, 6]).run s) := by
  intro s a
  have reachable : Reachable s := (Reachable.start (Register.atReset .optcr)).calls _
  exact ⟨by decide, by decide, programBlockWide_agrees reachable a _ _⟩

end FlashController.Simulator
