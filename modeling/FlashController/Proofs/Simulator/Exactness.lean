import FlashController.Proofs.Simulator.Writing

/-! What one erase and one program operation do to an unlocked controller, whatever it was doing
before. The memory and the flags follow from the state before, the control register keeps the width
of the operation, and nothing else is touched. -/
namespace FlashController.Simulator
variable {device : Device}

/-- A state after an operation that leaves some contents in the control register. -/
structure Ended (v : Contents .cr) (s t : Simulator device) : Prop where
  control : t.cr = v
  unlocked : t.isLocked .main = false
  idle : t.busy = 0
  violations : t.violations = s.violations
  others : t = { s with
    memory := t.memory, cr := t.cr, flags := t.flags, busy := t.busy, events := t.events }

/-- The memory and the flags after an erase of some sectors. -/
inductive Erasure (chosen : List Sector) (s : Simulator device) : Memory → Contents .sr → Prop
  | done {m : Memory} (some : chosen ≠ []) (free : ∀ sector ∈ chosen, s.isProtected sector = false)
      (bytes : ∀ i, m.get? i =
        if ∃ sector ∈ chosen, sector.Covers i then .some 0xFF else s.memory.get? i) :
      Erasure chosen s m (s.flags.set .eop true)
  | refused {sector : Sector} (member : sector ∈ chosen) (closed : s.isProtected sector = true) :
      Erasure chosen s s.memory (s.flags.set .wrperr true)
  /-- That there is nothing to erase is not reported. -/
  | nowhere (none : chosen = []) : Erasure chosen s s.memory s.flags

/-- Some byte of the data has to set bits where it goes. -/
def Clashes (m : Memory) (offset : Nat) (data : List UInt8) : Prop :=
  ∃ i b old, data[i]? = some b ∧ m.get? (offset + i) = some old ∧ old &&& b ≠ b

/-- The memory and the flags after a word was programmed, or refused for the first reason that there
is. -/
inductive Landing (a : Address) (w : Word) (s : Simulator device) : Memory → Contents .sr → Prop
  | misaligned (off : a.toNat % w.width.bytes ≠ 0) :
      Landing a w s s.memory (s.flags.set .pgaerr true)
  | refused {sector : Sector} (aligned : a.toNat % w.width.bytes = 0) (contains : sector.Contains a)
      (closed : s.isProtected sector = true) : Landing a w s s.memory (s.flags.set .wrperr true)
  | programmed {sector : Sector} {m : Memory} {flags : Contents .sr}
      (aligned : a.toNat % w.width.bytes = 0) (contains : sector.Contains a)
      (free : s.isProtected sector = false)
      (bytes : ∀ i b, w.bytes[i]? = some b → ∃ old,
        s.memory.get? (a.toNat - flashStart + i) = some old ∧
        m.get? (a.toNat - flashStart + i) = some (old &&& b))
      (outside : ∀ i, ¬ (a.toNat - flashStart ≤ i ∧ i < a.toNat - flashStart + w.width.bytes) →
        m.get? i = s.memory.get? i)
      (clean : ¬ Clashes s.memory (a.toNat - flashStart) w.bytes → flags = s.flags.set .eop true)
      (clash : Clashes s.memory (a.toNat - flashStart) w.bytes →
        flags = (s.flags.set .pgperr true).set .eop true) :
      Landing a w s m flags

section
variable {s : Simulator device}

theorem ended_controlled {v : Contents .cr} (unlocked : v.has .lock = false) (memory : Memory)
    (flags : Contents .sr) (events : List Event) :
    Ended v s ((controlled v { s with memory, flags }.rested).logged events) :=
  ⟨rfl, unlocked, rfl, rfl, rfl⟩

section Erase

/-- An erase of one kind is done in what it selects, or refused. -/
theorem erased_erasure {v : Contents .cr} (size : s.memory.size = memorySize)
    (single : v.has .mer ≠ v.has .ser) : ∃ memory flags, erased v s = { s with memory, flags } ∧
      Erasure (selected device v) s memory flags := by
  refine ⟨_, _, erased_eq v s, ?_⟩
  rw [verdict, if_neg single]
  by_cases guarded : (selected device v).any s.isProtected = true
  · obtain ⟨sector, member, closed⟩ := List.any_eq_true.mp guarded
    rw [if_pos guarded, if_pos guarded]
    exact .refused member closed
  · have free : ∀ sector ∈ selected device v, s.isProtected sector = false := fun sector member =>
      Bool.eq_false_iff.mpr fun closed => guarded (List.any_eq_true.mpr ⟨sector, member, closed⟩)
    rw [if_neg guarded, if_neg guarded]
    cases chosen : selected device v with
    | nil => exact .nowhere rfl
    | cons sector rest =>
      rw [chosen] at free
      refine .done (List.cons_ne_nil sector rest) free (get?_blanked_chosen ?_ size)
      exact fun other member => selected_inside (v := v) (chosen ▸ member)

theorem erase_ends (h : Sound s) (unlocked : s.isLocked .main = false) {w : Width}
    {select deselect : Contents .cr → Contents .cr} (selects : Harmless select)
    (deselects : Harmless deselect)
    (single : (starting w select s.cr).has .mer ≠ (starting w select s.cr).has .ser) :
    ∃ t, (Procedure.erase w select deselect).run s = .ok () t ∧
      Erasure (selected device (starting w select s.cr)) s t.memory t.flags ∧
      Ended (deselect (select (s.cr.setProgramWidth w))) s t := by
  obtain ⟨memory, flags, effect, erasure⟩ := erased_erasure h.memory_size single
  obtain ⟨events, run⟩ := erase_unlocked h unlocked w selects deselects s.events
  have lock := ((harmless_setProgramWidth w).comp (selects.comp deselects)).lock s.cr
  rw [effect] at run
  exact ⟨_, run, erasure, ended_controlled (lock.trans unlocked) memory flags events⟩

theorem fieldNumber_lt (device : Device) (n : UInt8) : fieldNumber device n < 32 := by
  have := (BitVec.ofNat device.sectorBits n.toNat).isLt
  rw [fieldNumber]
  cases device <;> simp only [Device.sectorBits] at this ⊢ <;> omega

/-- A sector erase selects the sector of its number. -/
theorem selected_one {v : Contents .cr} (alone : v.has .mer = false) (serial : v.has .ser = true)
    {n : Nat} (number : v.sector device = n) (small : n < 32) :
    selected device v = sectors.filter fun sector => sector.index.val = n := by
  have named : ∀ n, n < 32 →
      sectors[n]?.toList = sectors.filter fun sector => sector.index.val = n := by decide
  simp only [selected, alone, serial, number]
  exact named n small

theorem selected_all {v : Contents .cr} (mass : v.has .mer = true) (other : v.has .ser = false) :
    selected device v = sectors := by
  simp only [selected, mass, other]

/-- A sector erase that found no selection leaves none. -/
theorem deselected_one {v : Contents .cr} (other : v.has .ser = false) (n : Nat) :
    (((v.setSector device n).set .ser true).set .ser false).setSector device 0 =
      v.setSector device 0 := by
  have clear : (v.setSector device n).has .ser = false :=
    (v.has_setSector device n .ser).trans other
  rw [Contents.set_set, Contents.set_same clear]
  exact v.put_put _ _ _

theorem Erasure.blank {m : Memory} {flags : Contents .sr} (h : Erasure sectors s m flags)
    (free : ∀ sector ∈ sectors, s.isProtected sector = false) {i : Nat} (inside : i < memorySize) :
    m.get? i = some 0xFF := by
  obtain ⟨sector, member, covers⟩ := covered inside
  cases h with
  | done _ _ bytes => exact (bytes i).trans (if_pos ⟨sector, member, covers⟩)
  | refused member closed => exact absurd ((free _ member).symm.trans closed) nofun
  | nowhere none => exact absurd (none ▸ member) List.not_mem_nil

/-- An erase finds its sectors by their number, cut to its field, or takes all eight; it blanks them
and nothing else, unless one of them is protected. The caller sees which by one flag, or by none if
there is no such sector. -/
theorem erase_exact (h : Reachable s) (unlocked : s.isLocked .main = false)
    (serial : s.cr.has .ser = false) (mass : s.cr.has .mer = false) (w : Width) :
    (∀ n : UInt8, ∃ t, (Procedure.eraseSector device n w).run s = .ok () t ∧
      Erasure (sectors.filter fun sector => sector.index.val = fieldNumber device n) s
        t.memory t.flags ∧
      Ended ((s.cr.setProgramWidth w).setSector device 0) s t) ∧
    ∃ t, (Procedure.eraseAll w).run s = .ok () t ∧ Erasure sectors s t.memory t.flags ∧
      ((∀ sector ∈ sectors, s.isProtected sector = false) →
        ∀ i, i < memorySize → t.memory.get? i = some 0xFF) ∧
      Ended (s.cr.setProgramWidth w) s t := by
  refine ⟨fun n => ?_, ?_⟩
  · obtain ⟨mer, ser, number⟩ := starting_one device n.toNat w s.cr
    obtain ⟨t, run, erasure, ended⟩ := erase_ends h.sound unlocked
      (harmless_selectSector device n.toNat) (harmless_deselectSector device)
      (w := w) (by rw [mer, ser, mass]; exact nofun)
    rw [selected_one (mer.trans mass) ser number (fieldNumber_lt device n)] at erasure
    rw [deselected_one ((s.cr.has_setProgramWidth w .ser).trans serial)] at ended
    exact ⟨t, run, erasure, ended⟩
  · obtain ⟨mer, ser⟩ := starting_all w s.cr
    obtain ⟨t, run, erasure, ended⟩ := erase_ends h.sound unlocked (harmless_mass true)
      (harmless_mass false) (w := w) (by rw [mer, ser, serial]; exact nofun)
    rw [selected_all mer (ser.trans serial)] at erasure
    have clear : (s.cr.setProgramWidth w).has .mer = false :=
      (s.cr.has_setProgramWidth w .mer).trans mass
    rw [Contents.set_set, Contents.set_same clear] at ended
    exact ⟨t, run, erasure, fun free i inside => erasure.blank free inside, ended⟩

/-- A device with a narrow sector field that is busy, and set up for programming in a sector that it
does not have. Of the erased sectors one is protected, and one is free. -/
theorem erase_exact_narrow :
    let s : Simulator .stm32f745 := afterAll [
      .access (.key .main (Domain.firstKey .main)),
      .access (.key .main (Domain.secondKey .main)),
      .access (.write .cr ⟨0x010002F9⟩),
      .control (.setBusy 2)] (withOptionBytes .stm32f745 ⟨0xCFEFAAFD⟩)
    (s.isLocked .main = false ∧ s.cr.has .ser = false ∧ s.cr.has .mer = false) ∧
      (s.isProtected ⟨4⟩ = true ∧ s.isProtected ⟨5⟩ = false) ∧
      (fieldNumber .stm32f745 0x15 = 5 ∧
        ∃ t, (Procedure.eraseSector .stm32f745 0x15 .x32).run s = .ok () t ∧
          Erasure [⟨5⟩] s t.memory t.flags ∧ Ended ⟨0x01000281⟩ s t) ∧
      ∃ t, (Procedure.eraseAll .x16).run s = .ok () t ∧ Erasure sectors s t.memory t.flags ∧
        Ended ⟨0x010001F9⟩ s t := by
  intro s
  have reachable : Reachable s := (Reachable.start _).calls _
  have ready : s.isLocked .main = false ∧ s.cr.has .ser = false ∧ s.cr.has .mer = false := by decide
  obtain ⟨unlocked, serial, mass⟩ := ready
  have chosen : (sectors.filter fun sector =>
      sector.index.val = fieldNumber .stm32f745 0x15) = [⟨5⟩] := by decide
  obtain ⟨t, run, erasure, ended⟩ := (erase_exact reachable unlocked serial mass .x32).1 0x15
  obtain ⟨u, run', erasure', _, ended'⟩ := (erase_exact reachable unlocked serial mass .x16).2
  have left : (s.cr.setProgramWidth .x32).setSector .stm32f745 0 = ⟨0x01000281⟩ := by decide
  have left' : s.cr.setProgramWidth .x16 = ⟨0x010001F9⟩ := by decide
  rw [chosen] at erasure
  rw [left] at ended
  rw [left'] at ended'
  exact ⟨⟨unlocked, serial, mass⟩, by decide, ⟨by decide, t, run, erasure, ended⟩,
    u, run', erasure', ended'⟩

end Erase

section Program
variable {a : Address} {w : Word}

theorem window_sector (inside : InWindow a) : ∃ sector : Sector, sector.Contains a := by
  obtain ⟨low, high⟩ := inside
  have within : a.toNat - flashStart < memorySize := by omega
  obtain ⟨sector, _, above, below⟩ := covered within
  have base : sector.base.toNat = flashStart + sector.offset := rfl
  refine ⟨sector, by omega, ?_⟩
  rw [Sector.limit, base]
  omega

/-- The sector of the first byte of an aligned word decides about all of them. -/
theorem guards_word (inside : InWindow a) (aligned : a.toNat % w.width.bytes = 0) {sector : Sector}
    (contains : sector.Contains a) {i : Nat} (small : i < w.bytes.length) :
    s.guards (a.toNat - flashStart + i) = s.isProtected sector := by
  rw [Word.length_bytes] at small
  rw [guards, Sector.indexOfOffset_aligned w.width (offset_aligned inside aligned) small, ← guards,
    ← protected_iff_guards inside, Sector.ofAddress?_eq_some_iff.mpr contains, Option.any_some]

theorem obstructed_iff {m : Memory} {offset : Nat} {data : List UInt8} :
    obstructed m offset data = true ↔ Clashes m offset data := by
  rw [← Bool.not_eq_false, obstructed_eq_false_iff]
  constructor
  · intro loud
    refine Classical.byContradiction fun none => loud fun i b here old was => ?_
    exact Classical.byContradiction fun clash => none ⟨i, b, old, here, was, clash⟩
  · rintro ⟨i, b, old, here, was, clash⟩ clean
    exact clash (clean i b here old was)

/-- A store is refused, or programs the bytes of its word. -/
theorem stored_landing (size : s.memory.size = memorySize) (inside : InWindow a) (w : Word) :
    ∃ memory flags, stored a w s = { s with memory, flags } ∧ Landing a w s memory flags := by
  by_cases aligned : a.toNat % w.width.bytes = 0
  · obtain ⟨sector, contains⟩ := window_sector inside
    have guards := fun i (small : i < w.bytes.length) =>
      guards_word (s := s) inside aligned contains small
    rw [stored_aligned aligned]
    -- No byte of the word leaves the sector, so all of them are refused or none.
    cases closed : s.isProtected sector with
    | true =>
      have refused := burnBytes_guarded w.bytes_ne_nil fun i small => (guards i small).trans closed
      exact ⟨_, _, refused, .refused aligned contains closed⟩
    | false =>
      have free := fun i small => (guards i small).trans closed
      have effect := burnBytes_open w.bytes_ne_nil free
      have fits := word_inside inside aligned
      refine ⟨_, _, effect, .programmed aligned contains closed (fun i b here => ?_) ?_ ?_ ?_⟩
      · obtain ⟨small, _⟩ := List.getElem?_eq_some_iff.mp here
        have within : a.toNat - flashStart + i < s.memory.cells.size := by
          rw [Word.length_bytes] at small
          have size : s.memory.cells.size = memorySize := size
          omega
        have was : s.memory.get? (a.toNat - flashStart + i) = some _ :=
          Array.getElem?_eq_getElem within
        have burned : (burnBytes (a.toNat - flashStart) w.bytes s).memory.get?
            (a.toNat - flashStart + i) = _ := get?_burnBytes_inside here s
        rw [effect, was, free i small] at burned
        exact ⟨_, was, burned⟩
      · intro i outside
        rw [← Word.length_bytes] at outside
        exact s.memory.get?_merge_outside _ outside
      · intro clean
        rw [reports, if_neg (mt obstructed_iff.mp clean)]
      · intro clash
        rw [reports, if_pos (obstructed_iff.mpr clash)]
  · exact ⟨_, _, if_neg aligned, .misaligned aligned⟩

/-- Programming a word in the window completes. A refusal is reported and changes no byte; bits that
cannot be set are reported too, and the others are programmed all the same. -/
theorem program_exact (h : Reachable s) (unlocked : s.isLocked .main = false) (inside : InWindow a)
    (w : Word) :
    ∃ t, (Procedure.program a w).run s = .ok () t ∧ Landing a w s t.memory t.flags ∧
      Ended ((s.cr.setProgramWidth w.width).set .pg false) s t := by
  obtain ⟨memory, flags, effect, landing⟩ := stored_landing h.sound.memory_size inside w
  obtain ⟨events, run⟩ := program_completes h.sound inside w s.events
  have lock := (has_lock_setUp s.cr w.width false).trans unlocked
  rw [programmed_unlocked unlocked, effect] at run
  exact ⟨_, run, landing, ended_controlled lock memory flags events⟩

/-- The last word before a protected sector, over bytes that lack bits of it. An erase was set up on
the controller, with another width, and it is busy. -/
theorem program_exact_clash :
    let s : Simulator .generic := afterAll [
      .access (.key .main (Domain.firstKey .main)),
      .access (.key .main (Domain.secondKey .main)),
      .access (.write .cr ⟨0x0100036F⟩),
      .control (.setBusy 4)] (withOptionBytes .generic ⟨0xCFFDAAEC⟩)
    let a : Address := ⟨0x08007FFC, by decide⟩
    let w : Word := ⟨.x32, 0xA50021FF⟩
    (s.isLocked .main = false ∧ InWindow a) ∧ s.isProtected ⟨1⟩ = true ∧
      Clashes s.memory 0x7FFC w.bytes ∧
      ∃ t, (Procedure.program a w).run s = .ok () t ∧ Landing a w s t.memory t.flags ∧
        Ended ⟨0x0100026E⟩ s t := by
  intro s a w
  have reachable : Reachable s := (Reachable.start _).calls _
  have unlocked : s.isLocked .main = false := by decide
  have inside : InWindow a := by decide
  have was : s.memory.get? 0x7FFC = some 0xA5 := Memory.get?_filled memorySize 0x7FFC 0xA5
  have left : (s.cr.setProgramWidth .x32).set .pg false = ⟨0x0100026E⟩ := by decide
  obtain ⟨t, run, landing, ended⟩ := program_exact reachable unlocked inside w
  exact ⟨⟨unlocked, inside⟩, by decide, ⟨0, 0xFF, 0xA5, by decide, was, by decide⟩, t, run, landing,
    left ▸ ended⟩

end Program
end
end FlashController.Simulator
