import FlashController.Proofs.Simulator.Operations

/-! Updating a sector: erased and programmed in one guard, with one look at the status before the
guard ends. Whatever the controller was doing, the sector then holds the data and is blank around
it; or it is protected, the look tells so, and the memory is as it was. -/
namespace FlashController.Simulator
variable {device : Device}

/-- Erases a sector and programs data at an address. -/
def updating (sector : Sector) (w : Width) (a : Address) (data : List UInt8) (limit : Width) :
    Script :=
  .guarded
    (.step .clearStatus
      (.step (.eraseSector (UInt8.ofNat sector.index.val) w)
        (.step (.programBlockWide a data limit) (.step .status .done))))
    .done

/-- The sector holds data at an offset and is blank around it, and nothing else changed. -/
structure Updated (sector : Sector) (offset : Nat) (data : List UInt8) (m n : Memory) : Prop where
  holds : n.read (sector.offset + offset) data.length = data
  blank : ∀ i, sector.Covers i →
    ¬ (sector.offset + offset ≤ i ∧ i < sector.offset + offset + data.length) →
    n.get? i = some 0xFF
  outside : ∀ i, ¬ sector.Covers i → n.get? i = m.get? i

section Sector
variable {sector : Sector} {s : Simulator device}

/-- A sector decides about all of its bytes. -/
theorem guards_covered {i : Nat} (covers : sector.Covers i) :
    s.guards i = s.isProtected sector := by
  have named := Sector.ofIndex?_eq_some_iff.mpr (Sector.indexOfOffset_eq_iff.mpr covers).symm
  rw [guards, named, Option.any_some]

theorem erased_sector {v : Contents .cr} (small : sector.index.val < 8)
    (alone : v.has .mer = false) (serial : v.has .ser = true)
    (number : v.sector device = sector.index.val) : erased v s = eraseOne sector s := by
  simp only [erased, alone, serial, number, sectors_index small]

theorem wiped_sector (small : sector.index.val < 8) (unlocked : s.isLocked .main = false)
    (alone : s.cr.has .mer = false) (w : Width) :
    ∃ cr, cr.has .lock = false ∧ effect (.eraseSector (UInt8.ofNat sector.index.val) w) s =
      controlled cr (eraseOne sector s).rested := by
  have number : (UInt8.ofNat sector.index.val).toNat = sector.index.val := by
    rw [UInt8.toNat_ofNat']
    omega
  have cut : (BitVec.ofNat device.sectorBits sector.index.val).toNat = sector.index.val := by
    rw [BitVec.toNat_ofNat]
    cases device <;> simp only [Device.sectorBits] <;> omega
  obtain ⟨mass, serial, selects⟩ := starting_one device sector.index.val w s.cr
  have chosen := erased_sector (s := s) small (mass.trans alone) serial (selects.trans cut)
  have lock := ((harmless_setProgramWidth w).comp ((harmless_selectSector device
    sector.index.val).comp (harmless_deselectSector device))).lock s.cr
  refine ⟨_, lock.trans unlocked, ?_⟩
  rw [effect, wiped_unlocked unlocked, number, chosen]

theorem words_unlocked (unlocked : s.isLocked .main = false) (idle : s.busy = 0) (a : Address)
    (words : List Word) : ∃ cr, cr.has .lock = false ∧ wordsProgrammed a words s =
      controlled cr (burnBytes (a.toNat - flashStart) (words.flatMap Word.bytes) s).rested := by
  obtain ⟨rfl, none⟩ | ⟨w, block⟩ := wordsProgrammed_cases a words
  · have rested : s.rested = s := by rw [Simulator.rested, ← idle]
    refine ⟨s.cr, unlocked, ?_⟩
    rw [none, List.flatMap_nil, burnBytes, rested]
    rfl
  · refine ⟨_, (has_lock_setUp s.cr w false).trans unlocked, ?_⟩
    rw [block]
    exact programmed_unlocked unlocked

section Data
variable {offset : Nat} {data : List UInt8}

theorem obstructed_blank {m : Memory} (inside : ∀ i, i < data.length → sector.Covers (offset + i))
    (blank : ∀ i, sector.Covers i → m.get? i = some 0xFF) : obstructed m offset data = false := by
  refine obstructed_eq_false_iff.mpr fun i b here old was => ?_
  obtain ⟨small, _⟩ := List.getElem?_eq_some_iff.mp here
  obtain rfl := Option.some.inj (was.symm.trans (blank _ (inside i small)))
  exact UInt8.neg_one_and

/-- A blank sector takes any data. -/
theorem burnBytes_blank (inside : ∀ i, i < data.length → sector.Covers (offset + i))
    (free : s.isProtected sector = false)
    (blank : ∀ i, sector.Covers i → s.memory.get? i = some 0xFF)
    (ended : s.flags.has .eop = true) :
    burnBytes offset data s = { s with memory := s.memory.merge (· &&& ·) offset data } := by
  by_cases empty : data = []
  · subst empty
    rfl
  · rw [burnBytes_open empty fun i small => (guards_covered (inside i small)).trans free,
      obstructed_blank inside blank]
    simp only [reports, Bool.false_eq_true, if_false, Contents.set_same ended]

/-- A protected sector takes none. -/
theorem burnBytes_refused (inside : ∀ i, i < data.length → sector.Covers (offset + i))
    (guarded : s.isProtected sector = true) (raised : s.flags.has .wrperr = true) :
    burnBytes offset data s = s := by
  by_cases empty : data = []
  · subst empty
    rfl
  · rw [burnBytes_guarded empty fun i small => (guards_covered (inside i small)).trans guarded,
      raise, Contents.set_same raised]

end Data

theorem fill_blank {m : Memory} (size : m.size = memorySize) (small : sector.index.val < 8)
    {i : Nat} (covers : sector.Covers i) :
    (m.fill sector.offset sector.size 0xFF).get? i = some 0xFF := by
  have ends := sector_inside small
  have := covers.2
  exact get?_fill_inside (by omega) covers.1 covers.2

theorem updated {m : Memory} (size : m.size = memorySize) (small : sector.index.val < 8)
    {offset : Nat} {data : List UInt8} (fits : offset + data.length ≤ sector.size) :
    Updated sector offset data m ((m.fill sector.offset sector.size 0xFF).merge (· &&& ·)
      (sector.offset + offset) data) := by
  have ends := sector_inside small
  have kept := m.size_fill sector.offset sector.size 0xFF
  have inside : ∀ i, i < data.length → sector.Covers (sector.offset + offset + i) :=
    fun i small => ⟨by omega, by omega⟩
  constructor
  · rw [read_merge_eq_iff (by omega)]
    exact obstructed_blank inside fun i => fill_blank size small
  · intro i covers around
    rw [Memory.get?_merge_outside _ _ around]
    exact fill_blank size small covers
  · intro i other
    have around : ¬ (sector.offset + offset ≤ i ∧ i < sector.offset + offset + data.length) :=
      fun here => other ⟨by omega, by omega⟩
    rw [Memory.get?_merge_outside _ _ around, Memory.get?_fill]
    exact if_neg other

/-- An erase and a program operation in a row, on an unlocked controller. -/
theorem rewritten (h : Quiet s) (unlocked : s.isLocked .main = false)
    (alone : s.cr.has .mer = false) (small : sector.index.val < 8) {a : Address} {offset : Nat}
    {data : List UInt8} (start : a.toNat = flashStart + sector.offset + offset)
    (fits : offset + data.length ≤ sector.size) (w limit : Width) :
    ∃ cr memory flags, cr.has .lock = false ∧
      effect (.programBlockWide a data limit)
        (effect (.eraseSector (UInt8.ofNat sector.index.val) w) s) =
          { s with cr, memory, flags, busy := 0 } ∧
      (s.isProtected sector = false →
        Updated sector offset data s.memory memory ∧ flags = s.flags.set .eop true) ∧
      (s.isProtected sector = true → memory = s.memory ∧ flags = s.flags.set .wrperr true) := by
  obtain ⟨middle, lock, erase⟩ := wiped_sector small unlocked alone w
  have still : (controlled middle (eraseOne sector s).rested).isLocked .main = false := lock
  obtain ⟨cr, lock', program⟩ := words_unlocked still rfl a (tile a.toNat data limit)
  have target : a.toNat - flashStart = sector.offset + offset := by omega
  have inside : ∀ i, i < data.length → sector.Covers (sector.offset + offset + i) :=
    fun i small => ⟨by omega, by omega⟩
  rw [bytes_tile, target] at program
  rw [erase]
  simp only [effect]
  rw [program]
  by_cases guarded : s.isProtected sector = true
  · have refused : eraseOne sector s = raise .wrperr s := if_pos guarded
    have kept := burnBytes_refused (s := controlled middle (raise .wrperr s).rested) inside guarded
      (s.flags.has_set_self .wrperr true)
    rw [refused, kept]
    exact ⟨cr, s.memory, s.flags.set .wrperr true, lock', rfl,
      fun free => absurd (guarded.symm.trans free) nofun, fun _ => ⟨rfl, rfl⟩⟩
  · have free := Bool.eq_false_iff.mpr guarded
    have erased : eraseOne sector s = raise .eop (eraseMemory sector s) := if_neg guarded
    have burned := burnBytes_blank
      (s := controlled middle (raise .eop (eraseMemory sector s)).rested) inside free
      (fun _ => fill_blank h.memory_size small) (s.flags.has_set_self .eop true)
    rw [erased, burned]
    exact ⟨cr, _, s.flags.set .eop true, lock', rfl,
      fun _ => ⟨updated h.memory_size small fits, rfl⟩, fun closed => absurd closed guarded⟩

theorem Plays.updating (h : Quiet s) {a : Address} {data : List UInt8}
    (within : data ≠ [] → Within a data.length) (w limit : Width) (sector : Sector) :
    let t := effect (.programBlockWide a data limit)
      (effect (.eraseSector (UInt8.ofNat sector.index.val) w) (cleared (latched .main false s)))
    Plays (updating sector w a data limit) s
      [.opened, .done, .done, .done, .parts .sr (pollStatus t).1, .closed]
      (latched .main true (polled t)) := by
  intro t
  have unlock := unlockMain_completes h
  have clear := operation_completes (h.run unlock) .clearStatus trivial nofun
  have erase := operation_completes ((h.run unlock).run clear)
    (.eraseSector (UInt8.ofNat sector.index.val) w) trivial nofun
  have program := operation_completes (((h.run unlock).run clear).run erase)
    (.programBlockWide a data limit) within nofun
  have look := operation_completes ((((h.run unlock).run clear).run erase).run program)
    .status trivial nofun
  have ended := ((((h.run unlock).run clear).run erase).run program).run look
  have inside := Plays.step clear (Plays.step erase (Plays.step program
    (Plays.step look (plays_done _))))
  exact Plays.guarded h inside ended.toSound (plays_done _)

/-- From any state in which no mass erase is set up, an update writes its sector and nothing else,
and shows that it did; of a protected sector it shows the refusal, and changes no byte. -/
theorem sector_update (h : Reachable s) (alone : s.cr.has .mer = false)
    (small : sector.index.val < 8) {offset : Nat} {data : List UInt8}
    (fits : offset + data.length ≤ sector.size) (w limit : Width) :
    ∃ a flags t, sector.base.advance? offset = some a ∧
      Plays (updating sector w a data limit) s
        [.opened, .done, .done, .done, .parts .sr flags, .closed] t ∧
      t.isLocked .main = true ∧ t.violations = s.violations ∧ t.optcr = s.optcr ∧
      t.committed = s.committed ∧ t.active = s.active ∧
      (s.isProtected sector = false → Updated sector offset data s.memory t.memory ∧
        flags.error? = none ∧ flags.has .eop = true) ∧
      (s.isProtected sector = true → t.memory = s.memory ∧
        flags.error? = some .writeProtection ∧ flags.has .eop = false) := by
  have ends := sector_inside small
  have bound : flashStart + sector.offset + offset < UInt64.size := by
    unfold flashStart memorySize UInt64.size at *
    omega
  obtain ⟨a, start⟩ : ∃ a : Address, a.toNat = flashStart + sector.offset + offset :=
    ⟨⟨_, bound⟩, rfl⟩
  have within : data ≠ [] → Within a data.length := fun _ => ⟨by omega, by omega⟩
  have quiet := (h.quiet.run (unlockMain_completes h.quiet)).run (clearStatus_completes _)
  have plays := Plays.updating h.quiet within w limit sector
  obtain ⟨cr, memory, flags, _, effect, free, guarded⟩ := rewritten quiet
    (s.cr.has_set_self .lock false) ((Contents.has_set_of_ne (by decide)).trans alone) small start
    fits w limit
  rw [effect] at plays
  refine ⟨a, flags, _, Address.ofNat?_eq_some_iff.mpr start, plays, cr.has_set_self .lock true, rfl,
    rfl, rfl, rfl, fun open_sector => ?_, fun closed => ?_⟩
  · obtain ⟨written, rfl⟩ := free open_sector
    refine ⟨written, ?_, Contents.has_set_self _ _ _⟩
    obtain ⟨wrperr, pgaerr, pgperr, erserr⟩ := Contents.error?_eq_none_iff.mp
      (cleared_error (latched .main false s))
    rw [Contents.error?_eq_none_iff]
    simp [Contents.has_set_of_ne, wrperr, pgaerr, pgperr, erserr]
  · obtain ⟨kept, rfl⟩ := guarded closed
    refine ⟨kept, ?_, ?_⟩
    · rw [Contents.error?, if_pos (Contents.has_set_self _ _ _)]
    · exact (Contents.has_set_of_ne (by decide)).trans (cleared_eop _)

end Sector

/-- A busy controller with stale flags and a key sequence begun, and data up to the end of a
sector; the sector before it is protected. -/
theorem sector_update_busy :
    let s : Simulator .generic := afterAll [
      .access (.key .main (Domain.firstKey .main)),
      .access (.key .main (Domain.secondKey .main)),
      .access (.write .cr ⟨0x80000203⟩),
      .access (.key .main (Domain.firstKey .main)),
      .control (.setFlags ⟨0xF2⟩),
      .control (.setBusy 5)] (withOptionBytes .generic ⟨0xCFF7AAEC⟩)
    let sector : Sector := ⟨4⟩
    s.cr.has .mer = false ∧ s.isProtected sector = false ∧ ∃ a flags t,
      sector.base.advance? 131069 = some a ∧
      Plays (updating sector .x32 a [1, 2, 3] .x64) s
        [.opened, .done, .done, .done, .parts .sr flags, .closed] t ∧
      t.isLocked .main = true ∧ flags.error? = none ∧
      Updated sector 131069 [1, 2, 3] s.memory t.memory := by
  intro s sector
  have reachable : Reachable s := (Reachable.start ⟨0xCFF7AAEC⟩).calls _
  have alone : s.cr.has .mer = false := by decide
  have free : s.isProtected sector = false := by decide
  have fits : 131069 + ([1, 2, 3] : List UInt8).length ≤ sector.size := by decide
  obtain ⟨a, flags, t, target, plays, locked, _, _, _, _, written, _⟩ :=
    sector_update reachable alone (by decide) fits .x32 .x64
  obtain ⟨updated, silent, _⟩ := written free
  exact ⟨alone, free, a, flags, t, target, plays, locked, silent, updated⟩
end FlashController.Simulator
