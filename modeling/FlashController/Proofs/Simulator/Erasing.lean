import FlashController.Proofs.Geometry
import FlashController.Proofs.Simulator.Idle

/-! Erasing, on the simulated controller in any state between calls. -/
namespace FlashController

/-- The bytes of the sector, by their offset from the start of the flash memory. -/
def Sector.Covers (sector : Sector) (i : Nat) : Prop :=
  sector.offset ≤ i ∧ i < sector.offset + sector.size

instance (sector : Sector) (i : Nat) : Decidable (sector.Covers i) :=
  inferInstanceAs (Decidable (_ ∧ _))

namespace Simulator
variable {device : Device}

/-- What starting an erase does to the memory and the flags. -/
def erased (v : Contents .cr) (s : Simulator device) : Simulator device :=
  match v.has .mer, v.has .ser with
  | true, false => eraseEverything s
  | false, true =>
    match sectors[v.sector device]? with
    | some sector => eraseOne sector s
    | none => s
  | _, _ => raise .erserr s

theorem triggerErase_eq (v : Contents .cr) (s : Simulator device) :
    triggerErase v s = startOperation (erased v s) := rfl

/-- Erasing looks at the memory, the flags and the protection alone. -/
theorem erased_update (v cr : Contents .cr) (mainStage : KeyStage) (busy : Nat)
    (events : List Event) (s : Simulator device) :
    erased v { s with cr, mainStage, busy, events } =
      ({ erased v s with cr, mainStage, busy, events } : Simulator device) := by
  unfold erased
  split
  · unfold eraseEverything
    rw [foldl_eraseMemory, foldl_eraseMemory]
    -- Kept closed: comparing states would evaluate a megabyte of fills.
    generalize sectors.foldl (fun m sector => m.fill sector.offset sector.size 0xFF) s.memory = all
    by_cases guarded : sectors.any s.isProtected = true
    · rw [if_pos guarded]
      exact if_pos guarded
    · rw [if_neg guarded]
      exact if_neg guarded
  · split
    · rename_i sector _
      unfold eraseOne
      by_cases guarded : s.isProtected sector = true
      · rw [if_pos guarded]
        exact if_pos guarded
      · rw [if_neg guarded]
        exact if_neg guarded
    · rfl
  · rfl

theorem erased_logged (v : Contents .cr) (s : Simulator device) (events : List Event) :
    erased v (s.logged events) = (erased v s).logged events :=
  (erased_update v s.cr s.mainStage s.busy events s).trans
    (congrArg (logged · events) (erased_update v s.cr s.mainStage s.busy s.events s)).symm

theorem erased_controlled (v cr : Contents .cr) (s : Simulator device) :
    erased v (controlled cr s.rested) = controlled cr (erased v s).rested :=
  (erased_update v cr s.mainStage 0 s.events s).trans
    (congrArg (controlled cr ·.rested) (erased_update v s.cr s.mainStage s.busy s.events s)).symm

/-- All that starting an erase can do to the memory and the flags. -/
inductive Erases (v : Contents .cr) (s : Simulator device) : Simulator device → Prop
  | refused : Erases v s (raise .wrperr s)
  | confused : Erases v s (raise .erserr s)
  | nowhere : Erases v s s
  | sector (sector : Sector) (found : sectors[v.sector device]? = some sector)
      (alone : v.has .mer = false) : Erases v s (raise .eop (eraseMemory sector s))
  | everything (mass : v.has .ser = false) : Erases v s
      (raise .eop (sectors.foldl (fun s sector => eraseMemory sector s) s))

theorem erased_cases (v : Contents .cr) (s : Simulator device) : Erases v s (erased v s) := by
  unfold erased
  split
  · rename_i mass
    unfold eraseEverything
    split
    · exact .refused
    · exact .everything mass
  · rename_i alone _
    split
    · rename_i sector found
      unfold eraseOne
      split
      · exact .refused
      · exact .sector sector found alone
    · exact .nowhere
  · exact .confused

section
variable {s : Simulator device}

/-- Raising the start bit erases, and leaves the bit clear. -/
theorem start_unlocked (unlocked : s.isLocked .main = false) (idle : s.busy = 0)
    (calm : s.cr.has .strt = false) :
    Completes (Procedure.update .cr (·.set .strt true)) s ()
      (startOperation (erased (s.cr.set .strt true) s)) := by
  intro events
  have locks : (s.cr.set .strt true).has .lock = false :=
    (Contents.has_set_of_ne (by decide)).trans unlocked
  have rises : ((s.cr.set .strt true).has .strt && !s.cr.has .strt) = true := by
    rw [Contents.has_set_self, calm]
    rfl
  have cleared : (s.cr.set .strt true).set .strt false = s.cr :=
    (Contents.set_set _ _ _ _).trans (Contents.set_same calm)
  refine ⟨.write .cr (s.cr.set .strt true) :: events, (run_updateControl _ _).trans ?_⟩
  have written := writeControl_calm (v := s.cr.set .strt true) (s := s.logged events) unlocked
    fun disturbs => disturbs.1 idle
  have accepted : acceptControl (s.cr.set .strt true)
      (note (.write .cr (s.cr.set .strt true)) (s.logged events)) =
      startOperation (erased (s.cr.set .strt true)
        (s.logged (.write .cr (s.cr.set .strt true) :: events))) := by
    refine (if_pos rises).trans ?_
    rw [triggerErase_eq, cleared, locks]
    rfl
  rw [accepted, erased_logged] at written
  exact written

/-- The contents of the control register with which an erase starts. -/
def starting (w : Width) (select : Contents .cr → Contents .cr) (v : Contents .cr) :
    Contents .cr := (select (v.setProgramWidth w)).set .strt true

theorem starting_all (w : Width) (v : Contents .cr) :
    (starting w (·.set .mer true) v).has .mer = true ∧
      (starting w (·.set .mer true) v).has .ser = v.has .ser := by
  constructor <;> simp [starting, Contents.has_set_of_ne]

theorem starting_one (device : Device) (n : Nat) (w : Width) (v : Contents .cr) :
    let u := starting w (fun v => (v.setSector device n).set .ser true) v
    u.has .mer = v.has .mer ∧ u.has .ser = true ∧
      u.sector device = (BitVec.ofNat device.sectorBits n).toNat := by
  refine ⟨?_, ?_, ?_⟩ <;> simp [starting, Contents.has_set_of_ne]

/-- The part of an erase between its waits. -/
def launch (w : Width) (select : Contents .cr → Contents .cr) : Procedure Unit := do
  Procedure.setProgramWidth w
  Procedure.update .cr select
  Procedure.update .cr (·.set .strt true)

theorem erase_eq (w : Width) (select deselect : Contents .cr → Contents .cr) :
    Procedure.erase w select deselect = (do
      Procedure.waitUntilIdle
      launch w select
      Procedure.waitUntilIdle
      Procedure.update .cr deselect) := by
  simp only [Procedure.erase, launch, bind_assoc]

section Launch
variable {select deselect : Contents .cr → Contents .cr}

theorem launch_locked (locked : s.isLocked .main = true) (w : Width) (selects : Harmless select) :
    Completes (launch w select) s () s.unkeyed := by
  have set : Completes (Procedure.setProgramWidth w) s () s.unkeyed :=
    (harmless_setProgramWidth w).locked locked
  have choose : Completes (Procedure.update .cr select) s.unkeyed () s.unkeyed :=
    selects.locked locked
  have start : Completes (Procedure.update .cr (·.set .strt true)) s.unkeyed () s.unkeyed :=
    update_locked locked (Contents.has_set_of_ne (by decide))
  exact set.bind (choose.bind start)

/-- The state in which an erase goes on by itself. -/
def launched (w : Width) (select : Contents .cr → Contents .cr) (s : Simulator device) :
    Simulator device :=
  startOperation
    (erased (starting w select s.cr) (controlled (select (s.cr.setProgramWidth w)) s))

theorem launch_unlocked (unlocked : s.isLocked .main = false) (idle : s.busy = 0)
    (calm : s.cr.has .strt = false) (w : Width) (selects : Harmless select) :
    Completes (launch w select) s () (launched w select s) := by
  have width := harmless_setProgramWidth w
  have set : Completes (Procedure.setProgramWidth w) s () (controlled (s.cr.setProgramWidth w) s) :=
    width.unlocked unlocked idle calm
  have choose : Completes (Procedure.update .cr select)
      (controlled (s.cr.setProgramWidth w) s) ()
      (controlled (select (s.cr.setProgramWidth w)) s) :=
    selects.unlocked ((width.lock _).trans unlocked) idle ((width.start _).trans calm)
  have both := width.comp selects
  have start := start_unlocked (s := controlled (select (s.cr.setProgramWidth w)) s)
    ((both.lock _).trans unlocked) idle ((both.start _).trans calm)
  exact set.bind (choose.bind start)

theorem launched_rested (w : Width) (select : Contents .cr → Contents .cr)
    (s : Simulator device) : (launched w select s.rested).rested =
      controlled (select (s.cr.setProgramWidth w)) (erased (starting w select s.cr) s).rested :=
  congrArg rested (erased_controlled _ _ s)

theorem erase_locked (h : Sound s) (locked : s.isLocked .main = true) (w : Width)
    (selects : Harmless select) (deselects : Harmless deselect) :
    Completes (Procedure.erase w select deselect) s () s.rested.unkeyed := by
  have wait := waitUntilIdle_completes h.busy_clear
  have launch : Completes (launch w select) s.rested () s.rested.unkeyed :=
    launch_locked (s := s.rested) locked w selects
  have again : Completes Procedure.waitUntilIdle s.rested.unkeyed () s.rested.unkeyed :=
    waitUntilIdle_completes h.busy_clear
  have drop : Completes (Procedure.update .cr deselect) s.rested.unkeyed () s.rested.unkeyed :=
    deselects.locked locked
  rw [erase_eq]
  exact wait.bind (launch.bind (again.bind drop))

theorem erase_unlocked (h : Sound s) (unlocked : s.isLocked .main = false) (w : Width)
    (selects : Harmless select) (deselects : Harmless deselect) :
    Completes (Procedure.erase w select deselect) s ()
      (controlled (deselect (select (s.cr.setProgramWidth w)))
        (erased (starting w select s.cr) s).rested) := by
  have wait := waitUntilIdle_completes h.busy_clear
  have launch : Completes (launch w select) s.rested () (launched w select s.rested) :=
    launch_unlocked (s := s.rested) unlocked rfl h.start_clear w selects
  have again := waitUntilIdle_completes ((h.run wait).run launch).busy_clear
  rw [launched_rested] at again
  have both := (harmless_setProgramWidth w).comp selects
  have drop : Completes (Procedure.update .cr deselect)
      (controlled (select (s.cr.setProgramWidth w)) (erased (starting w select s.cr) s).rested) ()
      (controlled (deselect (select (s.cr.setProgramWidth w)))
        (erased (starting w select s.cr) s).rested) :=
    deselects.unlocked ((both.lock _).trans unlocked) rfl ((both.start _).trans h.start_clear)
  rw [erase_eq]
  exact wait.bind (launch.bind (again.bind drop))

end Launch
end

section Sectors

theorem sectors_ofIndex {n : Nat} (small : n < 8) : sectors[n]? = Sector.ofIndex? n := by
  have named : ∀ n, n < 8 → sectors[n]? = Sector.ofIndex? n := by decide
  exact named n small

theorem getElem?_sectors {n : Nat} {sector : Sector} (found : sectors[n]? = some sector) :
    sector.index.val = n ∧ n < 8 := by
  obtain ⟨small, _⟩ := List.getElem?_eq_some_iff.mp found
  exact ⟨Sector.ofIndex?_eq_some_iff.mp ((sectors_ofIndex small).symm.trans found), small⟩

theorem sectors_index {sector : Sector} (small : sector.index.val < 8) :
    sectors[sector.index.val]? = some sector :=
  (sectors_ofIndex small).trans (Sector.ofIndex?_eq_some_iff.mpr rfl)

theorem mem_sectors_iff {sector : Sector} : sector ∈ sectors ↔ sector.index.val < 8 := by
  refine ⟨fun member => ?_, fun small => List.mem_of_getElem? (sectors_index small)⟩
  obtain ⟨n, found⟩ := List.getElem?_of_mem member
  obtain ⟨rfl, small⟩ := getElem?_sectors found
  exact small

/-- The simulated sectors end where the memory does. -/
theorem sector_inside {sector : Sector} (small : sector.index.val < 8) :
    sector.offset + sector.size ≤ memorySize := by
  unfold Sector.offset Sector.size memorySize
  split <;> split <;> (try split) <;>
    simp only [Sector.smallSize, Sector.mediumSize, Sector.largeSize] <;> omega

theorem covered {i : Nat} (inside : i < memorySize) :
    ∃ sector ∈ sectors, sector.offset ≤ i ∧ i < sector.offset + sector.size := by
  have small : Sector.indexOfOffset i < 8 := by
    unfold memorySize at inside
    unfold Sector.indexOfOffset
    split
    · simp only [Sector.smallSize] at *
      omega
    · split
      · decide
      · simp only [Sector.largeSize]
        omega
  exact ⟨⟨⟨_, Nat.lt_trans small (by decide)⟩⟩, mem_sectors_iff.mpr small,
    Sector.indexOfOffset_eq_iff.mp rfl⟩

variable {m : Memory} {i : Nat}

theorem get?_fill_inside {sector : Sector} (some : i < m.size) (low : sector.offset ≤ i)
    (high : i < sector.offset + sector.size) :
    (m.fill sector.offset sector.size 0xFF).get? i = .some 0xFF := by
  have was : m.get? i = .some m.cells[i] := Array.getElem?_eq_getElem some
  rw [Memory.get?_fill, if_pos ⟨low, high⟩, was]
  rfl

end Sectors

section Selection

/-- The sectors that contents of the control register select for an erase. Both selections at once
are none. -/
def selected (device : Device) (v : Contents .cr) : List Sector :=
  match v.has .mer, v.has .ser with
  | true, false => sectors
  | false, true => sectors[v.sector device]?.toList
  | _, _ => []

def blanked (chosen : List Sector) (m : Memory) : Memory :=
  chosen.foldl (fun m sector => m.fill sector.offset sector.size 0xFF) m

/-- The flags after an erase was started. A sector that is not there leaves no trace. -/
def verdict (v : Contents .cr) (s : Simulator device) : Contents .sr :=
  if v.has .mer = v.has .ser then s.flags.set .erserr true
  else if (selected device v).any s.isProtected then s.flags.set .wrperr true
  else if (selected device v).isEmpty then s.flags
  else s.flags.set .eop true

/-- An erase is done in all the selected sectors or, if one of them is protected, in none. -/
theorem erased_eq (v : Contents .cr) (s : Simulator device) :
    erased v s = { s with
      memory := if (selected device v).any s.isProtected then s.memory
        else blanked (selected device v) s.memory
      flags := verdict v s } := by
  unfold erased verdict selected
  cases v.has .mer <;> cases v.has .ser
  · rfl
  · cases found : sectors[v.sector device]? with
    | none => rfl
    | some sector =>
      by_cases guarded : s.isProtected sector = true
      · simp [eraseOne, guarded, raise]
      · simp [eraseOne, guarded, raise, blanked, eraseMemory]
  · simp only [eraseEverything, foldl_eraseMemory]
    change _ = ({ s with
      memory := if sectors.any s.isProtected then s.memory else blanked sectors s.memory
      flags := if sectors.any s.isProtected then s.flags.set .wrperr true
        else s.flags.set .eop true } : Simulator device)
    unfold blanked
    generalize sectors.foldl (fun m sector => m.fill sector.offset sector.size 0xFF) s.memory = all
    by_cases guarded : sectors.any s.isProtected = true
    · simp only [if_pos guarded, raise]
    · simp only [if_neg guarded, raise]
  · rfl

/-- An erase finds one selection, whatever it then does, and so is in sequence. -/
theorem verdict_has {v : Contents .cr} {f : Flag .sr} (other : f ≠ .eop ∧ f ≠ .wrperr)
    (single : v.has .mer ≠ v.has .ser) (s : Simulator device) :
    (verdict v s).has f = s.flags.has f := by
  rw [verdict, if_neg single]
  split
  · exact Contents.has_set_of_ne other.2.symm
  · split
    · rfl
    · exact Contents.has_set_of_ne other.1.symm

theorem selected_inside {v : Contents .cr} {sector : Sector} (member : sector ∈ selected device v) :
    sector ∈ sectors := by
  unfold selected at member
  split at member
  · exact member
  · exact List.mem_of_getElem? (Option.mem_toList.mp member)
  · exact absurd member List.not_mem_nil

theorem get?_blanked (chosen : List Sector) (m : Memory) (i : Nat) :
    (blanked chosen m).get? i =
      if ∃ sector ∈ chosen, sector.Covers i then (m.get? i).map fun _ => 0xFF else m.get? i := by
  induction chosen generalizing m with
  | nil => simp [blanked]
  | cons sector rest ih =>
    have first : (m.fill sector.offset sector.size 0xFF).get? i =
        if sector.Covers i then (m.get? i).map fun _ => 0xFF else m.get? i := m.get?_fill _ _ _ _
    refine (ih (m.fill sector.offset sector.size 0xFF)).trans ?_
    rw [first]
    by_cases here : sector.Covers i
    · have again : ((m.get? i).map fun _ => (0xFF : UInt8)).map (fun _ => (0xFF : UInt8)) =
          (m.get? i).map fun _ => 0xFF := Option.map_map _ _ _
      simp only [List.mem_cons, exists_eq_or_imp, here, true_or, if_true, again, ite_self]
    · simp only [List.mem_cons, exists_eq_or_imp, here, false_or, if_false]

theorem get?_blanked_inside {chosen : List Sector} {m : Memory} {i : Nat} (inside : i < m.size)
    (covers : ∃ sector ∈ chosen, sector.Covers i) : (blanked chosen m).get? i = some 0xFF := by
  have was : m.get? i = some m.cells[i] := Array.getElem?_eq_getElem inside
  rw [get?_blanked, if_pos covers, was]
  rfl

theorem get?_blanked_chosen {chosen : List Sector} (simulated : ∀ sector ∈ chosen, sector ∈ sectors)
    {m : Memory} (size : m.size = memorySize) (i : Nat) : (blanked chosen m).get? i =
      if ∃ sector ∈ chosen, sector.Covers i then some 0xFF else m.get? i := by
  by_cases covers : ∃ sector ∈ chosen, sector.Covers i
  · obtain ⟨sector, member, here⟩ := covers
    have ends := sector_inside (mem_sectors_iff.mp (simulated sector member))
    have inside : i < m.size := Nat.lt_of_lt_of_le here.2 (size ▸ ends)
    rw [if_pos ⟨sector, member, here⟩]
    exact get?_blanked_inside inside ⟨sector, member, here⟩
  · rw [if_neg covers, get?_blanked, if_neg covers]

end Selection
end Simulator
end FlashController
