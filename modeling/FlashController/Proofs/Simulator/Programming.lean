import FlashController.Procedure.Programming
import FlashController.Proofs.Simulator.Burning

/-! Programming one word, on the simulated controller in any state between calls. -/
namespace FlashController.Simulator
variable {device : Device}

/-- The effect of a store in an unlocked controller that is set up for the word. -/
def stored (a : Address) (w : Word) (s : Simulator device) : Simulator device :=
  if a.toNat % w.width.bytes = 0 then burnBytes (a.toNat - flashStart) w.bytes s
  else raise .pgaerr s

/-- The state in which a word of some width can be stored. A locked controller is not set up. -/
def aimed (w : Width) (s : Simulator device) : Simulator device :=
  if s.isLocked .main then s.rested.unkeyed
  else controlled ((s.cr.setProgramWidth w).set .pg true) s.rested

/-- The state after programming with some effect on the memory and the flags. -/
def programmed (w : Width) (effect : Simulator device → Simulator device)
    (s : Simulator device) : Simulator device :=
  if s.isLocked .main then s.rested.unkeyed
  else controlled ((s.cr.setProgramWidth w).set .pg false) (effect s).rested

theorem stored_controlled (a : Address) (w : Word) (v : Contents .cr) (s : Simulator device) :
    stored a w (controlled v s.rested) = controlled v (stored a w s).rested := by
  by_cases aligned : a.toNat % w.width.bytes = 0
  · simp only [stored, if_pos aligned]
    exact burnBytes_controlled _ _ v s
  · simp only [stored, if_neg aligned]
    rfl

section Store
variable {a : Address} {w : Word} {s : Simulator device}

theorem protected_iff_guards (inside : InWindow a) :
    (Sector.ofAddress? a).any s.isProtected = s.guards (a.toNat - flashStart) := by
  have offset : a.offsetFrom? flashStart = some (a.toNat - flashStart) := if_pos inside.1
  simp only [Sector.ofAddress?, offset, guards, bind, Option.bind]

/-- A set-up controller refuses a word that is not aligned or aims at a protected sector. -/
theorem storeError?_ready (inside : InWindow a) (pg : s.cr.has .pg = true)
    (width : s.cr.programWidth = w.width) :
    storeError? a w s =
      if a.toNat % w.width.bytes = 0 then
        if s.guards (a.toNat - flashStart) then some .wrperr else none
      else some .pgaerr := by
  simp only [storeError?, pg, width, protected_iff_guards inside]
  by_cases aligned : a.toNat % w.width.bytes = 0 <;> simp [aligned]

/-- An aligned word that starts in the window ends in it. -/
theorem word_inside (inside : InWindow a) (aligned : a.toNat % w.width.bytes = 0) :
    a.toNat - flashStart + w.width.bytes ≤ memorySize := by
  obtain ⟨low, high⟩ := inside
  unfold flashStart memorySize at *
  generalize w.width = width at aligned ⊢
  cases width <;> simp only [Width.bytes] at aligned ⊢ <;> omega

theorem offset_aligned (inside : InWindow a) (aligned : a.toNat % w.width.bytes = 0) :
    (a.toNat - flashStart) % w.width.bytes = 0 := by
  obtain ⟨low, _⟩ := inside
  unfold flashStart at *
  generalize w.width = width at aligned ⊢
  cases width <;> simp only [Width.bytes] at aligned ⊢ <;> omega

theorem run_store (a : Address) (w : Word) (s : Simulator device) :
    (Procedure.store a w).run s = storeWord a w s := congrFun (Procedure.run_act _) s

/-- A store starts an operation, or is refused at once. -/
theorem store_completes (idle : s.busy = 0) (unlocked : s.isLocked .main = false)
    (size : s.memory.size = memorySize) (inside : InWindow a) (pg : s.cr.has .pg = true)
    (width : s.cr.programWidth = w.width) :
    ∃ t, Completes (Procedure.store a w) s () t ∧ t.rested = (stored a w s).rested ∧
      t.busy = if a.toNat % w.width.bytes = 0 ∧ ¬ s.guards (a.toNat - flashStart) then s.latency
        else 0 := by
  have error : ∀ events, storeError? a w (s.logged events) = _ :=
    fun events => storeError?_ready inside pg width
  have noted : ∀ events, (Procedure.store a w).run (s.logged events) =
      settleStore a w (s.logged (.store a w.width :: events)) :=
    fun events => (run_store a w _).trans (storeWord_idle (s := s.logged events) idle)
  by_cases aligned : a.toNat % w.width.bytes = 0
  · have effect : stored a w s = _ :=
      (if_pos aligned).trans (burn_word (offset_aligned inside aligned) s)
    simp only [if_pos aligned] at error
    rw [effect]
    by_cases guarded : s.guards (a.toNat - flashStart) = true
    · rw [if_pos guarded, if_neg fun starts => starts.2 guarded]
      refine ⟨raise .wrperr s, fun events => ⟨.store a w.width :: events, ?_⟩, rfl, idle⟩
      exact (noted events).trans (settleStore_refused (s := s.logged _) inside unlocked
        ((error _).trans (if_pos guarded)))
    · have fits : a.toNat - flashStart + w.width.bytes ≤ s.memory.size :=
        size ▸ word_inside inside aligned
      rw [if_neg guarded, if_pos ⟨aligned, guarded⟩]
      refine ⟨burn (a.toNat - flashStart) w s, fun events =>
        ⟨.store a w.width :: events, (noted events).trans ?_⟩, rfl, ?_⟩
      · have accepted := settleStore_accepted (s := s.logged (.store a w.width :: events)) inside
          unlocked ((error _).trans (if_neg guarded))
        refine accepted.trans ((if_pos fits).trans ?_)
        unfold burn
        split <;> rfl
      · unfold burn
        split <;> rfl
  · have effect : stored a w s = raise .pgaerr s := if_neg aligned
    rw [effect, if_neg fun starts => aligned starts.1]
    refine ⟨raise .pgaerr s, fun events => ⟨.store a w.width :: events, ?_⟩, rfl, idle⟩
    exact (noted events).trans (settleStore_refused (s := s.logged _) inside unlocked
      ((error _).trans (if_neg aligned)))

end Store

/-- The part of programming before the store. -/
def aim (w : Width) : Procedure Unit := do
  Procedure.waitUntilIdle
  Procedure.setProgramWidth w
  Procedure.update .cr (·.set .pg true)

theorem program_eq (a : Address) (w : Word) :
    Procedure.program a w = (do
      aim w.width
      Procedure.store a w
      Procedure.waitUntilIdle
      Procedure.update .cr (·.set .pg false)) := by
  simp only [Procedure.program, aim, bind_assoc]

section Program
variable {s : Simulator device}

theorem programmed_locked {w : Width} {effect : Simulator device → Simulator device}
    (locked : s.isLocked .main = true) : programmed w effect s = s.rested.unkeyed := if_pos locked

theorem programmed_unlocked {w : Width} {effect : Simulator device → Simulator device}
    (unlocked : s.isLocked .main = false) : programmed w effect s =
      controlled ((s.cr.setProgramWidth w).set .pg false) (effect s).rested :=
  if_neg (Bool.eq_false_iff.mp unlocked)

theorem aimed_locked {w : Width} (locked : s.isLocked .main = true) :
    aimed w s = s.rested.unkeyed := if_pos locked

theorem aimed_unlocked {w : Width} (unlocked : s.isLocked .main = false) :
    aimed w s = controlled ((s.cr.setProgramWidth w).set .pg true) s.rested :=
  if_neg (Bool.eq_false_iff.mp unlocked)

theorem has_lock_setUp (v : Contents .cr) (w : Width) (on : Bool) :
    ((v.setProgramWidth w).set .pg on).has .lock = v.has .lock :=
  (Contents.has_set_of_ne (by decide)).trans (v.has_setProgramWidth w .lock)

theorem aim_completes (h : Sound s) (w : Width) : Completes (aim w) s () (aimed w s) := by
  have wait := waitUntilIdle_completes h.busy_clear
  have width := harmless_setProgramWidth w
  have enables : Harmless (·.set .pg true) := harmless_set true nofun nofun
  cases lock : s.isLocked .main with
  | true =>
    have set : Completes (Procedure.setProgramWidth w) s.rested () s.rested.unkeyed :=
      width.locked lock
    have enable : Completes (Procedure.update .cr (·.set .pg true)) s.rested.unkeyed ()
        s.rested.unkeyed := enables.locked lock
    rw [aimed_locked lock]
    exact wait.bind (set.bind enable)
  | false =>
    have set : Completes (Procedure.setProgramWidth w) s.rested ()
        (controlled (s.cr.setProgramWidth w) s.rested) := width.unlocked lock rfl h.start_clear
    have enable : Completes (Procedure.update .cr (·.set .pg true))
        (controlled (s.cr.setProgramWidth w) s.rested) ()
        (controlled ((s.cr.setProgramWidth w).set .pg true) s.rested) :=
      enables.unlocked ((width.lock _).trans lock) rfl ((width.start _).trans h.start_clear)
    rw [aimed_unlocked lock]
    exact wait.bind (set.bind enable)

theorem aimed_busy (w : Width) (s : Simulator device) : (aimed w s).busy = 0 := by
  unfold aimed
  split <;> rfl

/-- A locked controller lets a store pass. -/
theorem store_locked (locked : s.isLocked .main = true) {a : Address} (inside : InWindow a)
    (w : Word) : Completes (Procedure.store a w) (aimed w.width s) () (aimed w.width s) := by
  intro events
  refine ⟨.store a w.width :: events, (run_store a w _).trans ?_⟩
  have still : (aimed w.width s).isLocked .main = true := by
    rw [aimed_locked locked]
    exact locked
  exact (storeWord_idle (s := logged _ events) (aimed_busy w.width s)).trans
    (settleStore_locked inside still)

theorem store_unlocked (h : Sound s) (unlocked : s.isLocked .main = false) {a : Address}
    (inside : InWindow a) (w : Word) :
    ∃ t, Completes (Procedure.store a w) (aimed w.width s) () t ∧
      t.rested = controlled ((s.cr.setProgramWidth w.width).set .pg true) (stored a w s).rested ∧
      t.busy = if a.toNat % w.width.bytes = 0 ∧ ¬ s.guards (a.toNat - flashStart) then s.latency
        else 0 := by
  have still : ((s.cr.setProgramWidth w.width).set .pg true).has .lock = false :=
    (has_lock_setUp _ _ _).trans unlocked
  have width : ((s.cr.setProgramWidth w.width).set .pg true).programWidth = w.width :=
    (Contents.programWidth_set _ _ _).trans (s.cr.programWidth_setProgramWidth _)
  obtain ⟨t, store, effect, busy⟩ := store_completes (a := a) (w := w)
    (s := controlled ((s.cr.setProgramWidth w.width).set .pg true) s.rested)
    rfl still h.memory_size inside (Contents.has_set_self _ _ _) width
  rw [stored_controlled] at effect
  rw [aimed_unlocked unlocked]
  exact ⟨t, store, effect, busy⟩

/-- A program operation inside the window, on a controller in any state. -/
theorem program_completes (h : Sound s) {a : Address} (inside : InWindow a) (w : Word) :
    Completes (Procedure.program a w) s () (programmed w.width (stored a w) s) := by
  have aiming := aim_completes h w.width
  have sound := h.run aiming
  have disables : Harmless (·.set .pg false) := harmless_set false nofun nofun
  rw [program_eq]
  cases lock : s.isLocked .main with
  | true =>
    have store := store_locked lock inside w
    rw [aimed_locked lock] at aiming sound store
    have wait : Completes Procedure.waitUntilIdle s.rested.unkeyed () s.rested.unkeyed :=
      waitUntilIdle_completes sound.busy_clear
    have disable : Completes (Procedure.update .cr (·.set .pg false)) s.rested.unkeyed ()
        s.rested.unkeyed := disables.locked lock
    rw [programmed_locked lock]
    exact aiming.bind (store.bind (wait.bind disable))
  | false =>
    obtain ⟨t, store, effect, _⟩ := store_unlocked h lock inside w
    have wait := waitUntilIdle_completes (sound.run store).busy_clear
    rw [effect] at wait
    have unlocked : ((s.cr.setProgramWidth w.width).set .pg true).has .lock = false :=
      (has_lock_setUp _ _ _).trans lock
    rw [aimed_unlocked lock] at sound
    have disable : Completes (Procedure.update .cr (·.set .pg false))
        (controlled ((s.cr.setProgramWidth w.width).set .pg true) (stored a w s).rested) ()
        (controlled (((s.cr.setProgramWidth w.width).set .pg true).set .pg false)
          (stored a w s).rested) := disables.unlocked unlocked rfl sound.start_clear
    rw [Contents.set_set] at disable
    rw [programmed_unlocked lock]
    exact aiming.bind (store.bind (wait.bind disable))

theorem program_halts (h : Sound s) {a : Address} (outside : ¬ InWindow a) (w : Word) :
    Halts (Procedure.program a w) s (.outsideWindow a) (aimed w.width s) := by
  have store : Halts (Procedure.store a w) (aimed w.width s) (.outsideWindow a)
      (aimed w.width s) := by
    intro events
    refine ⟨.store a w.width :: events, (run_store a w _).trans ?_⟩
    exact (storeWord_idle (s := logged _ events) (aimed_busy w.width s)).trans
      (settleStore_outside outside)
  rw [program_eq]
  exact (aim_completes h w.width).halts store.bind

end Program
end FlashController.Simulator
