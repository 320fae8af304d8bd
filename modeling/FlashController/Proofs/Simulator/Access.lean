import FlashController.Machine.Simulator
import FlashController.Proofs.Parts
import FlashController.Proofs.Run

/-! What one access does to the simulated controller. A write to a guarded register is refused,
counted and accepted, or lost to the overflow of the counter; each case is one equation. -/
namespace FlashController.Simulator
variable {device : Device}

theorem foldl_eraseMemory (erased : List Sector) (s : Simulator device) :
    erased.foldl (fun s sector => eraseMemory sector s) s =
      { s with memory :=
          erased.foldl (fun m sector => m.fill sector.offset sector.size 0xFF) s.memory } := by
  induction erased generalizing s with
  | nil => rfl
  | cons sector rest ih => exact ih _

theorem size_foldl_fill (erased : List Sector) (m : Memory) :
    (erased.foldl (fun m sector => m.fill sector.offset sector.size 0xFF) m).size = m.size := by
  induction erased generalizing m with
  | nil => rfl
  | cons sector rest ih => exact (ih _).trans (m.size_fill _ _ _)

/-- A memory and sticky flags that can come after those of a state. The busy flag is not sticky. -/
structure Follows (s : Simulator device) (memory : Memory) (flags : Contents .sr) : Prop where
  size : memory.size = s.memory.size
  busy : flags.has .bsy = s.flags.has .bsy

theorem follows_raise {s : Simulator device} {memory : Memory} {f : Flag .sr}
    (size : memory.size = s.memory.size) (sticky : f ≠ .bsy) :
    Follows s memory (s.flags.set f true) := by
  exact ⟨size, Contents.has_set_of_ne sticky⟩

/-- An erase touches the memory, the flags and the busy count. -/
theorem triggerErase_frame (v : Contents .cr) (s : Simulator device) :
    ∃ memory flags, triggerErase v s = { s with memory, flags, busy := s.latency } ∧
      Follows s memory flags := by
  unfold triggerErase
  split
  · obtain ⟨memory, erased, size⟩ : ∃ memory,
        sectors.foldl (fun s sector => eraseMemory sector s) s = { s with memory } ∧
        memory.size = s.memory.size :=
      ⟨_, foldl_eraseMemory sectors s, size_foldl_fill sectors s.memory⟩
    rw [eraseEverything, erased]
    split
    · exact ⟨_, _, rfl, follows_raise rfl nofun⟩
    · exact ⟨_, _, rfl, follows_raise size nofun⟩
  · split
    · rename_i sector _
      have size := s.memory.size_fill sector.offset sector.size 0xFF
      unfold eraseOne
      split
      · exact ⟨_, _, rfl, follows_raise rfl nofun⟩
      · exact ⟨_, _, rfl, follows_raise size nofun⟩
    · exact ⟨_, _, rfl, rfl, rfl⟩
  · exact ⟨_, _, rfl, follows_raise rfl nofun⟩

theorem countViolation_ok {s : Simulator device} (room : s.violations + 1 < UInt32.size) :
    countViolation s = .ok () { s with violations := s.violations + 1 } := by
  rw [countViolation, get_bind, if_pos room]
  rfl

theorem countViolation_full {s : Simulator device} (full : ¬ s.violations + 1 < UInt32.size) :
    countViolation s = .error .additionOverflow s := by
  rw [countViolation, get_bind, if_neg full]
  rfl

section Control
variable {v : Contents .cr} {s : Simulator device}

theorem writeControl_locked (locked : s.isLocked .main = true) :
    writeRegister .cr v s = .ok () { s with
      mainStage := if v.has .lock then .idle else s.mainStage
      events := .write .cr v :: s.events } := by
  have locked : (note (.write .cr v) s).isLocked .main = true := locked
  simp only [writeRegister]
  rw [modify_bind, get_bind, if_pos locked]
  split <;> rfl

/-- A write that the controller has to be spared while it is busy. -/
def Disturbs (v : Contents .cr) (s : Simulator device) : Prop :=
  s.busy ≠ 0 ∧ (s.cr.raw ^^^ v.raw) &&& operationMask device ≠ 0

theorem writeControl_calm (unlocked : s.isLocked .main = false) (calm : ¬ Disturbs v s) :
    writeRegister .cr v s = .ok () (acceptControl v (note (.write .cr v) s)) := by
  have unlocked : ¬ (note (.write .cr v) s).isLocked .main = true := Bool.not_eq_true _ ▸ unlocked
  have calm : ¬ Disturbs v (note (.write .cr v) s) := calm
  unfold Disturbs at calm
  simp only [writeRegister]
  rw [modify_bind, get_bind, if_neg unlocked, if_neg calm]
  rfl

theorem writeControl_disturbing (unlocked : s.isLocked .main = false) (disturbs : Disturbs v s) :
    writeRegister .cr v s =
      if s.violations + 1 < UInt32.size
      then .ok () (acceptControl v { note (.write .cr v) s with violations := s.violations + 1 })
      else .error .additionOverflow (note (.write .cr v) s) := by
  have unlocked : ¬ (note (.write .cr v) s).isLocked .main = true := Bool.not_eq_true _ ▸ unlocked
  have disturbs : Disturbs v (note (.write .cr v) s) := disturbs
  unfold Disturbs at disturbs
  simp only [writeRegister]
  rw [modify_bind, get_bind, if_neg unlocked, if_pos disturbs]
  split
  · rename_i room
    exact bind_ok (countViolation_ok room)
  · rename_i full
    exact bind_error (countViolation_full full)

/-- A write that is refused or lost leaves all but the key stage alone, and any other is accepted
once it was noted and counted. -/
theorem writeControl_leaves (v : Contents .cr) (s : Simulator device) :
    (∃ mainStage events, leaves (writeRegister .cr v) s = { s with mainStage, events }) ∨
      (s.isLocked .main = false ∧ ∃ violations events,
        leaves (writeRegister .cr v) s = acceptControl v { s with violations, events }) := by
  cases lock : s.isLocked .main with
  | true => exact .inl ⟨_, _, leaves_ok (writeControl_locked lock)⟩
  | false =>
    by_cases disturbs : Disturbs v s
    · have written := writeControl_disturbing lock disturbs
      split at written
      · exact .inr ⟨rfl, _, _, leaves_ok written⟩
      · exact .inl ⟨_, _, leaves_error written⟩
    · exact .inr ⟨rfl, s.violations, _, leaves_ok (writeControl_calm lock disturbs)⟩

theorem acceptControl_frame (v : Contents .cr) (s : Simulator device) :
    ∃ memory flags busy, acceptControl v s = { s with
      memory, flags, busy
      cr := v.set .strt false
      mainStage := if v.has .lock then .idle else s.mainStage } ∧
      Follows s memory flags := by
  simp only [acceptControl]
  by_cases rises : (v.has .strt && !s.cr.has .strt) = true
  · obtain ⟨memory, flags, frame, size, busy⟩ := triggerErase_frame v { s with
      mainStage := if v.has .lock then .idle else s.mainStage
      cr := v.set .strt false }
    rw [if_pos rises, frame]
    exact ⟨memory, flags, s.latency, rfl, size, busy⟩
  · rw [if_neg rises]
    exact ⟨s.memory, s.flags, s.busy, rfl, rfl, rfl⟩

/-- A write that is not lost changes the register of an unlocked domain, and never of a locked
one. -/
theorem writeControl_frame (v : Contents .cr) (s : Simulator device) :
    (∃ t, writeRegister .cr v s = .error .additionOverflow t ∧
      ∃ events, t = { s with events }) ∨
    ∃ memory flags busy violations events, writeRegister .cr v s = .ok () { s with
        memory, flags, busy, violations, events
        cr := if s.isLocked .main then s.cr else v.set .strt false
        mainStage := if v.has .lock then .idle else s.mainStage } ∧
      Follows s memory flags ∧ (s.isLocked .main = true → memory = s.memory) := by
  cases lock : s.isLocked .main with
  | true =>
    rw [writeControl_locked lock]
    exact .inr ⟨s.memory, s.flags, s.busy, s.violations, _, rfl, ⟨rfl, rfl⟩, fun _ => rfl⟩
  | false =>
    by_cases disturbs : Disturbs v s
    · rw [writeControl_disturbing lock disturbs]
      split
      · obtain ⟨memory, flags, busy, frame, follows⟩ := acceptControl_frame v
          { note (.write .cr v) s with violations := s.violations + 1 }
        rw [frame]
        exact .inr ⟨memory, flags, busy, _, _, rfl, ⟨follows.size, follows.busy⟩, nofun⟩
      · exact .inl ⟨_, rfl, _, rfl⟩
    · obtain ⟨memory, flags, busy, frame, follows⟩ :=
        acceptControl_frame v (note (.write .cr v) s)
      rw [writeControl_calm lock disturbs, frame]
      exact .inr ⟨memory, flags, busy, s.violations, _, rfl, ⟨follows.size, follows.busy⟩, nofun⟩

end Control

section Options
variable {v : Contents .optcr} {s : Simulator device}

theorem writeOptions_locked (locked : s.isLocked .optionBytes = true) :
    writeRegister .optcr v s = .ok () { s with
      optionStage := if v.has .optlock then .idle else s.optionStage
      events := .write .optcr v :: s.events } := by
  have locked : (note (.write .optcr v) s).isLocked .optionBytes = true := locked
  simp only [writeRegister]
  rw [modify_bind, get_bind, if_pos locked]
  split <;> rfl

theorem writeOptions_idle (unlocked : s.isLocked .optionBytes = false) (idle : s.busy = 0) :
    writeRegister .optcr v s = .ok () (acceptOptions v (note (.write .optcr v) s)) := by
  have unlocked : ¬ (note (.write .optcr v) s).isLocked .optionBytes = true :=
    Bool.not_eq_true _ ▸ unlocked
  have idle : ¬ (note (.write .optcr v) s).busy ≠ 0 := not_not_intro idle
  simp only [writeRegister]
  rw [modify_bind, get_bind, if_neg unlocked, if_neg idle]
  rfl

theorem writeOptions_busy (unlocked : s.isLocked .optionBytes = false) (busy : s.busy ≠ 0) :
    writeRegister .optcr v s =
      if s.violations + 1 < UInt32.size
      then .ok () (acceptOptions v { note (.write .optcr v) s with violations := s.violations + 1 })
      else .error .additionOverflow (note (.write .optcr v) s) := by
  have unlocked : ¬ (note (.write .optcr v) s).isLocked .optionBytes = true :=
    Bool.not_eq_true _ ▸ unlocked
  have busy : (note (.write .optcr v) s).busy ≠ 0 := busy
  simp only [writeRegister]
  rw [modify_bind, get_bind, if_neg unlocked, if_pos busy]
  split
  · rename_i room
    exact bind_ok (countViolation_ok room)
  · rename_i full
    exact bind_error (countViolation_full full)

theorem acceptOptions_frame (v : Contents .optcr) (s : Simulator device) :
    ∃ committed busy, acceptOptions v s = { s with
      committed, busy
      optcr := v.set .optstrt false
      optionStage := if v.has .optlock then .idle else s.optionStage } := by
  simp only [acceptOptions]
  by_cases starts : v.has .optstrt = true
  · rw [if_pos starts]
    exact ⟨v.optionBytes, s.latency, rfl⟩
  · rw [if_neg starts]
    exact ⟨s.committed, s.busy, rfl⟩

theorem writeOptions_frame (v : Contents .optcr) (s : Simulator device) :
    (∃ t, writeRegister .optcr v s = .error .additionOverflow t ∧
      ∃ events, t = { s with events }) ∨
    ∃ committed busy violations events, writeRegister .optcr v s = .ok () { s with
        committed, busy, violations, events
        optcr := if s.isLocked .optionBytes then s.optcr else v.set .optstrt false
        optionStage := if v.has .optlock then .idle else s.optionStage } ∧
      (s.isLocked .optionBytes = true → committed = s.committed) := by
  cases lock : s.isLocked .optionBytes with
  | true =>
    rw [writeOptions_locked lock]
    exact .inr ⟨s.committed, s.busy, s.violations, _, rfl, fun _ => rfl⟩
  | false =>
    by_cases idle : s.busy = 0
    · obtain ⟨committed, busy, frame⟩ := acceptOptions_frame v (note (.write .optcr v) s)
      rw [writeOptions_idle lock idle, frame]
      exact .inr ⟨committed, busy, s.violations, _, rfl, nofun⟩
    · rw [writeOptions_busy lock idle]
      split
      · obtain ⟨committed, busy, frame⟩ := acceptOptions_frame v
          { note (.write .optcr v) s with violations := s.violations + 1 }
        rw [frame]
        exact .inr ⟨committed, busy, _, _, rfl, nofun⟩
      · exact .inl ⟨_, rfl, _, rfl⟩

end Options

theorem burn_frame (offset : Nat) (w : Word) (s : Simulator device) :
    ∃ memory flags, burn offset w s = { s with memory, flags, busy := s.latency } ∧
      Follows s memory flags := by
  have size := s.memory.size_merge (· &&& ·) offset w.bytes
  have ended : ∀ v : Contents .sr, (v.set .eop true).has .bsy = v.has .bsy :=
    fun _ => Contents.has_set_of_ne (by decide)
  simp only [burn]
  split
  · exact ⟨_, _, rfl, size, (ended _).trans (Contents.has_set_of_ne (by decide))⟩
  · exact ⟨_, _, rfl, size, ended _⟩

theorem storeError?_sticky {a : Address} {w : Word} {s : Simulator device} {f : Flag .sr}
    (error : storeError? a w s = some f) : f ≠ .bsy := by
  rintro rfl
  unfold storeError? at error
  repeat' split at error
  all_goals exact absurd error nofun

section Store
variable {a : Address} {w : Word} {s : Simulator device}

/-- What becomes of a store that was noted and counted. -/
def settleStore (a : Address) (w : Word) : MachineM (Simulator device) Unit := fun s =>
  if ¬ InWindow a then .error (.outsideWindow a) s
  else if s.isLocked .main then .ok () s
  else match storeError? a w s with
    | some f => .ok () (raise f s)
    | none =>
      if a.toNat - flashStart + w.width.bytes ≤ s.memory.size
      then .ok () (burn (a.toNat - flashStart) w s)
      else .error .outsideMemory s

theorem locate_inWindow (inside : InWindow a) (n : Nat) (fits : n ≤ 8) (s : Simulator device) :
    locate a n s =
      if a.toNat - flashStart + n ≤ s.memory.size then .ok (a.toNat - flashStart) s
      else .error .outsideMemory s := by
  obtain ⟨low, high⟩ := inside
  have offset : a.offsetFrom? flashStart = some (a.toNat - flashStart) := if_pos low
  have small : a.toNat - flashStart + n < UInt64.size := by
    unfold memorySize at high
    unfold UInt64.size
    omega
  unfold locate
  simp only [offset]
  rw [if_pos small, get_bind]
  split <;> rfl

/-- The part of a store behind the busy check. -/
theorem settleStore_eq (a : Address) (w : Word) (s : Simulator device) :
    (do
      unless InWindow a do throw (.outsideWindow a)
      let s ← get
      unless s.isLocked .main do
        match storeError? a w s with
        | some f => modify (raise f)
        | none =>
          let offset ← locate a w.width.bytes
          modify (burn offset w) : MachineM (Simulator device) Unit) s = settleStore a w s := by
  unfold settleStore
  by_cases inside : InWindow a
  · rw [if_neg (not_not_intro inside)]
    simp only [if_pos inside]
    rw [get_bind]
    by_cases locked : s.isLocked .main = true
    · rw [if_pos locked, if_pos locked]
      rfl
    · rw [if_neg locked, if_neg locked]
      cases storeError? a w s with
      | some f => rfl
      | none =>
        have fits : w.width.bytes ≤ 8 := by cases w.width <;> decide
        have located := locate_inWindow inside w.width.bytes fits s
        split at located
        · rename_i room
          rw [if_pos room]
          exact bind_ok located
        · rename_i short
          rw [if_neg short]
          exact bind_error located
  · rw [if_pos inside]
    simp only [if_neg inside]
    rfl

theorem storeWord_idle (idle : s.busy = 0) :
    storeWord a w s = settleStore a w (note (.store a w.width) s) := by
  have idle : ¬ (note (.store a w.width) s).busy ≠ 0 := not_not_intro idle
  rw [storeWord, modify_bind, get_bind, if_neg idle]
  exact settleStore_eq a w _

theorem storeWord_busy (busy : s.busy ≠ 0) :
    storeWord a w s =
      if s.violations + 1 < UInt32.size
      then settleStore a w { note (.store a w.width) s with violations := s.violations + 1 }
      else .error .additionOverflow (note (.store a w.width) s) := by
  have busy : (note (.store a w.width) s).busy ≠ 0 := busy
  rw [storeWord, modify_bind, get_bind, if_pos busy]
  by_cases room : s.violations + 1 < UInt32.size
  · rw [if_pos room, ← settleStore_eq]
    exact bind_ok (countViolation_ok room)
  · rw [if_neg room]
    exact bind_error (countViolation_full room)

theorem settleStore_outside (outside : ¬ InWindow a) :
    settleStore a w s = .error (.outsideWindow a) s := if_pos outside

theorem settleStore_locked (inside : InWindow a) (locked : s.isLocked .main = true) :
    settleStore a w s = .ok () s := by
  rw [settleStore, if_neg (not_not_intro inside), if_pos locked]

theorem settleStore_refused {f : Flag .sr} (inside : InWindow a)
    (unlocked : s.isLocked .main = false) (error : storeError? a w s = some f) :
    settleStore a w s = .ok () (raise f s) := by
  rw [settleStore, if_neg (not_not_intro inside), if_neg (by simp [unlocked])]
  simp only [error]

theorem settleStore_accepted (inside : InWindow a) (unlocked : s.isLocked .main = false)
    (clear : storeError? a w s = none) :
    settleStore a w s =
      if a.toNat - flashStart + w.width.bytes ≤ s.memory.size
      then .ok () (burn (a.toNat - flashStart) w s)
      else .error .outsideMemory s := by
  rw [settleStore, if_neg (not_not_intro inside), if_neg (by simp [unlocked])]
  simp only [clear]

/-- What a store leaves once it was noted and perhaps counted: that state, the flag of an error, or
the programmed word. -/
theorem storeWord_leaves (a : Address) (w : Word) (s : Simulator device) :
    ∃ t, (∃ violations, t = { s with violations, events := .store a w.width :: s.events }) ∧
      (leaves (storeWord a w) s = t ∨
        (InWindow a ∧ s.isLocked .main = false ∧
          ((∃ f, storeError? a w s = some f ∧ leaves (storeWord a w) s = raise f t) ∨
          (storeError? a w s = none ∧
            leaves (storeWord a w) s = burn (a.toNat - flashStart) w t)))) := by
  have settled : ∀ s : Simulator device, leaves (settleStore a w) s = s ∨
      (InWindow a ∧ s.isLocked .main = false ∧
        ((∃ f, storeError? a w s = some f ∧ leaves (settleStore a w) s = raise f s) ∨
        (storeError? a w s = none ∧
          leaves (settleStore a w) s = burn (a.toNat - flashStart) w s))) := by
    intro s
    by_cases inside : InWindow a
    · cases lock : s.isLocked .main with
      | true => exact .inl (leaves_ok (settleStore_locked inside lock))
      | false =>
        cases error : storeError? a w s with
        | some f =>
          have refused := leaves_ok (settleStore_refused inside lock error)
          exact .inr ⟨inside, rfl, .inl ⟨f, rfl, refused⟩⟩
        | none =>
          have accepted := settleStore_accepted inside lock error
          split at accepted
          · exact .inr ⟨inside, rfl, .inr ⟨rfl, leaves_ok accepted⟩⟩
          · exact .inl (leaves_error accepted)
    · exact .inl (leaves_error (settleStore_outside inside))
  by_cases idle : s.busy = 0
  · refine ⟨_, ⟨s.violations, rfl⟩, ?_⟩
    simp only [leaves, storeWord_idle idle]
    exact settled (note (.store a w.width) s)
  · by_cases room : s.violations + 1 < UInt32.size
    · refine ⟨_, ⟨s.violations + 1, rfl⟩, ?_⟩
      simp only [leaves, storeWord_busy idle, if_pos room]
      exact settled { note (.store a w.width) s with violations := s.violations + 1 }
    · refine ⟨_, ⟨s.violations, rfl⟩, .inl ?_⟩
      simp only [leaves, storeWord_busy idle, if_neg room]
      rfl

/-- A store leaves the registers alone, and in a locked domain the memory too. -/
theorem storeWord_frame (a : Address) (w : Word) (s : Simulator device) :
    ∃ memory flags busy violations events,
      leaves (storeWord a w) s = { s with memory, flags, busy, violations, events } ∧
      Follows s memory flags ∧ (s.isLocked .main = true → memory = s.memory) := by
  obtain ⟨t, ⟨violations, rfl⟩, same | ⟨_, unlocked, ⟨f, error, refused⟩ | ⟨_, burnt⟩⟩⟩ :=
    storeWord_leaves a w s
  · exact ⟨s.memory, s.flags, s.busy, violations, _, same, ⟨rfl, rfl⟩, fun _ => rfl⟩
  · exact ⟨s.memory, s.flags.set f true, s.busy, violations, _, refused,
      follows_raise rfl (storeError?_sticky error), fun _ => rfl⟩
  · obtain ⟨memory, flags, frame, size, busy⟩ := burn_frame (a.toNat - flashStart) w
      { s with violations, events := .store a w.width :: s.events }
    exact ⟨memory, flags, s.latency, violations, _, burnt.trans frame, ⟨size, busy⟩,
      fun locked => absurd (unlocked.symm.trans locked) nofun⟩

end Store

/-- A read takes at most one from the busy count, and nothing else but the log changes. -/
theorem read_frame (r : Register) (s : Simulator device) : ∃ busy events,
    leaves (Machine.perform (.read r)) s = { s with busy, events } ∧ busy ≤ s.busy := by
  cases r with
  | cr | acr | optcr => exact ⟨_, _, rfl, Nat.le_refl _⟩
  | sr =>
    show ∃ busy events, (pollStatus s).2 = { s with busy, events } ∧ busy ≤ s.busy
    unfold pollStatus
    split
    · exact ⟨_, _, rfl, Nat.le_refl _⟩
    · exact ⟨_, _, rfl, Nat.sub_le _ _⟩

theorem locate_same (a : Address) (n : Nat) (s : Simulator device) :
    (∃ offset, locate a n s = .ok offset s) ∨ ∃ e, locate a n s = .error e s := by
  unfold locate
  cases a.offsetFrom? flashStart with
  | none => exact .inr ⟨_, rfl⟩
  | some offset =>
    by_cases small : offset + n < UInt64.size
    · simp only [if_pos small]
      rw [get_bind]
      split
      · exact .inl ⟨offset, rfl⟩
      · exact .inr ⟨_, rfl⟩
    · simp only [if_neg small]
      exact .inr ⟨_, rfl⟩

theorem leaves_locate {f : Nat → MachineM (Simulator device) α} {P : Simulator device → Prop}
    {s : Simulator device} (a : Address) (n : Nat) (h : P s)
    (next : ∀ offset, P (leaves (f offset) s)) : P (leaves (locate a n >>= f) s) := by
  obtain ⟨offset, located⟩ | ⟨e, failed⟩ := locate_same a n s
  · simpa only [leaves, bind_ok located] using next offset
  · simpa only [leaves, bind_error failed] using h

/-- What is done to the controller from outside, but for a reset, says how long operations take,
raises sticky flags, or fills a part of the memory. -/
theorem control_frame (c : Control) (s : Simulator device) :
    c = .reset ∨ ∃ memory flags busy latency,
      leaves (control c) s = { s with memory, flags, busy, latency } ∧
      memory.size = s.memory.size ∧ (memory = s.memory ∨ ∃ a n b, c = .fill a n b) ∧
      (flags = s.flags ∨ ∃ v : Contents .sr, flags = ⟨s.flags.raw ||| v.raw &&& stickyMask⟩) := by
  cases c with
  | reset => exact .inl rfl
  | setBusy reads => exact .inr ⟨_, _, reads, _, rfl, rfl, .inl rfl, .inl rfl⟩
  | setLatency reads => exact .inr ⟨_, _, _, reads, rfl, rfl, .inl rfl, .inl rfl⟩
  | setFlags v => exact .inr ⟨_, _, _, _, rfl, rfl, .inl rfl, .inr ⟨v, rfl⟩⟩
  | fill a length b =>
    obtain ⟨memory, filled, size⟩ : ∃ memory,
        leaves (control (.fill a length b)) s = { s with memory } ∧
          memory.size = s.memory.size :=
      leaves_locate (P := fun t => ∃ memory, t = { s with memory } ∧ memory.size = s.memory.size)
        a length ⟨_, rfl, rfl⟩ fun offset => ⟨_, rfl, s.memory.size_fill offset length b⟩
    exact .inr ⟨memory, _, _, _, filled, size, .inr ⟨a, length, b, rfl⟩, .inl rfl⟩
  | read a length =>
    have same : leaves (control (.read a length)) s = s :=
      leaves_locate (P := (· = s)) a length rfl fun _ => rfl
    exact .inr ⟨_, _, _, _, same, rfl, .inl rfl, .inl rfl⟩
  | readWord a w =>
    have same : leaves (control (.readWord a w)) s = s :=
      leaves_locate (P := (· = s)) a w.bytes rfl fun _ => rfl
    exact .inr ⟨_, _, _, _, same, rfl, .inl rfl, .inl rfl⟩

end FlashController.Simulator
