import FlashController.Proofs.Moves
import FlashController.Proofs.Simulator.Inertness
import FlashController.Proofs.Simulator.Programming

/-! What the simulated controller notes. Nothing that was noted is lost in a call, and only a store
is noted as one, so the newest store that a call has noted is the last that it made. -/
namespace FlashController.Simulator
variable {device : Device} {s t : Simulator device}

/-- Some events are still the oldest. -/
def Since (before : List Event) (s : Simulator device) : Prop :=
  ∃ noted, s.events = noted ++ before

/-- The newest store since some events is one of a width. -/
def LastStore (w : Width) (before : List Event) (s : Simulator device) : Prop :=
  ∃ a newer older, s.events = newer ++ .store a w :: (older ++ before) ∧
    ∀ b u, .store b u ∉ newer

/-- Any move but a store. -/
def Storeless : Move → Prop
  | .act (.store _ _) => False
  | _ => True

section Accesses

theorem writeControl_events (v : Contents .cr) (s : Simulator device) :
    (leaves (writeRegister .cr v) s).events = .write .cr v :: s.events := by
  have accepts : ∀ t : Simulator device, (acceptControl v t).events = t.events := by
    intro t
    obtain ⟨memory, flags, busy, frame, _⟩ := acceptControl_frame v t
    rw [frame]
  cases lock : s.isLocked .main with
  | true => rw [leaves_ok (writeControl_locked lock)]
  | false =>
    by_cases disturbs : Disturbs v s
    · rw [leaves, writeControl_disturbing lock disturbs]
      by_cases room : s.violations + 1 < UInt32.size
      · rw [if_pos room]
        exact accepts _
      · rw [if_neg room]
        rfl
    · rw [leaves_ok (writeControl_calm lock disturbs)]
      exact accepts _

theorem storeWord_events (a : Address) (w : Word) (s : Simulator device) :
    (leaves (storeWord a w) s).events = .store a w.width :: s.events := by
  obtain ⟨t, ⟨violations, rfl⟩, same | ⟨_, _, ⟨f, _, refused⟩ | ⟨_, burnt⟩⟩⟩ :=
    storeWord_leaves a w s
  · rw [same]
  · rw [refused]
    rfl
  · obtain ⟨memory, flags, frame, _⟩ := burn_frame (a.toNat - flashStart) w
      { s with violations, events := .store a w.width :: s.events }
    rw [burnt, frame]

/-- What an access makes the controller note. -/
def noted (s : Simulator device) : Access → List Event
  | .read .sr => [.statusRead (s.busy ≠ 0)]
  | .read _ | .write .acr _ => []
  | .write r v => [.write r v]
  | .key d k => [.key d k]
  | .barrier => [.barrier]
  | .store a w => [.store a w.width]

theorem performed_noted (a : Access) (s : Simulator device) :
    (leaves (Machine.perform a) s).events = noted s a ++ s.events := by
  cases a with
  | read r =>
    cases r with
    | cr | acr | optcr => rfl
    | sr =>
      show (pollStatus s).2.events = _
      unfold pollStatus
      split <;> simp_all [note, noted]
  | write r v =>
    cases r with
    | cr => exact writeControl_events v s
    | sr | acr => rfl
    | optcr => exact writeOptions_events v s
  | key d k => cases d <;> rfl
  | barrier => rfl
  | store a w => exact storeWord_events a w s

theorem storeless_noted {a : Access} (other : ∀ b w, a ≠ .store b w) (s : Simulator device)
    (b : Address) (u : Width) : .store b u ∉ noted s a := by
  intro member
  cases a with
  | read r | write r => cases r <;> simp [noted] at member
  | key | barrier => simp [noted] at member
  | store b w => exact other b w rfl

end Accesses

section Calls
variable {before : List Event} {w : Width}

theorem Since.run (h : Since before s) (p : Procedure α) : Since before (leaves p.run s) := by
  refine p.run_keeps (fun x s h => ?_) s h
  obtain ⟨older, same⟩ := h
  exact ⟨noted s x ++ older, by rw [performed_noted, same, List.append_assoc]⟩

theorem LastStore.perform (h : LastStore w before s) {x : Access} (other : ∀ a u, x ≠ .store a u) :
    LastStore w before (leaves (Machine.perform x) s) := by
  obtain ⟨a, newer, older, same, none⟩ := h
  refine ⟨a, noted s x ++ newer, older, by rw [performed_noted, same, List.append_assoc],
    fun b u member => ?_⟩
  rcases List.mem_append.mp member with new | old
  · exact storeless_noted other s b u new
  · exact none b u old

theorem LastStore.run (h : LastStore w before s) {p : Procedure α} (storeless : p.Makes Storeless) :
    LastStore w before (leaves p.run s) := by
  refine storeless.run_keeps (fun x s kind h => ?_) (fun r _ s _ h => h.perform nofun) h
  refine h.perform ?_
  rintro a u rfl
  exact kind

theorem LastStore.since (h : LastStore w before s) : Since before s := by
  obtain ⟨a, newer, older, same, _⟩ := h
  exact ⟨newer ++ .store a w :: older, by rw [same, List.append_assoc, List.cons_append]⟩

theorem wait_storeless : Procedure.waitUntilIdle.Makes Storeless :=
  ⟨trivial, fun _ => ⟨trivial, fun _ => trivial⟩⟩

theorem update_storeless (r : Register) (f : Contents r → Contents r) :
    (Procedure.update r f).Makes Storeless :=
  ⟨trivial, fun _ => ⟨trivial, fun _ => trivial⟩⟩

/-- The last store of a program operation is its word. -/
theorem program_lastStore (since : Since before s) {a : Address} {w : Word}
    (run : (Procedure.program a w).run s = .ok () t) : LastStore w.width before t := by
  rw [program_eq] at run
  obtain ⟨_, u, aims, run⟩ := Procedure.run_bind_eq_ok run
  obtain ⟨_, v, stores, run⟩ := Procedure.run_bind_eq_ok run
  obtain ⟨older, same⟩ := since.run (aim w.width)
  rw [leaves_ok aims] at same
  have noted := storeWord_events a w u
  rw [leaves_ok ((run_store a w u).symm.trans stores), same] at noted
  have stored : LastStore w.width before v := ⟨a, [], older, noted, nofun⟩
  exact leaves_ok run ▸ stored.run (wait_storeless.bind fun _ => update_storeless .cr _)

/-- The last store of a run over some words is the last of them. -/
theorem programWords_lastStore (since : Since before s) {a : Address} {words : List Word}
    (run : (Procedure.programWords a words).run s = .ok () t) :
    ∀ w ∈ words.getLast?, LastStore w.width before t := by
  induction words generalizing s a with
  | nil => exact nofun
  | cons w rest ih =>
    obtain ⟨_, u, programs, run⟩ := Procedure.run_bind_eq_ok run
    obtain ⟨next, v, advances, run⟩ := Procedure.run_bind_eq_ok run
    have here := program_lastStore since programs
    obtain rfl : u = v := by
      unfold Procedure.advance at advances
      cases moved : a.advance? w.width.bytes <;> rw [moved] at advances <;> cases advances
      rfl
    cases rest with
    | nil =>
      rintro _ ⟨⟩
      cases run
      exact here
    | cons c more =>
      rw [List.getLast?_cons_cons]
      exact ih here.since run

end Calls
end FlashController.Simulator
