import FlashController.Procedure.Programming
import FlashController.Proofs.Simulator.Call

/-! What the driver does to an idle simulated controller, step by step. What is noted on the way is
left open. -/
namespace FlashController.Simulator
variable {device : Device}

abbrev logged (s : Simulator device) (events : List Event) : Simulator device := { s with events }

/-- No operation is in progress any more. -/
def rested (s : Simulator device) : Simulator device := { s with busy := 0 }

/-- A key sequence that was begun is forgotten. -/
def unkeyed (s : Simulator device) : Simulator device := { s with mainStage := .idle }

def controlled (v : Contents .cr) (s : Simulator device) : Simulator device := { s with cr := v }

/-- A procedure completes in a state, whatever was and will be noted. -/
def Completes (p : Procedure α) (s : Simulator device) (a : α) (t : Simulator device) : Prop :=
  ∀ events, ∃ later, p.run (s.logged events) = .ok a (t.logged later)

/-- A procedure halts in a state, whatever was and will be noted. -/
def Halts (p : Procedure α) (s : Simulator device) (e : Halt) (t : Simulator device) : Prop :=
  ∀ events, ∃ later, p.run (s.logged events) = .error e (t.logged later)

section
variable {p : Procedure α} {f : α → Procedure β} {s t u : Simulator device} {a : α} {b : β}
  {e : Halt}

theorem Completes.bind (first : Completes p s a t) (rest : Completes (f a) t b u) :
    Completes (p >>= f) s b u := by
  intro events
  obtain ⟨middle, first⟩ := first events
  obtain ⟨later, rest⟩ := rest middle
  exact ⟨later, (Procedure.run_bind_ok first).trans rest⟩

theorem Completes.halts (first : Completes p s a t) (rest : Halts (f a) t e u) :
    Halts (p >>= f) s e u := by
  intro events
  obtain ⟨middle, first⟩ := first events
  obtain ⟨later, rest⟩ := rest middle
  exact ⟨later, (Procedure.run_bind_ok first).trans rest⟩

theorem Halts.bind (h : Halts p s e t) : Halts (p >>= f) s e t := by
  intro events
  obtain ⟨later, h⟩ := h events
  exact ⟨later, Procedure.run_bind_error h⟩

theorem Completes.leaves (h : Completes p s a t) : ∃ later, leaves p.run s = t.logged later := by
  obtain ⟨later, run⟩ := h s.events
  exact ⟨later, leaves_ok run⟩

theorem Halts.leaves (h : Halts p s e t) : ∃ later, leaves p.run s = t.logged later := by
  obtain ⟨later, run⟩ := h s.events
  exact ⟨later, leaves_error run⟩

theorem Sound.run {p : Procedure α} {s t : Simulator device} {a : α} (h : Sound s)
    (run : Completes p s a t) : Sound t := by
  obtain ⟨later, left⟩ := run.leaves
  have sound := h.procedure p
  rw [left] at sound
  exact ⟨sound.memory_size, sound.start_clear, sound.busy_clear⟩

theorem completes_pure (a : α) (s : Simulator device) : Completes (pure a) s a s :=
  fun events => ⟨events, rfl⟩

end

section
variable {s : Simulator device}

theorem perform_status (s : Simulator device) :
    (Machine.perform (.read .sr) : MachineM (Simulator device) (Contents .sr)) s =
      .ok (pollStatus s).1 (pollStatus s).2 := rfl

theorem awaitReady_ready (clear : s.flags.has .bsy = false) (idle : s.busy = 0) (n : Nat) :
    awaitReady .sr (fun v => !v.has .bsy) (n + 1) s = .ok s.flags (note (.statusRead false) s) := by
  have polled : pollStatus s = (s.flags, note (.statusRead false) s) := if_pos idle
  refine (bind_ok (perform_status s)).trans ?_
  simp only [polled, clear]
  rfl

/-- The state after a wait, with all the status reads that it took. -/
def waited (s : Simulator device) : Simulator device := { s with
  busy := 0
  events := .statusRead false :: (List.replicate s.busy (.statusRead true) ++ s.events) }

theorem waited_idle (idle : s.busy = 0) : waited s = note (.statusRead false) s := by
  simp only [waited, note, idle, List.replicate_zero, List.nil_append]

/-- A wait is over when the busy count has run down. -/
theorem awaitReady_idle (clear : s.flags.has .bsy = false) {n : Nat} (long : s.busy ≤ n) :
    awaitReady .sr (fun v => !v.has .bsy) (n + 1) s = .ok s.flags (waited s) := by
  induction n generalizing s with
  | zero =>
    have idle : s.busy = 0 := Nat.le_zero.mp long
    rw [awaitReady_ready clear idle, waited_idle idle]
  | succ n ih =>
    by_cases idle : s.busy = 0
    · rw [awaitReady_ready clear idle, waited_idle idle]
    · obtain ⟨m, busy⟩ := Nat.exists_eq_succ_of_ne_zero idle
      have polled : pollStatus s = (s.flags.set .bsy true,
          note (.statusRead true) { s with busy := s.busy - 1 }) := if_neg idle
      have rest := ih (s := note (.statusRead true) { s with busy := m }) clear
        (Nat.le_of_succ_le_succ (busy ▸ long))
      refine (bind_ok (perform_status s)).trans ?_
      simp only [polled, busy, Contents.has_set_self]
      refine rest.trans ?_
      simp only [waited, note, busy, List.replicate_succ', List.append_assoc, List.singleton_append]

theorem waitUntilIdle_completes (clear : s.flags.has .bsy = false) :
    Completes Procedure.waitUntilIdle s () s.rested := by
  have barrier : Completes Procedure.barrier s () s := fun events => ⟨.barrier :: events, rfl⟩
  refine barrier.bind fun events => ?_
  have ready := awaitReady_idle (s := s.logged events) clear (Nat.le_refl s.busy)
  have poll := (Procedure.run_readUntil .sr (fun v => !v.has .bsy) (s.logged events)).trans ready
  exact ⟨_, Procedure.run_bind_ok poll⟩

theorem run_updateControl (f : Contents .cr → Contents .cr) (s : Simulator device) :
    (Procedure.update .cr f).run s = writeRegister .cr (f s.cr) s :=
  Procedure.run_update (t := s) rfl

/-- A locked controller takes no update. One that keeps the lock bit drops the key sequence. -/
theorem update_locked {f : Contents .cr → Contents .cr} (locked : s.isLocked .main = true)
    (keeps : (f s.cr).has .lock = s.cr.has .lock) :
    Completes (Procedure.update .cr f) s () s.unkeyed := by
  intro events
  have locks : (f s.cr).has .lock = true := keeps.trans locked
  refine ⟨.write .cr (f s.cr) :: events, ?_⟩
  have written := writeControl_locked (v := f s.cr) (s := s.logged events) locked
  rw [if_pos locks] at written
  exact (run_updateControl f _).trans written

end
end FlashController.Simulator

namespace FlashController.Harmless
open Simulator
variable {device : Device} {s : Simulator device} {f : Contents .cr → Contents .cr}

theorem locked (h : Harmless f) (locked : s.isLocked .main = true) :
    Completes (Procedure.update .cr f) s () s.unkeyed := update_locked locked (h.lock _)

theorem unlocked (h : Harmless f) (unlocked : s.isLocked .main = false) (idle : s.busy = 0)
    (calm : s.cr.has .strt = false) :
    Completes (Procedure.update .cr f) s () (controlled (f s.cr) s) := by
  intro events
  have unlocks : (f s.cr).has .lock = false := (h.lock _).trans unlocked
  have calm : (f s.cr).has .strt = false := (h.start _).trans calm
  refine ⟨.write .cr (f s.cr) :: events, ?_⟩
  have written := writeControl_calm (v := f s.cr) (s := s.logged events) unlocked
    fun disturbs => disturbs.1 idle
  simp only [acceptControl, unlocks, calm, Contents.set_same calm, Bool.false_and,
    Bool.false_eq_true] at written
  exact (run_updateControl f _).trans written

end FlashController.Harmless
