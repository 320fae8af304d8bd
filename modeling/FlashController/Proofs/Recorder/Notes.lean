import FlashController.Proofs.Recorder.Pacing
import FlashController.Proofs.Tiling

/-! What actions note in the log of a recorder, whatever the registers answer. A rule for each step
of programming gives the log of words that are programmed one after the other. -/
namespace FlashController.Recorder

/-- An action that starts with some events noted has noted, as it completes, events with one
property, and as it halts, events with another. What was in the log before all that is kept. -/
def Notes (before : List Event) (act : MachineM Recorder α) (done : α → List Event → Prop)
    (broken : List Event → Prop) : Prop :=
  ∀ (s : Recorder) (base : List Event), s.events = before ++ base →
    ∃ log, (leaves act s).events = log ++ base ∧
      match act s with
      | .ok a _ => done a log
      | .error _ _ => broken log

def Event.store? : Event → Option (Address × Word)
  | .store a w => some (a, w)
  | _ => none

/-- The stores of a log in order of time. -/
def stores (log : List Event) : List (Address × Word) := log.reverse.filterMap Event.store?

/-- Nothing but waits. -/
def Waiting (log : List Event) : Prop := ∀ e ∈ log, e.waits = true

/-- The words that were stored are the first of a list. -/
def Begins (words : List Word) (log : List Event) : Prop := (stores log).map Prod.snd <+: words

/-- The log of programming one word after some events: between and after two waits, what was read
of the control register and what was written back. -/
inductive Programmed (a : Address) (w : Word) (older : List Event) : List Event → Prop
  | intro {first last : List Event} (v u x : Contents .cr) (waits : Waiting first)
      (waits' : Waiting last) :
      Programmed a w older (.write .cr (x.set .pg false) :: .read .cr x :: (last ++
        .store a w :: .write .cr (u.set .pg true) :: .read .cr u ::
          .write .cr (v.setProgramWidth w.width) :: .read .cr v :: (first ++ older)))

/-- The log of programming words from one address to another after some events. -/
inductive Laid : Address → List Word → Address → (older log : List Event) → Prop
  | nil (a : Address) (older : List Event) : Laid a [] a older older
  | cons {a next stop : Address} {w : Word} {rest : List Word} {older log later : List Event}
      (here : Programmed a w older log) (moved : next.toNat = a.toNat + w.width.bytes)
      (there : Laid next rest stop log later) : Laid a (w :: rest) stop older later

/-- Stores that lie one after the other from one address to another. -/
def Adjoining : Nat → List (Address × Word) → Nat → Prop
  | start, [], stop => start = stop
  | start, (a, w) :: rest, stop => a.toNat = start ∧ Adjoining (start + w.width.bytes) rest stop

theorem Waiting.cons {e : Event} {log : List Event} (waits : e.waits = true) (rest : Waiting log) :
    Waiting (e :: log) := List.forall_mem_cons.mpr ⟨waits, rest⟩

section Rules
variable {before : List Event} {act : MachineM Recorder α} {done : α → List Event → Prop}
  {broken : List Event → Prop}

theorem Notes.of_ok {s t : Recorder} {a : α} (h : Notes [] act done broken)
    (run : act s = .ok a t) : ∃ log, t.events = log ++ s.events ∧ done a log := by
  obtain ⟨log, events, told⟩ := h s s.events rfl
  rw [leaves_ok run] at events
  rw [run] at told
  exact ⟨log, events, told⟩

theorem notes_pure {a : α} (here : done a before) : Notes before (pure a) done broken :=
  fun _ _ same => ⟨before, same, here⟩

theorem Notes.bind {next : α → MachineM Recorder β} {middle : α → List Event → Prop}
    {last : β → List Event → Prop} (first : Notes before act middle broken)
    (rest : ∀ a log, middle a log → Notes log (next a) last broken) :
    Notes before (act >>= next) last broken := by
  intro s base same
  obtain ⟨log, events, told⟩ := first s base same
  cases run : act s with
  | ok a t =>
    rw [leaves_ok run] at events
    rw [run] at told
    simp only [leaves, bind_ok run]
    exact rest a log told t base events
  | error e t =>
    rw [leaves_error run] at events
    rw [run] at told
    simp only [leaves, bind_error run]
    exact ⟨log, events, told⟩

theorem Notes.run_bind {p : Procedure α} {next : α → Procedure β} {middle : α → List Event → Prop}
    {last : β → List Event → Prop} (first : Notes before p.run middle broken)
    (rest : ∀ a log, middle a log → Notes log (next a).run last broken) :
    Notes before (p >>= next).run last broken := by
  rw [Procedure.run_bind]
  exact first.bind rest

theorem Notes.relax {last : α → List Event → Prop} {halted : List Event → Prop}
    (h : Notes before act done broken) (weaker : ∀ a log, done a log → last a log)
    (weaker' : ∀ log, broken log → halted log) : Notes before act last halted := by
  intro s base same
  obtain ⟨log, events, told⟩ := h s base same
  refine ⟨log, events, ?_⟩
  cases run : act s with
  | ok a t =>
    rw [run] at told
    exact weaker a log told
  | error e t =>
    rw [run] at told
    exact weaker' log told

end Rules

section Stores
variable {older log later : List Event} {words : List Word} {a stop : Address}

theorem stores_append (later log : List Event) :
    stores (later ++ log) = stores log ++ stores later := by
  rw [stores, List.reverse_append, List.filterMap_append]
  rfl

theorem stores_cons (e : Event) (log : List Event) :
    stores (e :: log) = stores log ++ e.store?.toList := by
  rw [← List.singleton_append, stores_append]
  cases stored : e.store? <;> simp [stores, stored]

theorem Event.store?_of_waits {e : Event} (waits : e.waits = true) : e.store? = none := by
  cases e with
  | store => exact absurd waits nofun
  | read | write | key | barrier => rfl

theorem Waiting.stores (h : Waiting log) : stores log = [] := by
  induction log with
  | nil => rfl
  | cons e rest ih =>
    obtain ⟨waits, later⟩ := List.forall_mem_cons.mp h
    rw [stores_cons, ih later, Event.store?_of_waits waits]
    rfl

theorem Programmed.stores {w : Word} (h : Programmed a w older log) :
    stores log = stores older ++ [(a, w)] := by
  obtain ⟨v, u, x, waits, waits'⟩ := h
  simp [stores_cons, stores_append, Event.store?, waits.stores, waits'.stores]

theorem Laid.stores (h : Laid a words stop older log) :
    ∃ laid, stores log = stores older ++ laid ∧ laid.map Prod.snd = words ∧
      Adjoining a.toNat laid stop.toNat := by
  induction h with
  | nil a older => exact ⟨[], (List.append_nil _).symm, rfl, rfl⟩
  | @cons a next stop w rest older log later here moved there ih =>
    obtain ⟨laid, stored, words, adjoining⟩ := ih
    rw [here.stores, List.append_assoc] at stored
    rw [moved] at adjoining
    exact ⟨(a, w) :: laid, stored, congrArg (w :: ·) words, rfl, adjoining⟩

theorem Begins.waited (h : Begins words log) (waits : Waiting later) :
    Begins words (later ++ log) := by
  rwa [Begins, stores_append, waits.stores, List.append_nil]

theorem Begins.cons {e : Event} (h : Begins words log) (none : e.store? = none) :
    Begins words (e :: log) := by
  rwa [Begins, stores_cons, none, Option.toList_none, List.append_nil]

end Stores

section Steps
variable {before : List Event} {words : List Word}

theorem read_notes (r : Register) (before : List Event) :
    Notes before (Machine.perform (.read r)) (fun v log => log = .read r v :: before)
      (· = before) := by
  intro s base same
  by_cases short : streak r s.events < maxStreak
  · have read := (perform_read r s).trans (if_pos short)
    rw [leaves_ok read, read]
    exact ⟨_, (events_answer r s).trans (congrArg _ same), rfl⟩
  · have stuck := (perform_read r s).trans (if_neg short)
    rw [leaves_error stuck, stuck]
    exact ⟨before, same, rfl⟩

/-- Nothing but waits was noted on top. -/
def Waited (before log : List Event) : Prop := ∃ later, Waiting later ∧ log = later ++ before

theorem awaitReady_notes (ready : Contents .sr → Bool) (patience : Nat) {later : List Event}
    (waits : Waiting later) :
    Notes (later ++ before) (awaitReady .sr ready patience) (fun _ => Waited before)
      (Waited before) := by
  induction patience generalizing later with
  | zero => exact fun s base same => ⟨_, same, later, waits, rfl⟩
  | succ n ih =>
    refine ((read_notes .sr _).relax (fun _ _ done => done) fun _ same =>
      ⟨later, waits, same⟩).bind fun v log same => ?_
    subst same
    have polled : Waiting (.read .sr v :: later) := waits.cons rfl
    cases ready v with
    | true => exact notes_pure ⟨_, polled, rfl⟩
    | false => exact ih polled

theorem waitUntilIdle_notes (before : List Event) :
    Notes before Procedure.waitUntilIdle.run (fun _ => Waited before) (Waited before) := by
  have barrier : Notes before Procedure.barrier.run (fun _ log => log = .barrier :: before)
      (Waited before) := fun _ _ same =>
        ⟨.barrier :: before, congrArg (Event.barrier :: ·) same, rfl⟩
  have first : Waiting [.barrier] := Waiting.cons rfl nofun
  have poll : Notes (.barrier :: before) (Procedure.readUntil .sr fun v => !v.has .bsy).run
      (fun _ => Waited before) (Waited before) := by
    intro s base same
    have h := awaitReady_notes (fun v => !v.has .bsy) (Machine.patience s) first s base same
    rwa [leaves, ← Procedure.run_readUntil] at h
  refine barrier.run_bind fun _ log same => ?_
  subst same
  exact poll.run_bind fun _ _ waited => notes_pure waited

theorem update_notes (r : Register) (f : Contents r → Contents r) (before : List Event) :
    Notes before (Procedure.update r f).run
      (fun _ log => ∃ v, log = .write r (f v) :: .read r v :: before) (· = before) := by
  have read : Notes before (Procedure.read r).run (fun v log => log = .read r v :: before)
      (· = before) := by
    rw [Procedure.read, Procedure.run_act]
    exact read_notes r before
  refine read.run_bind fun v log same s base events => ?_
  subst same
  exact ⟨.write r (f v) :: .read r v :: before, congrArg _ events, v, rfl⟩

theorem store_notes (a : Address) (w : Word) (before : List Event) {broken : List Event → Prop} :
    Notes before (Procedure.store a w).run (fun _ log => log = .store a w :: before) broken :=
  fun _ _ same => ⟨.store a w :: before, congrArg _ same, rfl⟩

theorem advance_notes (a : Address) (n : Nat) (before : List Event) :
    Notes before (Procedure.advance a n).run
      (fun b log => log = before ∧ b.toNat = a.toNat + n) (· = before) := by
  intro s base same
  unfold Procedure.advance
  cases moved : a.advance? n with
  | none => exact ⟨before, same, rfl⟩
  | some b => exact ⟨before, same, rfl, Address.ofNat?_eq_some_iff.mp moved⟩

end Steps

section Program
variable {before : List Event} {words : List Word}

theorem wait_begins (h : Begins words before) :
    Notes before Procedure.waitUntilIdle.run (fun _ => Waited before) (Begins words) := by
  refine (waitUntilIdle_notes before).relax (fun _ _ done => done) ?_
  rintro log ⟨later, waits, rfl⟩
  exact h.waited waits

theorem update_begins (h : Begins words before) (f : Contents .cr → Contents .cr) :
    Notes before (Procedure.update .cr f).run
      (fun _ log => ∃ v, log = .write .cr (f v) :: .read .cr v :: before) (Begins words) :=
  (update_notes .cr f before).relax (fun _ _ done => done) fun _ same => same ▸ h

/-- A program operation that halts has stored its word or nothing. -/
theorem program_notes (a : Address) {w : Word} {earlier : List Word} (rest : List Word)
    (before : List Event) (stored : (stores before).map Prod.snd = earlier) :
    Notes before (Procedure.program a w).run (fun _ => Programmed a w before)
      (Begins (earlier ++ w :: rest)) := by
  have begins : Begins (earlier ++ w :: rest) before := stored ▸ List.prefix_append _ _
  refine (wait_begins begins).run_bind fun _ log waited => ?_
  obtain ⟨first, waits, rfl⟩ := waited
  have begins := begins.waited waits
  refine (update_begins begins _).run_bind fun _ log updated => ?_
  obtain ⟨v, rfl⟩ := updated
  have begins := (begins.cons (e := .read .cr v) rfl).cons
    (e := .write .cr (v.setProgramWidth w.width)) rfl
  refine (update_begins begins _).run_bind fun _ log updated => ?_
  obtain ⟨u, rfl⟩ := updated
  refine (store_notes a w _).run_bind fun _ log same => ?_
  subst same
  have begins : Begins (earlier ++ w :: rest) (.store a w :: .write .cr (u.set .pg true) ::
      .read .cr u :: .write .cr (v.setProgramWidth w.width) :: .read .cr v ::
        (first ++ before)) := by
    simp [Begins, stores_cons, stores_append, waits.stores, Event.store?, stored]
  refine (wait_begins begins).run_bind fun _ log waited => ?_
  obtain ⟨last, waits', rfl⟩ := waited
  refine (update_begins (begins.waited waits') _).relax (fun _ log updated => ?_) fun _ h => h
  obtain ⟨x, rfl⟩ := updated
  exact .intro v u x waits waits'

theorem programWords_notes (a : Address) (words : List Word) {earlier : List Word}
    (before : List Event)
    (stored : (stores before).map Prod.snd = earlier) :
    Notes before (Procedure.programWords a words).run
      (fun _ log => ∃ stop, Laid a words stop before log) (Begins (earlier ++ words)) := by
  induction words generalizing a earlier before with
  | nil => exact notes_pure ⟨a, .nil a before⟩
  | cons w rest ih =>
    refine (program_notes a rest before stored).run_bind fun _ log here => ?_
    have stored' : (stores log).map Prod.snd = earlier ++ [w] := by
      rw [here.stores, List.map_append, stored]
      rfl
    have begins : Begins (earlier ++ w :: rest) log := by
      rw [Begins, stored', List.append_cons earlier w rest]
      exact List.prefix_append _ _
    refine ((advance_notes a w.width.bytes log).relax (fun _ _ done => done)
      fun _ same => same ▸ begins).run_bind fun next _ moved => ?_
    obtain ⟨rfl, moved⟩ := moved
    have later := ih next _ stored'
    rw [← List.append_cons] at later
    refine later.relax (fun _ _ done => ?_) fun _ h => h
    obtain ⟨stop, there⟩ := done
    exact ⟨stop, .cons here moved there⟩

/-- However a run ends, the words that it has stored are the first of its words; they are all of
them if it completes. -/
theorem programWords_stores (a : Address) (words : List Word) (s : Recorder) :
    ∃ log, (leaves (Procedure.programWords a words).run s).events = log ++ s.events ∧
      (stores log).map Prod.snd <+: words ∧
      ∀ t, (Procedure.programWords a words).run s = .ok () t →
        (stores log).map Prod.snd = words := by
  obtain ⟨log, events, told⟩ := programWords_notes a words [] rfl s s.events rfl
  refine ⟨log, events, ?_⟩
  cases run : (Procedure.programWords a words).run s with
  | ok _ t =>
    rw [run] at told
    obtain ⟨stop, laid⟩ := told
    obtain ⟨stored, same, all, _⟩ := laid.stores
    obtain rfl : stores log = stored := same
    exact ⟨all ▸ List.prefix_refl _, fun _ _ => all⟩
  | error e t =>
    rw [run] at told
    exact ⟨told, nofun⟩

end Program
end FlashController.Recorder
