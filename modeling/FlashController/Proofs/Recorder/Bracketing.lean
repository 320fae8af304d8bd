import FlashController.Machine.Recorder
import FlashController.Operation

/-! Idle waits around everything that an operation does, whatever the registers answer. Logs are
newest first, as the recorder keeps them. -/
namespace FlashController.Recorder

/-- The accesses that a wait consists of. -/
def Event.waits : Event → Bool
  | .barrier | .read .sr _ => true
  | _ => false

def Event.writesControl : Event → Bool
  | .write .cr _ => true
  | _ => false

def Event.writesOptions (v : Contents .optcr) : Event → Bool
  | .write .optcr u => u == v
  | _ => false

/-- `starts older e` says that an event started something in the controller, given the events
before it. -/
abbrev Starts := List Event → Event → Bool

/-- The start bit was set in what was just read of the register. -/
def startSeen : Register → List Event → Bool
  | .cr, .read .cr v :: _ => v.has .strt
  | .optcr, .read .optcr v :: _ => v.has .optstrt
  | _, _ => false

/-- The event is a write with a start bit that was not set in what was just read of the register. -/
def raises (older : List Event) : Event → Bool
  | .write .cr v => v.has .strt && !startSeen .cr older
  | .write .optcr v => v.has .optstrt && !startSeen .optcr older
  | _ => false

/-- The events with which an operation means to start something: stores, the third write of an
erase to the control register, which follows the width and the selection, and a write to the option
control register behind the one of the option bytes. -/
def triggers : Operation → Starts
  | _, _, .store _ _ => true
  | .eraseAll _, older, .write .cr _ | .eraseSector _ _, older, .write .cr _ =>
    older.countP (·.writesControl) == 2
  | .programOptionBytes v, older, .write .optcr _ => older.any (·.writesOptions v.optionBytes)
  | _, _, _ => false

/-- The events that start something: those that are meant to, and whatever else raises a start bit.
The former need not raise one, since a register can be read as started already. -/
def startsOf (op : Operation) (older : List Event) (e : Event) : Bool :=
  triggers op older e || raises older e

theorem raises_control {older : List Event} {v u : Contents .cr}
    (same : u.has .strt = v.has .strt) : raises (.read .cr v :: older) (.write .cr u) = false := by
  show (u.has .strt && !v.has .strt) = false
  rw [same, Bool.and_not_self]

theorem raises_options {older : List Event} {v u : Contents .optcr}
    (same : u.has .optstrt = v.has .optstrt) :
    raises (.read .optcr v :: older) (.write .optcr u) = false := by
  show (u.has .optstrt && !v.has .optstrt) = false
  rw [same, Bool.and_not_self]

/-- The operations that start something in the controller. -/
def starting : Operation → Bool
  | .eraseAll _ | .eraseSector _ _ | .program _ _ | .programBlock _ _ | .programBlockWide _ _ _
  | .programOptionBytes _ => true
  | _ => false

/-- What an event that starts something looks like: a store, or what was just read with the start
bit set. -/
def startsFresh : List Event → Event → Bool
  | _, .store _ _ => true
  | .read .cr v :: _, .write .cr u => u == v.set .strt true
  | .read .optcr v :: _, .write .optcr u => u == v.set .optstrt true
  | _, _ => false

structure Bracketed (starts : Starts) (log : List Event) : Prop where
  /-- The status is read directly after a barrier or after it was read busy. -/
  polled : ∀ later v older, log = later ++ .read .sr v :: older →
    ∃ oldest, older = .barrier :: oldest ∨ ∃ u, u.has .bsy = true ∧ older = .read .sr u :: oldest
  /-- Nothing but waits comes before an idle status. -/
  opened : ∀ later e older, log = later ++ e :: older → e.waits = false →
    ∃ v, .read .sr v ∈ older ∧ v.has .bsy = false
  /-- What starts something is a store, or what was just read with the start bit set. -/
  fresh : ∀ later e older, log = later ++ e :: older → starts older e = true →
    startsFresh older e = true
  /-- Between a start and whatever is no wait, a barrier is followed by an idle status. -/
  reopened : ∀ later f between e older, log = later ++ f :: (between ++ e :: older) →
    starts older e = true → f.waits = false →
    ∃ newer v middle first, between = newer ++ .read .sr v :: (middle ++ .barrier :: first) ∧
      v.has .bsy = false

inductive Phase
  /-- A barrier has to come next. -/
  | closed
  /-- Directly after a barrier or a busy status. -/
  | polling
  | opened

/-- How far a log is in which every event came when it was allowed. -/
inductive Paced (starts : Starts) : Phase → List Event → Prop
  | nil : Paced starts .closed []
  | barrier {log} : Paced starts phase log → Paced starts .polling (.barrier :: log)
  | busy {log} {v : Contents .sr} : Paced starts .polling log → v.has .bsy = true →
      Paced starts .polling (.read .sr v :: log)
  | idle {log} {v : Contents .sr} : Paced starts .polling log → v.has .bsy = false →
      Paced starts .opened (.read .sr v :: log)
  | other {log e} : Paced starts .opened log → e.waits = false → starts log e = false →
      Paced starts .opened (e :: log)
  | trigger {log e} : Paced starts .opened log → e.waits = false → starts log e = true →
      startsFresh log e = true → Paced starts .closed (e :: log)

namespace Paced
variable {starts : Starts} {phase : Phase} {log older later between : List Event} {e : Event}

theorem tail (h : Paced starts phase (later ++ older)) : ∃ earlier, Paced starts earlier older := by
  induction later generalizing phase with
  | nil => exact ⟨phase, h⟩
  | cons e rest ih => cases h with
    | barrier h | busy h _ | idle h _ | other h _ _ | trigger h _ _ _ => exact ih h

theorem newest_of_polling (h : Paced starts .polling log) :
    ∃ oldest, log = .barrier :: oldest ∨ ∃ u, u.has .bsy = true ∧ log = .read .sr u :: oldest := by
  cases h with
  | barrier _ => exact ⟨_, .inl rfl⟩
  | busy _ busy => exact ⟨_, .inr ⟨_, busy, rfl⟩⟩

theorem idle_of_opened (h : Paced starts .opened log) :
    ∃ v, Event.read .sr v ∈ log ∧ v.has .bsy = false := by
  generalize same : Phase.opened = phase at h
  induction h with
  | nil | barrier | busy | trigger => exact absurd same nofun
  | idle _ idle _ => exact ⟨_, List.mem_cons_self, idle⟩
  | other _ _ _ ih =>
    obtain ⟨v, member, idle⟩ := ih same
    exact ⟨v, List.mem_cons_of_mem _ member, idle⟩

theorem opened_of_cons (h : Paced starts phase (e :: log)) (waits : e.waits = false) :
    Paced starts .opened log := by
  cases h with
  | barrier | busy | idle => exact absurd waits nofun
  | other h | trigger h => exact h

/-- What a log must have gone through since an event after which it was closed. -/
def Since (between : List Event) : Phase → Prop
  | .closed => True
  | .polling => ∃ middle first, between = middle ++ .barrier :: first
  | .opened => ∃ newer v middle first,
      between = newer ++ .read .sr v :: (middle ++ .barrier :: first) ∧ v.has .bsy = false

theorem since_closed (closed : ∀ phase, Paced starts phase log → phase = .closed)
    (h : Paced starts phase (between ++ log)) : Since between phase := by
  induction between generalizing phase with
  | nil =>
    obtain rfl := closed phase h
    trivial
  | cons e rest ih => cases h with
    | barrier _ => exact ⟨[], rest, rfl⟩
    | busy h _ =>
      obtain ⟨middle, first, rfl⟩ := ih h
      exact ⟨_ :: middle, first, rfl⟩
    | idle h idle =>
      obtain ⟨middle, first, rfl⟩ := ih h
      exact ⟨[], _, middle, first, rfl, idle⟩
    | other h _ _ =>
      obtain ⟨newer, v, middle, first, rfl, idle⟩ := ih h
      exact ⟨_ :: newer, v, middle, first, rfl, idle⟩
    | trigger => trivial

theorem bracketed (proper : ∀ older e, starts older e = true → e.waits = false)
    (h : Paced starts phase log) : Bracketed starts log where
  polled := by
    rintro later v older rfl
    obtain ⟨earlier, h⟩ := h.tail
    cases h with
    | busy h _ | idle h _ => exact h.newest_of_polling
    | other _ waits _ | trigger _ waits _ _ => exact absurd waits nofun
  opened := by
    rintro later e older rfl waits
    obtain ⟨earlier, h⟩ := h.tail
    exact (h.opened_of_cons waits).idle_of_opened
  fresh := by
    rintro later e older rfl started
    obtain ⟨earlier, h⟩ := h.tail
    cases h with
    | barrier | busy | idle => exact absurd (proper _ _ started) nofun
    | other _ _ unstarted => exact absurd (started.symm.trans unstarted) nofun
    | trigger _ _ _ fresh => exact fresh
  reopened := by
    rintro later f between e older rfl started waits
    obtain ⟨earlier, h⟩ := h.tail
    refine since_closed (fun phase h => ?_) (h.opened_of_cons waits)
    cases h with
    | barrier | busy | idle => exact absurd (proper _ _ started) nofun
    | other _ _ unstarted => exact absurd (started.symm.trans unstarted) nofun
    | trigger => rfl

end Paced

/-- While no status is idle, there is nothing but waits. -/
theorem Bracketed.silent {starts : Starts} {log : List Event} (h : Bracketed starts log)
    (busy : ∀ v, .read .sr v ∈ log → v.has .bsy = true) : ∀ e ∈ log, e.waits = true := by
  intro e member
  obtain ⟨later, older, rfl⟩ := List.append_of_mem member
  apply Bool.of_not_eq_false
  intro waits
  obtain ⟨v, seen, idle⟩ := h.opened later e older rfl waits
  have seen : Event.read .sr v ∈ later ++ e :: older :=
    List.mem_append_right _ (List.mem_cons_of_mem _ seen)
  exact absurd (idle.symm.trans (busy v seen)) nofun

/-- While no status is idle after a start, nothing but waits comes after it. -/
theorem Bracketed.held {starts : Starts} {later older : List Event} {e : Event}
    (h : Bracketed starts (later ++ e :: older)) (started : starts older e = true)
    (busy : ∀ v, .read .sr v ∈ later → v.has .bsy = true) : ∀ f ∈ later, f.waits = true := by
  intro f member
  obtain ⟨newer, between, rfl⟩ := List.append_of_mem member
  apply Bool.of_not_eq_false
  intro waits
  obtain ⟨newest, v, middle, first, rfl, idle⟩ :=
    h.reopened newer f between e older (List.append_assoc _ _ _) started waits
  have seen : Event.read .sr v ∈
      newer ++ f :: (newest ++ .read .sr v :: (middle ++ .barrier :: first)) := by simp
  exact absurd (idle.symm.trans (busy v seen)) nofun

end FlashController.Recorder
