import FlashController.Proofs.Simulator.Locking

/-! Locking and unlocking the domains, again and again. One call decides about the lock bit and the
key stage of its domain whatever they were, so of any run of calls the last one on each domain is
all that stays. -/
namespace FlashController

/-- A call that locks a domain or unlocks it. -/
structure Latch where
  domain : Domain
  locks : Bool
  deriving DecidableEq

namespace Latch

def procedure (c : Latch) : Procedure Unit :=
  if c.locks then .lock c.domain else .unlock c.domain

/-- The calls that no later call on the same domain overtakes. -/
def last : List Latch → List Latch
  | [] => []
  | c :: rest => if ∃ later ∈ rest, later.domain = c.domain then last rest else c :: last rest

end Latch

/-- Calls one after the other. -/
def Procedure.latchAll : List Latch → Procedure Unit
  | [] => return
  | c :: rest => do
    c.procedure
    latchAll rest

namespace Simulator
variable {device : Device}

/-- A state after a domain was locked or unlocked: its lock bit and its key stage are settled, and
all else but the account of what happened is as it was. -/
structure Latches (d : Domain) (on : Bool) (s t : Simulator device) : Prop where
  register : t.guarded d = (s.guarded d).set d.lockFlag on
  stage : t.keyStage d = .idle
  apart : ∀ e, e ≠ d → t.guarded e = s.guarded e ∧ t.keyStage e = s.keyStage e
  others : t = { s with
    cr := t.cr, optcr := t.optcr, mainStage := t.mainStage, optionStage := t.optionStage
    violations := t.violations, events := t.events }

abbrev tallied (s : Simulator device) (violations : Nat) : Simulator device := { s with violations }

section
variable {s : Simulator device} {d : Domain}

theorem latched_latched (d : Domain) (a b : Bool) (s : Simulator device) :
    latched d b (latched d a s) = latched d b s := by
  cases d <;> simp only [latched, Contents.set_set]

theorem latched_comm {e : Domain} (other : d ≠ e) (a b : Bool) (s : Simulator device) :
    latched e b (latched d a s) = latched d a (latched e b s) := by
  cases d <;> cases e
  · exact absurd rfl other
  · rfl
  · rfl
  · exact absurd rfl other

def latchedAll (calls : List Latch) (s : Simulator device) : Simulator device :=
  calls.foldl (fun s c => latched c.domain c.locks s) s

/-- What a domain was set to before some calls is lost if one of them is on it. -/
theorem latchedAll_overtaken {calls : List Latch} (named : ∃ c ∈ calls, c.domain = d) (on : Bool)
    (s : Simulator device) : latchedAll calls (latched d on s) = latchedAll calls s := by
  induction calls generalizing s with
  | nil =>
    obtain ⟨c, member, _⟩ := named
    exact absurd member List.not_mem_nil
  | cons c rest ih =>
    show latchedAll rest (latched c.domain c.locks (latched d on s)) =
      latchedAll rest (latched c.domain c.locks s)
    by_cases here : c.domain = d
    -- The call settles the domain anew; one on the other domain changes places with what was set.
    · subst here
      rw [latched_latched]
    · obtain ⟨later, member, same⟩ := named
      have behind : later ∈ rest := (List.mem_cons.mp member).resolve_left fun first =>
        here (first ▸ same)
      rw [latched_comm (Ne.symm here)]
      exact ih ⟨later, behind, same⟩ _

theorem latchedAll_last (calls : List Latch) (s : Simulator device) :
    latchedAll (Latch.last calls) s = latchedAll calls s := by
  induction calls generalizing s with
  | nil => rfl
  | cons c rest ih =>
    rw [Latch.last]
    split
    · rename_i overtaken
      rw [ih]
      exact (latchedAll_overtaken overtaken c.locks s).symm
    · exact ih _

theorem latched_tallied (d : Domain) (on : Bool) (n : Nat) (s : Simulator device) :
    latched d on (s.tallied n) = (latched d on s).tallied n := by
  cases d <;> rfl

/-- The number of violations has no part in it. -/
theorem latchedAll_tallied (calls : List Latch) (n : Nat) (s : Simulator device) :
    latchedAll calls (s.tallied n) = (latchedAll calls s).tallied n := by
  induction calls generalizing s with
  | nil => rfl
  | cons c rest ih =>
    show latchedAll rest (latched c.domain c.locks (s.tallied n)) = _
    rw [latched_tallied, ih]
    rfl

theorem latched_charged (d : Domain) (on : Bool) (s : Simulator device) :
    latched d on (charged d s) = (latched d on s).tallied (charged d s).violations := by
  rw [← latched_tallied]
  unfold charged
  split <;> rfl

theorem latches_charged (d : Domain) (on : Bool) (s : Simulator device) (events : List Event) :
    Latches d on s ((latched d on (charged d s)).logged events) := by
  rw [latched_charged]
  cases d with
  | main =>
    refine ⟨rfl, rfl, fun e other => ?_, rfl⟩
    cases e with
    | main => exact absurd rfl other
    | optionBytes => exact ⟨rfl, rfl⟩
  | optionBytes =>
    refine ⟨rfl, rfl, fun e other => ?_, rfl⟩
    cases e with
    | main => exact ⟨rfl, rfl⟩
    | optionBytes => exact absurd rfl other

section Calls
variable {c : Latch} {calls : List Latch}

theorem latch_completes (h : Quiet s) (c : Latch)
    (room : Offends c.domain s → s.violations + 1 < UInt32.size) :
    Completes c.procedure s ()
      ((latched c.domain c.locks s).tallied (charged c.domain s).violations) := by
  rw [← latched_charged, Latch.procedure]
  cases c.locks with
  | true => exact lock_completes h c.domain room
  | false => exact unlock_completes h c.domain room

theorem latch_overflows (offends : Offends c.domain s) (full : ¬ s.violations + 1 < UInt32.size) :
    Halts c.procedure s .additionOverflow s := by
  obtain ⟨option, locks⟩ := c
  obtain rfl : option = .optionBytes := offends.1
  have lost := lockOptions_halts offends full
  cases locks with
  | true => exact lost
  | false => exact lost.bind

theorem latchAll_outcome (h : Quiet s) (calls : List Latch) :
    (∃ n, Completes (.latchAll calls) s () ((latchedAll calls s).tallied n)) ∨
      ∃ t, Halts (.latchAll calls) s .additionOverflow t := by
  induction calls generalizing s with
  | nil => exact .inl ⟨s.violations, completes_pure () s⟩
  | cons c rest ih =>
    by_cases room : Offends c.domain s → s.violations + 1 < UInt32.size
    · have first := latch_completes h c room
      rcases ih (h.run first) with ⟨n, later⟩ | ⟨t, later⟩
      · rw [latchedAll_tallied] at later
        exact .inl ⟨n, first.bind later⟩
      · exact .inr ⟨t, first.halts later⟩
    · obtain ⟨offends, full⟩ := Classical.not_imp.mp room
      exact .inr ⟨s, (latch_overflows offends full).bind⟩

/-- No call on the main domain makes room for a violation. -/
theorem latchAll_halts (h : Quiet s) (named : ∃ c ∈ calls, c.domain = .optionBytes)
    (offends : Offends .optionBytes s) (full : ¬ s.violations + 1 < UInt32.size) :
    ∃ t, Halts (.latchAll calls) s .additionOverflow t := by
  induction calls generalizing s with
  | nil =>
    obtain ⟨c, member, _⟩ := named
    exact absurd member List.not_mem_nil
  | cons c rest ih =>
    obtain ⟨d, locks⟩ := c
    cases d with
    | optionBytes => exact ⟨s, (latch_overflows (c := ⟨.optionBytes, locks⟩) offends full).bind⟩
    | main =>
      have first := latch_completes h ⟨.main, locks⟩ fun offends => nomatch offends.1
      rw [charged_main] at first
      obtain ⟨later, member, same⟩ := named
      have behind : later ∈ rest := by
        refine (List.mem_cons.mp member).resolve_left ?_
        rintro rfl
        cases same
      obtain ⟨t, lost⟩ := ih (h.run first) ⟨later, behind, same⟩ offends full
      exact ⟨t, first.halts lost⟩

/-- Of the last calls one at most is a violation. -/
theorem latchAll_last (h : Quiet s) (calls : List Latch)
    (room : (∃ c ∈ calls, c.domain = .optionBytes) → Offends .optionBytes s →
      s.violations + 1 < UInt32.size) :
    ∃ n, Completes (.latchAll (Latch.last calls)) s ()
      ((latchedAll (Latch.last calls) s).tallied n) := by
  induction calls generalizing s with
  | nil => exact ⟨s.violations, completes_pure () s⟩
  | cons c rest ih =>
    rw [Latch.last]
    split
    · exact ih h fun ⟨later, member, same⟩ => room ⟨later, List.mem_cons_of_mem c member, same⟩
    · rename_i alone
      have first := latch_completes h c fun offends =>
        room ⟨c, List.mem_cons_self, offends.1⟩ (offends.1 ▸ offends)
      obtain ⟨n, later⟩ := ih (h.run first) fun ⟨later, member, same⟩ offends => by
        obtain ⟨d, locks⟩ := c
        cases d with
        | optionBytes => exact absurd ⟨later, member, same⟩ alone
        | main =>
          -- Later calls find as much room as this one did: it took none.
          rw [charged_main]
          exact room ⟨later, List.mem_cons_of_mem _ member, same⟩ offends
      rw [latchedAll_tallied] at later
      exact ⟨n, first.bind later⟩

theorem run_isLocked (d : Domain) (s : Simulator device) :
    (Procedure.isLocked d).run s = .ok (s.isLocked d) s := by
  cases d <;> rfl

theorem run_ensureUnlocked (d : Domain) (s : Simulator device) :
    (Procedure.ensureUnlocked d).run s = .ok (if s.isLocked d then .error .locked else .ok ()) s :=
  Procedure.run_bind_ok (run_isLocked d s)

theorem Latches.isLocked {on : Bool} {t : Simulator device} (h : Latches d on s t) :
    t.isLocked d = on := by
  rw [Simulator.isLocked, h.register, Contents.has_set_self]

end Calls

/-- From every state an unlock unlocks and a lock locks, and no more; so a run of such calls comes
down to the last of them on each domain. -/
theorem latches_collapse (h : Reachable s) :
    (∀ d, (Offends d s → s.violations + 1 < UInt32.size) →
      (∃ t, (Procedure.unlock d).run s = .ok () t ∧
        (Procedure.ensureUnlocked d).run t = .ok (.ok ()) t ∧ Latches d false s t) ∧
      ∃ t, (Procedure.lock d).run s = .ok () t ∧ (Procedure.isLocked d).run t = .ok true t ∧
        Latches d true s t) ∧
    ∀ calls, (∀ t, (Procedure.latchAll calls).run s ≠ .error .additionOverflow t) →
      ∃ t u, (Procedure.latchAll calls).run s = .ok () t ∧
        (Procedure.latchAll (Latch.last calls)).run s = .ok () u ∧
        t = { u with violations := t.violations, events := t.events } := by
  have quiet := h.quiet
  refine ⟨fun d room => ⟨?_, ?_⟩, fun calls survives => ?_⟩
  · obtain ⟨events, run⟩ := unlock_completes quiet d room s.events
    have latches := latches_charged d false s events
    refine ⟨_, run, ?_, latches⟩
    rw [run_ensureUnlocked, latches.isLocked, if_neg Bool.false_ne_true]
  · obtain ⟨events, run⟩ := lock_completes quiet d room s.events
    have latches := latches_charged d true s events
    refine ⟨_, run, ?_, latches⟩
    rw [run_isLocked, latches.isLocked]
  · have alive : ¬ ∃ t, Halts (.latchAll calls) s .additionOverflow t := by
      rintro ⟨t, halts⟩
      obtain ⟨events, lost⟩ := halts s.events
      exact survives _ lost
    obtain ⟨n, whole⟩ := (latchAll_outcome quiet calls).resolve_right alive
    -- Without room for the last calls the whole run would have been lost too.
    obtain ⟨m, lasts⟩ := latchAll_last quiet calls fun named offends =>
      Classical.byContradiction fun full => alive (latchAll_halts quiet named offends full)
    rw [latchedAll_last] at lasts
    obtain ⟨later, whole⟩ := whole s.events
    obtain ⟨later', lasts⟩ := lasts s.events
    exact ⟨_, _, whole, lasts, rfl⟩

/-- The option bytes are unlocked while the device is busy, so that locking them is a violation, and
the first key of the main domain was written. -/
theorem latches_collapse_busy :
    let s : Simulator .generic := afterAll [
      .access (.key .optionBytes (Domain.firstKey .optionBytes)),
      .access (.key .optionBytes (Domain.secondKey .optionBytes)),
      .access (.key .main (Domain.firstKey .main)),
      .control (.setBusy 3)] (new .generic)
    let calls : List Latch := [
      ⟨.main, false⟩, ⟨.optionBytes, true⟩, ⟨.main, true⟩, ⟨.optionBytes, false⟩, ⟨.main, false⟩]
    (Offends .optionBytes s ∧ s.keyStage .main ≠ .idle ∧ s.violations + 1 < UInt32.size) ∧
      (∃ t, (Procedure.unlock .optionBytes).run s = .ok () t ∧ Latches .optionBytes false s t) ∧
      ∃ t u, (Procedure.latchAll calls).run s = .ok () t ∧
        (Procedure.latchAll [⟨.optionBytes, false⟩, ⟨.main, false⟩]).run s = .ok () u ∧
        t = { u with violations := t.violations, events := t.events } := by
  intro s calls
  have reachable : Reachable s := (Reachable.start _).calls _
  have room : s.violations + 1 < UInt32.size := by decide
  obtain ⟨settles, collapse⟩ := latches_collapse reachable
  obtain ⟨⟨t, run, _, latches⟩, _⟩ := settles .optionBytes fun _ => room
  have completes : ((Procedure.latchAll calls).run s) matches .ok .. := by decide
  have survives : ∀ t, (Procedure.latchAll calls).run s ≠ .error .additionOverflow t := by
    intro t lost
    rw [lost] at completes
    cases completes
  exact ⟨⟨by decide, by decide, room⟩, ⟨t, run, latches⟩, collapse calls survives⟩

end
end Simulator
end FlashController
