import FlashController.Proofs.Simulator.Diagnosis
import FlashController.Proofs.Simulator.Noting
import FlashController.Proofs.Trail

/-! Status flags over whole sessions. The controller only ever raises flags; what lowers them is a
reset, or ones written to the status register, which the driver writes nowhere but in the operations
that clear them. -/
namespace FlashController

namespace Contents

/-- No flag is set under a mask of flags just when each of them is clear. -/
theorem masked_eq_zero_iff {v : Contents r} {flags : List (Flag r)} :
    v.raw &&& maskOf flags = 0 ↔ ∀ f ∈ flags, v.has f = false := by
  constructor
  · intro none f member
    have bit : (v.raw &&& maskOf flags).getLsbD f.bit = false := none ▸ BitVec.getLsbD_zero
    have inside : (maskOf flags).getLsbD f.bit = true := by
      rw [getLsbD_maskOf, List.any_eq_true]
      exact ⟨f, member, decide_eq_true rfl⟩
    rw [BitVec.getLsbD_and, inside, Bool.and_true] at bit
    exact bit
  · intro clear
    apply BitVec.eq_of_getLsbD_eq
    intro i _
    rw [BitVec.getLsbD_and, getLsbD_maskOf]
    refine Eq.trans ?_ BitVec.getLsbD_zero.symm
    cases inside : flags.any fun f => decide (f.bit = i) with
    | false => exact Bool.and_false _
    | true =>
      obtain ⟨f, member, here⟩ := List.any_eq_true.mp inside
      obtain rfl := of_decide_eq_true here
      exact (Bool.and_true _).trans (clear f member)

/-- There is an error to tell just when an error flag is set. -/
theorem error?_isSome (v : Contents .sr) : v.error?.isSome = v.hasError := by
  have silent : v.error? = none ↔ v.hasError = false := by
    rw [error?_eq_none_iff, hasError, bne_eq_false_iff_eq]
    refine Iff.trans ?_ masked_eq_zero_iff.symm
    simp
  cases loud : v.hasError with
  | false => rw [silent.mpr loud]; rfl
  | true =>
    cases told : v.error? with
    | none => exact absurd (loud.symm.trans (silent.mp told)) nofun
    | some e => rfl

/-- The contents with some flags lowered. -/
def lower (flags : List (Flag r)) (v : Contents r) : Contents r :=
  flags.foldl (fun v f => v.set f false) v

theorem getLsbD_lower (flags : List (Flag r)) (v : Contents r) (i : Nat) :
    (v.lower flags).raw.getLsbD i =
      if ∃ f ∈ flags, f.bit = i then false else v.raw.getLsbD i := by
  induction flags generalizing v with
  | nil => simp [lower]
  | cons f rest ih =>
    refine (ih (v.set f false)).trans ?_
    rw [getLsbD_set]
    by_cases here : f.bit = i
    · simp [here]
    · simp [here]

theorem has_lower {flags : List (Flag r)} {f : Flag r} (other : f ∉ flags) {v : Contents r} :
    (v.lower flags).has f = v.has f := by
  refine (getLsbD_lower flags v f.bit).trans (if_neg ?_)
  rintro ⟨g, member, here⟩
  exact other (Flag.bit_injective here ▸ member)

end Contents

namespace Simulator
variable {device : Device} {s t : Simulator device} {f : Flag .sr}

/-- What a read of the status register shows. -/
def shown (s : Simulator device) : Contents .sr := (pollStatus s).1

theorem shown_eq (s : Simulator device) :
    s.shown = if s.busy = 0 then s.flags else s.flags.set .bsy true := by
  unfold shown pollStatus
  split <;> rfl

theorem shown_has (other : f ≠ .bsy) (s : Simulator device) : s.shown.has f = s.flags.has f := by
  rw [shown_eq]
  split
  · rfl
  · exact Contents.has_set_of_ne other.symm

section Raised
variable (raised : s.flags.has f = true)
include raised

theorem raised_accepted (v : Contents .cr) : (acceptControl v s).flags.has f = true := by
  simp only [acceptControl]
  split
  · rw [triggerErase_eq, erased_eq]
    show (verdict v s).has f = true
    unfold verdict
    split
    · exact Contents.has_set_true .erserr raised
    · split
      · exact Contents.has_set_true .wrperr raised
      · split
        · exact raised
        · exact Contents.has_set_true .eop raised
  · exact raised

theorem raised_burned (offset : Nat) (w : Word) : (burn offset w s).flags.has f = true := by
  simp only [burn]
  split
  · exact Contents.has_set_true .eop (Contents.has_set_true .pgperr raised)
  · exact Contents.has_set_true .eop raised

theorem raised_stored (a : Address) (w : Word) :
    (leaves (storeWord a w) s).flags.has f = true := by
  obtain ⟨t, ⟨_, rfl⟩, same | ⟨_, _, ⟨g, _, refused⟩ | ⟨_, burnt⟩⟩⟩ := storeWord_leaves a w s
  · rw [same]
    exact raised
  · rw [refused]
    exact Contents.has_set_true g raised
  · rw [burnt]
    exact raised_burned (by exact raised) _ w

/-- No access lowers a flag but ones written to the status register. -/
theorem raised_performed {a : Access} (unwritten : ∀ v, a ≠ .write .sr v) :
    (leaves (Machine.perform a) s).flags.has f = true := by
  cases a with
  | read r =>
    obtain ⟨busy, events, frame, _⟩ := read_frame r s
    exact frame ▸ raised
  | write r v =>
    cases r with
    | sr => exact absurd rfl (unwritten v)
    | acr => exact raised
    | cr =>
      obtain ⟨_, _, same⟩ | ⟨_, violations, events, accepted⟩ := writeControl_leaves v s
      · have same : leaves (Machine.perform (.write .cr v)) s = _ := same
        rw [same]
        exact raised
      · have accepted : leaves (Machine.perform (.write .cr v)) s = _ := accepted
        rw [accepted]
        exact raised_accepted (s := { s with violations, events }) raised v
    | optcr =>
      obtain ⟨t, lost, events, rfl⟩ | ⟨_, _, _, _, written, _⟩ := writeOptions_frame v s
      · have lost : Machine.perform (.write .optcr v) s = _ := lost
        rw [leaves_error lost]
        exact raised
      · have written : Machine.perform (.write .optcr v) s = _ := written
        rw [leaves_ok written]
        exact raised
  | key d k => cases d <;> exact raised
  | barrier => exact raised
  | store a w => exact raised_stored raised a w

end Raised

section Steps
variable {x : Step Control}

/-- The driver takes the step, and not to clear flags. -/
def Unwritten : Step Control → Prop
  | .operate (.clear _) | .operate .clearStatus | .access _ | .control _ => False
  | .operate _ | .openGuard | .closeGuard => True

theorem unwritten_iff {op : Operation} : Unwritten (.operate op) ↔ op.writes? ≠ some .sr := by
  cases op with
  | clear | clearStatus => simp [Unwritten, Operation.writes?]
  | lock d | unlock d => cases d <;> simp [Unwritten, Operation.writes?, Domain.register]
  | _ => simp [Unwritten, Operation.writes?]

/-- What all accesses but writes to the status register keep is kept by such a step, also by one
that halts. -/
theorem Unwritten.keeps {P : Simulator device → Prop}
    (performs : ∀ a s, (∀ v, a ≠ .write .sr v) → P s → P (leaves (Machine.perform a) s))
    (h : Unwritten x) (hs : P s) : P (leaves (x.act device) s) := by
  have made (op : Operation) (other : op.writes? ≠ some .sr) {α : Type} {p : Procedure α}
      (makes : p.Makes op.makes) : P (leaves p.run s) := by
    refine makes.run_keeps (fun a t kind => performs a t ?_)
      (fun r _ t _ => performs (.read r) t nofun) hs
    rintro v rfl
    exact other kind
  cases x with
  | operate op => exact made op (unwritten_iff.mp h) (op.procedure_makes device)
  | openGuard =>
    simp only [Step.act]
    rw [leaves_bind_pure]
    exact made (.unlock .main) (by decide)
      ((Operation.unlock_composed rfl rfl).makes fun _ _ => Operation.Piece.makes)
  | closeGuard =>
    simp only [Step.act]
    rw [leaves_bind_pure]
    exact made (.lock .main) (by decide)
      ((Operation.lock_composed rfl).makes fun _ _ => Operation.Piece.makes)
  | access | control => exact absurd h id

/-- The driver writes the status register only to clear flags. -/
theorem Unwritten.noted (h : Unwritten x) (s : Simulator device) :
    ∃ noted, (leaves (x.act device) s).events = noted ++ s.events ∧
      ∀ v, .write .sr v ∉ noted := by
  refine h.keeps (P := fun t => ∃ noted, t.events = noted ++ s.events ∧ ∀ v, .write .sr v ∉ noted)
    ?_ ⟨[], rfl, fun _ => List.not_mem_nil⟩
  rintro a t other ⟨older, same, none⟩
  refine ⟨Simulator.noted t a ++ older, ?_, fun v member => ?_⟩
  · rw [performed_noted, same, List.append_assoc]
  · rcases List.mem_append.mp member with new | old
    · cases a with
      | read r => cases r <;> simp [Simulator.noted] at new
      | write r u => cases r <;> simp_all [Simulator.noted]
      | key | barrier | store => simp [Simulator.noted] at new
    · exact none v old

/-- Nothing is changed but some flags, which are lowered. -/
structure Lowers (flags : List (Flag .sr)) (s t : Simulator device) : Prop where
  lowered : ∀ f ∈ flags, t.shown.has f = false
  kept : ∀ i, (∀ f ∈ flags, f.bit ≠ i) → t.shown.raw.getLsbD i = s.shown.raw.getLsbD i
  others : ∃ flags events, t = { s with flags, events }

theorem lowers_logged {flags : List (Flag .sr)} (sticky : .bsy ∉ flags) (s : Simulator device)
    (events : List Event) :
    Lowers flags s { s with flags := s.flags.lower flags, events } := by
  have bits : ∀ i, (s.flags.lower flags).raw.getLsbD i = _ := s.flags.getLsbD_lower flags
  constructor
  · intro f member
    have other : f ≠ .bsy := fun same => sticky (same ▸ member)
    rw [shown_has other]
    exact (bits f.bit).trans (if_pos ⟨f, member, rfl⟩)
  · intro i apart
    have none : ¬ ∃ f ∈ flags, f.bit = i := fun ⟨f, member, here⟩ => apart f member here
    have same := (bits i).trans (if_neg none)
    rw [shown_eq, shown_eq]
    show (if s.busy = 0 then s.flags.lower flags else
      (s.flags.lower flags).set .bsy true).raw.getLsbD i = _
    split
    · exact same
    · rw [Contents.getLsbD_set, Contents.getLsbD_set, same]
  · exact ⟨_, events, rfl⟩

theorem clear_lowers (c : Clearable) (s : Simulator device) :
    ∃ t, ((Operation.clear c).procedure device).run s = .ok .done t ∧ Lowers [c.flag] s t := by
  obtain ⟨later, run⟩ := (clear_completes c s).silent s.events
  have sticky : .bsy ∉ [c.flag] := by cases c <;> decide
  exact ⟨_, run, lowers_logged sticky s later⟩

theorem clearStatus_lowers (s : Simulator device) :
    ∃ t, (Operation.clearStatus.procedure device).run s = .ok .done t ∧
      Lowers [.erserr, .pgaerr, .wrperr, .pgperr, .eop] s t := by
  obtain ⟨later, run⟩ := (clearStatus_completes s).silent s.events
  exact ⟨_, run, lowers_logged (by decide) s later⟩

end Steps

section Sessions
variable {x : Step Control}

/-- The step lowers the flag. -/
def Clears (f : Flag .sr) : Step Control → Prop
  | .operate (.clear c) => c.flag = f
  | .operate .clearStatus => ∃ c : Clearable, c.flag = f
  | .access (.write .sr v) => v.has f = true
  | .control .reset => True
  | _ => False

theorem raised_cleared (raised : s.flags.has f = true) (kept : ∀ c : Clearable, c.flag ≠ f) :
    (cleared s).flags.has f = true := by
  have other : f ∉ [Flag.erserr, .pgaerr, .wrperr, .pgperr, .eop] := by
    intro member
    simp only [List.mem_cons, List.not_mem_nil, or_false] at member
    rcases member with rfl | rfl | rfl | rfl | rfl
    · exact kept .erserr rfl
    · exact kept .pgaerr rfl
    · exact kept .wrperr rfl
    · exact kept .pgperr rfl
    · exact kept .eop rfl
  exact (Contents.has_lower other).trans raised

theorem raised_access (raised : s.flags.has f = true) {a : Access}
    (kept : ¬ Clears f (.access a)) : (leaves a.run s).flags.has f = true := by
  rw [leaves_run]
  by_cases written : ∃ v, a = .write .sr v
  · obtain ⟨v, rfl⟩ := written
    have clear : v.raw.getLsbD f.bit = false := Bool.not_eq_true _ ▸ kept
    have raised : s.flags.raw.getLsbD f.bit = true := raised
    show (s.flags.raw &&& ~~~(v.raw &&& stickyMask)).getLsbD f.bit = true
    rw [BitVec.getLsbD_and, BitVec.getLsbD_not, BitVec.getLsbD_and, clear, raised]
    simp only [f.bit_lt, decide_true, Bool.false_and, Bool.not_false, Bool.and_true]
  · exact raised_performed raised fun v same => written ⟨v, same⟩

theorem raised_control (raised : s.flags.has f = true) {c : Control}
    (kept : ¬ Clears f (.control c)) : (leaves (control c) s).flags.has f = true := by
  obtain rfl | ⟨memory, flags, busy, latency, frame, _, _, rfl | ⟨v, rfl⟩⟩ := control_frame c s
  · exact absurd trivial kept
  · rw [frame]
    exact raised
  · rw [frame]
    show (s.flags.raw ||| v.raw &&& stickyMask).getLsbD f.bit = true
    rw [BitVec.getLsbD_or]
    exact Bool.or_eq_true_iff.mpr (.inl raised)

/-- A step keeps every flag raised that it does not clear, whether it completes or halts. -/
theorem raised_step (raised : s.flags.has f = true) (kept : ¬ Clears f x) :
    (leaves (x.act device) s).flags.has f = true := by
  have driven (unwritten : Unwritten x) : (leaves (x.act device) s).flags.has f = true :=
    unwritten.keeps (P := fun t => t.flags.has f = true)
      (fun a t other raised => raised_performed raised other) raised
  cases x with
  | operate op =>
    cases op with
    | clear c =>
      obtain ⟨later, run⟩ := (clear_completes c s).silent s.events
      have run : (Step.operate (.clear c) : Step Control).act device s = _ := run
      rw [leaves_ok run]
      exact (Contents.has_set_of_ne kept).trans raised
    | clearStatus =>
      obtain ⟨later, run⟩ := (clearStatus_completes s).silent s.events
      have run : (Step.operate .clearStatus : Step Control).act device s = _ := run
      rw [leaves_ok run]
      exact raised_cleared raised fun c same => kept ⟨c, same⟩
    | _ => exact driven trivial
  | openGuard | closeGuard => exact driven trivial
  | access a => exact raised_access raised kept
  | control c => exact raised_control raised kept

/-- Locking is not seen in the status register. -/
theorem shown_lock (s : Simulator device) :
    (leaves (Procedure.lock .main).run s).shown = s.shown := by
  have run : (Procedure.lock .main).run s = writeRegister .cr (s.cr.set .lock true) s :=
    run_updateControl _ s
  have still : ((s.cr.set .lock true).has .strt && !s.cr.has .strt) = false := by
    rw [Contents.has_set_of_ne (by decide), Bool.and_not_self]
  have accepts : ∀ t : Simulator device, t.cr = s.cr → t.flags = s.flags → t.busy = s.busy →
      (acceptControl (s.cr.set .lock true) t).shown = s.shown := by
    intro t cr flags busy
    rw [shown_eq, shown_eq]
    simp only [acceptControl, cr, still, Bool.false_eq_true, if_false, flags, busy]
  have same : leaves (Procedure.lock .main).run s =
      leaves (writeRegister .cr (s.cr.set .lock true)) s := by
    simp only [leaves, run]
  rw [same]
  obtain ⟨_, _, left⟩ | ⟨_, _, _, left⟩ := writeControl_leaves (s.cr.set .lock true) s
  · rw [left, shown_eq, shown_eq]
  · rw [left]
    exact accepts _ rfl rfl rfl

theorem shown_trails (other : f ≠ .bsy) (commands : List (Command Control))
    (s : Simulator device) :
    Trails (fun u x v => ¬ Clears f x → u.has f = true → v.has f = true) shown
      (commands.flatMap Command.steps) s (playAll device shown commands s) := by
  have silent : ∀ t : Simulator device, (Machine.settle t).shown = t.shown := by
    intro t
    rw [shown_eq, shown_eq]
    rfl
  apply playAll_trails silent shown_lock commands
  intro x _ t kept raised
  rw [shown_has other] at raised ⊢
  exact raised_step raised kept

/-- No clear is for the flags that belong to no programming or erase. -/
theorem uncleared_kept (uncleared : f = .operr ∨ f = .rderr) (op : Operation) :
    ¬ Clears f (.operate op) := by
  cases op with
  | clear c =>
    intro same
    have same : c.flag = f := same
    rcases uncleared with rfl | rfl <;> cases c <;> cases same
  | clearStatus =>
    rintro ⟨c, same⟩
    rcases uncleared with rfl | rfl <;> cases c <;> cases same
  | _ => exact id

/-- Status flags are sticky, and clears are exact. A flag that is seen anywhere in a session is seen
until a step clears it, also while the controller is busy and in a guard that a halt unwinds, and no
access within a step lowers it but a write to the status register. A clear changes its own flags and
nothing else, and nothing else that the driver does writes that register. -/
theorem flags_sticky (device : Device) :
    (∀ (s : Simulator device) (commands : List (Command Control)),
      let steps := commands.flatMap Command.steps
      let points := s.shown :: (playAll device shown commands s).sights shown
      ∀ f ≠ .bsy, ∀ i j u v, i ≤ j → points[i]? = some u → points[j]? = some v →
        (∀ x ∈ (steps.take j).drop i, ¬ Clears f x) → u.has f = true → v.has f = true) ∧
    (∀ (s : Simulator device) (a : Access), (∀ v, a ≠ .write .sr v) → ∀ f ≠ .bsy,
      s.shown.has f = true → (leaves (Machine.perform a) s).shown.has f = true) ∧
    (∀ (s : Simulator device) (c : Clearable), ∃ t,
      ((Operation.clear c).procedure device).run s = .ok .done t ∧ Lowers [c.flag] s t) ∧
    (∀ s : Simulator device, ∃ t, (Operation.clearStatus.procedure device).run s = .ok .done t ∧
      Lowers [.erserr, .pgaerr, .wrperr, .pgperr, .eop] s t) ∧
    (∀ (s : Simulator device) (op : Operation) (f : Flag .sr), f = .operr ∨ f = .rderr →
      s.shown.has f = true → (leaves (op.procedure device).run s).shown.has f = true) ∧
    (∀ (s : Simulator device) (x : Step Control), Unwritten x → ∃ noted,
      (leaves (x.act device) s).events = noted ++ s.events ∧ ∀ v, .write .sr v ∉ noted) ∧
    ∀ v : Contents .sr, v.error?.isSome = v.hasError := by
  refine ⟨?_, ?_, fun s c => clear_lowers c s, clearStatus_lowers, ?_,
    fun s x unwritten => unwritten.noted s, Contents.error?_isSome⟩
  · intro s commands steps points f other i j u v le here there still
    exact (shown_trails other commands s).trail.lasts (fun _ _ _ keeps => keeps) le here there still
  · intro s a unwritten f other raised
    rw [shown_has other] at raised ⊢
    exact raised_performed raised unwritten
  · intro s op f uncleared raised
    have other : f ≠ .bsy := by rcases uncleared with rfl | rfl <;> decide
    rw [shown_has other] at raised ⊢
    exact raised_step (x := .operate op) raised (uncleared_kept uncleared op)

/-- A store that is not aligned, within a guard, then clears of other flags, also while the controller
is busy, and a store outside the memory that halts the session. -/
theorem flags_sticky_halted :
    let commands : List (Command Control) := [
      .drive (.guarded (.step (.program ⟨0x08000001, by decide⟩ (.ofBytes .x16 [0x34, 0x12]))
        (.step (.clear .eop) .done)) .done),
      .control (.setBusy 2),
      .drive (.step (.clear .wrperr) (.step .status .done)),
      .access (.store ⟨0x09000000, by decide⟩ (.ofBytes .x8 [0x12]))]
    let s : Simulator .generic := new .generic
    let steps := commands.flatMap Command.steps
    let course := playAll .generic shown commands s
    let points := s.shown :: course.sights shown
    course.halt.isSome = true ∧ ∃ u v, points[2]? = some u ∧ points[8]? = some v ∧
      (∀ x ∈ (steps.take 8).drop 2, ¬ Clears .pgaerr x) ∧
      u.has .pgaerr = true ∧ v.has .pgaerr = true := by
  intro commands s steps course points
  have raised : points[2]?.map (·.has .pgaerr) = some true := by decide +kernel
  have present : points[8]?.isSome = true := by decide +kernel
  have still : ∀ x ∈ (steps.take 8).drop 2, ¬ Clears .pgaerr x := by
    simp [steps, commands, Command.steps, Script.steps, Clears, Clearable.flag]
  obtain ⟨u, here, raised⟩ := Option.map_eq_some_iff.mp raised
  obtain ⟨v, there⟩ := Option.isSome_iff_exists.mp present
  refine ⟨by decide +kernel, u, v, here, there, still, raised, ?_⟩
  obtain ⟨lasts, _⟩ := flags_sticky .generic
  exact lasts s commands .pgaerr (by decide) 2 8 u v (by decide) here there still raised

end Sessions

end Simulator
end FlashController
