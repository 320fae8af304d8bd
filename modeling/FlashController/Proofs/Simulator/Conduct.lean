import FlashController.Proofs.Simulator.Operations

/-! Conduct of the driver. Between its steps the controller is idle, set up for nothing and not
misused, whatever the lock, the protection and the memory are; an error flag that gets set tells
of the caller, not of the driver. -/
namespace FlashController

namespace Contents

/-- No operation is set up or started, and no sector is selected. -/
structure Calm (device : Device) (v : Contents .cr) : Prop where
  flags : ∀ f ∈ [Flag.pg, .ser, .mer, .strt], v.has f = false
  sector : v.sector device = 0

namespace Calm
variable {device : Device} {v : Contents .cr}

theorem atReset : Calm device (Register.atReset .cr) := by
  cases device <;> exact ⟨by decide, by decide⟩

theorem set_lock (h : Calm device v) (on : Bool) : Calm device (v.set .lock on) := by
  refine ⟨fun f member => ?_, (v.sector_set device .lock on).trans h.sector⟩
  have other : Flag.lock ≠ f := by
    rintro rfl
    exact absurd member (by decide)
  rw [has_set_of_ne other]
  exact h.flags f member

theorem setProgramWidth (h : Calm device v) (w : Width) : Calm device (v.setProgramWidth w) := by
  have sector : (v.setProgramWidth w).sector device = v.sector device :=
    field_put (by cases device <;> decide)
  exact ⟨fun f member => (v.has_setProgramWidth w f).trans (h.flags f member),
    sector.trans h.sector⟩

theorem set_off (h : Calm device v) (f : Flag .cr) : Calm device (v.set f false) := by
  refine ⟨fun g member => ?_, (v.sector_set device f false).trans h.sector⟩
  rw [has_set]
  split
  · rfl
  · exact h.flags g member

/-- A sector erase deselects what it selected. -/
theorem deselect (h : Calm device v) (n : Nat) :
    Calm device ((((v.setSector device n).set .ser true).set .ser false).setSector device 0) := by
  refine ⟨fun f member => ?_, ?_⟩
  · rw [has_setSector, set_set, has_set]
    split
    · rfl
    · exact (v.has_setSector device n f).trans (h.flags f member)
  · rw [sector_setSector]
    rfl

end Calm
end Contents

namespace Operation

/-- Where the operation stores, and what. -/
def stores? : Operation → Option (Address × List UInt8)
  | .program a w => some (a, w.bytes)
  | .programBlock a data | .programBlockWide a data _ => some (a, data)
  | _ => none

end Operation

namespace Simulator
variable {device : Device}

/-- Some byte of the data is stored, and over one that lacks some of its bits. -/
def Overwrites (offset : Nat) (data : List UInt8) (s : Simulator device) : Prop :=
  ∃ i b old, data[i]? = some b ∧ s.guards (offset + i) = false ∧
    s.memory.get? (offset + i) = some old ∧ old &&& b ≠ b

/-- State between the steps of a driven session. -/
structure Tidy (s : Simulator device) : Prop where
  idle : s.busy = 0
  blameless : s.violations = 0
  calm : s.cr.Calm device
  ordered : s.flags.has .erserr = false

/-- What a step of the driver does to the flags that report its caller's mistakes. -/
structure Blames (s : Simulator device) (x : Step Control) (t : Simulator device) : Prop where
  misaligned : s.flags.has .pgaerr = false → t.flags.has .pgaerr = true →
    ∃ a w, x = .operate (.program a w) ∧ a.toNat % w.width.bytes ≠ 0
  overwritten : s.flags.has .pgperr = false → t.flags.has .pgperr = true →
    ∃ op a data, x = .operate op ∧ op.stores? = some (a, data) ∧ s.isLocked .main = false ∧
      Overwrites (a.toNat - flashStart) data s

section Flags
variable {s : Simulator device}

theorem burnByte_overwrites {offset : Nat} {b : UInt8} (clear : s.flags.has .pgperr = false)
    (raised : (burnByte offset b s).flags.has .pgperr = true) :
    s.guards offset = false ∧ ∃ old, s.memory.get? offset = some old ∧ old &&& b ≠ b := by
  unfold burnByte at raised
  split at raised
  · rw [raise, Contents.has_set_of_ne (by decide), clear] at raised
    contradiction
  · rename_i free
    refine ⟨Bool.eq_false_iff.mpr free, ?_⟩
    cases obstacle : obstructed s.memory offset [b] with
    | false =>
      simp only [reports, obstacle, Bool.false_eq_true, if_false] at raised
      rw [Contents.has_set_of_ne (by decide), clear] at raised
      contradiction
    | true => simpa [obstructed, Option.any_eq_true] using obstacle

theorem burnBytes_overwrites {offset : Nat} {data : List UInt8}
    (clear : s.flags.has .pgperr = false)
    (raised : (burnBytes offset data s).flags.has .pgperr = true) : Overwrites offset data s := by
  induction data generalizing offset s with
  | nil => exact absurd (clear.symm.trans raised) nofun
  | cons b rest ih =>
    cases here : (burnByte offset b s).flags.has .pgperr with
    | true =>
      obtain ⟨free, old, was, lacks⟩ := burnByte_overwrites clear here
      exact ⟨0, b, old, rfl, free, was, lacks⟩
    | false =>
      obtain ⟨i, c, old, given, free, was, lacks⟩ := ih here raised
      have moved : offset + 1 + i = offset + (i + 1) := by omega
      rw [guards_burnByte, moved] at free
      rw [get?_burnByte (by omega), moved] at was
      exact ⟨i + 1, c, old, given, free, was, lacks⟩

end Flags

section Operations
variable {s t : Simulator device} {x : Step Control}

/-- Flags that were not set, and are not, blame nobody. -/
theorem Blames.of_flags (pgaerr : t.flags.has .pgaerr = true → s.flags.has .pgaerr = true)
    (pgperr : t.flags.has .pgperr = true → s.flags.has .pgperr = true) : Blames s x t := by
  constructor
  · intro clear raised
    exact absurd (clear.symm.trans (pgaerr raised)) nofun
  · intro clear raised
    exact absurd (clear.symm.trans (pgperr raised)) nofun

theorem Blames.of_eq (same : t.flags = s.flags) : Blames s x t :=
  .of_flags (fun raised => same ▸ raised) fun raised => same ▸ raised

/-- An operation that ends with a calm control register and no new flags. -/
theorem Tidy.of_eq (h : Tidy s) (idle : t.busy = 0) (violations : t.violations = s.violations)
    (calm : t.cr.Calm device) (flags : t.flags = s.flags) : Tidy t :=
  ⟨idle, violations.trans h.blameless, calm, flags ▸ h.ordered⟩

theorem Tidy.logged (h : Tidy s) (events : List Event) : Tidy (s.logged events) :=
  ⟨h.idle, h.blameless, h.calm, h.ordered⟩

theorem Tidy.latched (h : Tidy s) (d : Domain) (on : Bool) : Tidy (latched d on s) := by
  cases d with
  | main => exact ⟨h.idle, h.blameless, h.calm.set_lock on, h.ordered⟩
  | optionBytes => exact ⟨h.idle, h.blameless, h.calm, h.ordered⟩

theorem Tidy.wiped (h : Tidy s) (w : Width) {select deselect : Contents .cr → Contents .cr}
    (single : (starting w select s.cr).has .mer ≠ (starting w select s.cr).has .ser)
    (calm : (deselect (select (s.cr.setProgramWidth w))).Calm device) :
    Tidy (wiped w select deselect s) ∧ Blames s x (wiped w select deselect s) := by
  cases lock : s.isLocked .main with
  | true =>
    rw [wiped_locked lock]
    exact ⟨h.of_eq rfl rfl h.calm rfl, .of_eq rfl⟩
  | false =>
    rw [wiped_unlocked lock, erased_eq]
    have kept : ∀ f : Flag .sr, f ≠ .eop ∧ f ≠ .wrperr →
        (verdict (starting w select s.cr) s).has f = s.flags.has f :=
      fun f other => verdict_has other single s
    refine ⟨⟨rfl, h.blameless, calm, (kept .erserr (by decide)).trans h.ordered⟩, ?_⟩
    exact .of_flags (fun raised => (kept .pgaerr (by decide)).symm.trans raised)
      fun raised => (kept .pgperr (by decide)).symm.trans raised

theorem Tidy.programmed (h : Tidy s) (w : Width) {effect : Simulator device → Simulator device}
    (frame : ∃ memory flags, effect s = { s with memory, flags })
    (ordered : (effect s).flags.has .erserr = s.flags.has .erserr) :
    Tidy (programmed w effect s) := by
  obtain ⟨memory, flags, frame⟩ := frame
  rw [frame] at ordered
  cases lock : s.isLocked .main with
  | true =>
    rw [programmed_locked lock]
    exact h.of_eq rfl rfl h.calm rfl
  | false =>
    rw [programmed_unlocked lock, frame]
    exact ⟨rfl, h.blameless, (h.calm.setProgramWidth w).set_off .pg, ordered.trans h.ordered⟩

/-- Storing data in words that are aligned to their widths. -/
theorem Tidy.burned (h : Tidy s) (w : Width) {op : Operation} {a : Address} {data : List UInt8}
    (stores : op.stores? = some (a, data)) :
    Tidy (Simulator.programmed w (burnBytes (a.toNat - flashStart) data) s) ∧
      Blames s (.operate op)
        (Simulator.programmed w (burnBytes (a.toNat - flashStart) data) s) := by
  have kept : ∀ f : Flag .sr, f ≠ .eop ∧ f ≠ .pgperr → f ≠ .wrperr →
      (burnBytes (a.toNat - flashStart) data s).flags.has f = s.flags.has f :=
    fun f other unguarded => burnBytes_has other unguarded _ _ s
  obtain ⟨memory, flags, frame, _⟩ := burnBytes_frame (a.toNat - flashStart) data s
  refine ⟨h.programmed w ⟨memory, flags, frame⟩ (kept .erserr (by decide) (by decide)), ?_⟩
  cases lock : s.isLocked .main with
  | true =>
    rw [programmed_locked lock]
    exact .of_eq rfl
  | false =>
    rw [programmed_unlocked lock]
    constructor
    · intro clear raised
      have raised := (kept .pgaerr (by decide) (by decide)).symm.trans raised
      exact absurd (clear.symm.trans raised) nofun
    · intro clear raised
      exact ⟨op, a, data, rfl, stores, lock, burnBytes_overwrites clear raised⟩

theorem Tidy.words (h : Tidy s) {op : Operation} {a : Address} {words : List Word}
    (stores : op.stores? = some (a, words.flatMap Word.bytes)) :
    Tidy (wordsProgrammed a words s) ∧ Blames s (.operate op) (wordsProgrammed a words s) := by
  obtain ⟨_, none⟩ | ⟨w, block⟩ := wordsProgrammed_cases a words
  · rw [none]
    exact ⟨h, .of_eq rfl⟩
  · rw [block]
    exact h.burned w stores

/-- A single word is the one store that can be misaligned. -/
theorem Tidy.word (h : Tidy s) (a : Address) (w : Word) :
    Tidy (Simulator.programmed w.width (stored a w) s) ∧
      Blames s (.operate (.program a w)) (Simulator.programmed w.width (stored a w) s) := by
  by_cases aligned : a.toNat % w.width.bytes = 0
  · rw [stored_aligned aligned]
    exact h.burned w.width rfl
  · have refused : stored a w s = raise .pgaerr s := if_neg aligned
    have kept : ∀ f : Flag .sr, f ≠ .pgaerr → (stored a w s).flags.has f = s.flags.has f := by
      intro f other
      rw [refused]
      exact Contents.has_set_of_ne other.symm
    refine ⟨h.programmed w.width ⟨_, _, refused⟩ (kept .erserr (by decide)), fun _ _ =>
      ⟨a, w, rfl, aligned⟩, fun clear raised => ?_⟩
    have silent : (Simulator.programmed w.width (stored a w) s).flags.has .pgperr =
        s.flags.has .pgperr := by
      cases lock : s.isLocked .main with
      | true =>
        rw [programmed_locked lock]
        rfl
      | false =>
        rw [programmed_unlocked lock]
        exact kept .pgperr (by decide)
    exact absurd (clear.symm.trans (silent.symm.trans raised)) nofun

theorem Tidy.lowered (h : Tidy s) {flags : Contents .sr}
    (lower : ∀ f, flags.has f = true → s.flags.has f = true) :
    Tidy ({ s with flags } : Simulator device) ∧ Blames s x { s with flags } := by
  refine ⟨⟨h.idle, h.blameless, h.calm, ?_⟩, .of_flags (lower .pgaerr) (lower .pgperr)⟩
  exact Bool.eq_false_iff.mpr fun raised => absurd (h.ordered.symm.trans (lower _ raised)) nofun

/-- Every operation leaves the controller tidy, from any tidy state. -/
theorem Tidy.operate (h : Tidy s) (op : Operation) :
    Tidy (effect op s) ∧ Blames s (.operate op) (effect op s) := by
  cases op with
  | waitUntilIdle => exact ⟨h.of_eq rfl rfl h.calm rfl, .of_eq rfl⟩
  | pollIdle | status =>
    have idle : s.busy - 1 = 0 := by rw [h.idle]
    exact ⟨h.of_eq idle rfl h.calm rfl, .of_eq rfl⟩
  | lock d | unlock d =>
    simp only [effect, charged_idle h.idle]
    exact ⟨h.latched d _, .of_eq (by cases d <;> rfl)⟩
  | isLocked | ensureUnlocked | optionBytes => exact ⟨h, .of_eq rfl⟩
  | eraseAll w =>
    obtain ⟨mass, single⟩ := starting_all w s.cr
    simp only [effect]
    refine h.wiped w ?_ ?_
    · rw [mass, single, h.calm.flags .ser (by decide)]
      exact nofun
    · rw [Contents.set_set]
      exact (h.calm.setProgramWidth w).set_off .mer
  | eraseSector n w =>
    obtain ⟨mass, single, _⟩ := starting_one device n.toNat w s.cr
    simp only [effect]
    refine h.wiped w ?_ ((h.calm.setProgramWidth w).deselect n.toNat)
    rw [mass, single, h.calm.flags .mer (by decide)]
    exact nofun
  | program a w => exact h.word a w
  | programBlock a data => exact h.words (by rw [bytes_map_ofByte]; rfl)
  | programBlockWide a data limit => exact h.words (by rw [bytes_tile]; rfl)
  | programOptionBytes v => exact ⟨h.of_eq rfl rfl h.calm rfl, .of_eq rfl⟩
  | clear c => exact h.lowered fun _ => Contents.has_of_set_false
  | clearStatus =>
    refine h.lowered fun f raised => ?_
    iterate 5 replace raised := Contents.has_of_set_false raised
    exact raised
  | setWaitStates | setPrefetch | setAccelerator | resetAccelerator =>
    exact ⟨h.of_eq h.idle rfl h.calm rfl, .of_eq rfl⟩

theorem Tidy.advance (h : Tidy s) (driven : Driven x) :
    Tidy (advanced x s) ∧ Blames s x (advanced x s) := by
  cases x with
  | operate op => exact h.operate op
  | openGuard | closeGuard => exact ⟨h.latched .main _, .of_eq rfl⟩
  | access a => exact absurd driven id
  | control c =>
    cases c with
    | reset =>
      have clear : ∀ f : Flag .sr, (Register.atReset .sr).has f = false := by
        intro f
        cases f <;> decide
      refine ⟨⟨rfl, h.blameless, .atReset, clear _⟩, .of_flags ?_ ?_⟩
      · exact fun raised => absurd ((clear _).symm.trans raised) nofun
      · exact fun raised => absurd ((clear _).symm.trans raised) nofun
    | setLatency reads => exact ⟨h.of_eq h.idle rfl h.calm rfl, .of_eq rfl⟩
    | setBusy | setFlags | fill | read | readWord => exact absurd driven id

theorem Tidy.start (v : Contents .optcr) (reads : Nat) :
    Tidy ({ withOptionBytes device v with latency := reads } : Simulator device) :=
  ⟨rfl, rfl, .atReset, show (Register.atReset .sr).has .erserr = false by decide⟩

end Operations

/-- What an entry of a driven session shows. -/
def Conducts (s : Simulator device) (x : Step Control) (e : Entry (Simulator device)) : Prop :=
  Tidy e.seen ∧ Blames s x e.seen

theorem driven_leads {x : Step Control} (driven : Driven x) :
    Leads device Machine.settle (fun s : Simulator device => Quiet s ∧ Tidy s) Conducts x := by
  rintro s ⟨quiet, tidy⟩
  obtain ⟨later, run⟩ := driven_completes quiet driven fun _ _ _ _ offends =>
    absurd tidy.idle offends.2.2
  have kept := quiet.act x
  rw [leaves_ok run] at kept
  obtain ⟨advanced, misaligned, overwritten⟩ := tidy.advance driven
  exact ⟨response x s, _, run, ⟨kept, advanced.logged later⟩, advanced.logged [], misaligned,
    overwritten⟩

theorem driven_passes {s : Simulator device} (quiet : Quiet s) (tidy : Tidy s)
    {commands : List (Command Control)}
    (driven : ∀ x ∈ commands.flatMap Command.steps, Driven x) :
    Passes Machine.settle (fun t : Simulator device => Quiet t ∧ Tidy t) Conducts s
      (commands.flatMap Command.steps) (playAll device Machine.settle commands s) :=
  playAll_passes (fun _ h => ⟨h.1.logged [], h.2.logged []⟩) (fun _ => rfl) commands
    (fun x member => driven_leads (driven x member)) ⟨quiet, tidy⟩

/-- A session is not halted, and every entry shows good conduct. -/
def Exemplary (commands : List (Command Control)) (s : Simulator device) : Prop :=
  let course := playAll device Machine.settle commands s
  course.halt = none ∧ Links Conducts s (commands.flatMap Command.steps) course.entries
    (Machine.settle course.final)

/-- Sessions of driver operations, with guards in any way, resets and changes of the latency, never
misuse the controller. -/
theorem driver_conduct (v : Contents .optcr) (reads : Nat) {commands : List (Command Control)}
    (driven : ∀ x ∈ commands.flatMap Command.steps, Driven x) :
    Exemplary commands ({ withOptionBytes device v with latency := reads } : Simulator device) := by
  have reachable : Reachable ({ withOptionBytes device v with latency := reads } :
      Simulator device) := (Reachable.start v).call (.control (.setLatency reads))
  have passes := driven_passes reachable.quiet (Tidy.start v reads) driven
  exact ⟨passes.whole, passes.links⟩

/-- Guards in each other, a store that is not aligned, a block over a byte that was not erased and
into a protected sector, an erase of everything and new option bytes. -/
theorem driver_conduct_nested :
    let commands : List (Command Control) := [
      .drive (.guarded
        (.step (.program ⟨0x08000001, by decide⟩ (.ofBytes .x16 [0x34, 0x12]))
          (.step (.programBlockWide ⟨0x08007FFE, by decide⟩ [0xA5, 0x5A, 0x00] .x32)
            (.guarded (.step (.eraseSector 0xFF .x32) .done) (.step (.eraseAll .x8) .done))))
        .done),
      .control (.setLatency 0),
      .drive (.step (.programOptionBytes ⟨0xCFFFAAEC⟩) (.step .status .done)),
      .control .reset,
      .drive (.guarded (.step (.eraseAll .x64) .done) .done)]
    (∀ x ∈ commands.flatMap Command.steps, Driven x) ∧ Exemplary commands
      ({ withOptionBytes .generic ⟨0xCFFDAAEC⟩ with latency := 7 } : Simulator .generic) := by
  intro commands
  have driven : ∀ x ∈ commands.flatMap Command.steps, Driven x := by decide
  exact ⟨driven, driver_conduct ⟨0xCFFDAAEC⟩ 7 driven⟩

end Simulator
end FlashController
