import FlashController.Proofs.Mapped.Replay
import FlashController.Proofs.Recorder.Pacing
import FlashController.Proofs.Tiling

/-! Plain words do what a recorder logs. The driver takes the same course over both, since it looks
at the status register only to wait, and both have the busy flag clear. -/
namespace FlashController

namespace Recorder

theorem streak_cons (r : Register) (e : Event) (log : List Event) :
    streak r (e :: log) = if e.isRead r then streak r log + 1 else 0 := by
  unfold streak
  rw [List.takeWhile_cons]
  split <;> rfl

end Recorder

namespace Mapped
open Recorder (Event streak maxStreak note)

/-- A recorder, started together with plain words, has come to a state that agrees with what its
log makes of the words; at most so many reads of a register were its newest events. -/
structure Tracks (n : Nat) (origin : Mapped) (s : Recorder) : Prop where
  same : ∀ r, r ≠ .sr → (replay s.events origin).readRegister r = s.stored.get r
  idle : s.stored.sr.has .bsy = false
  idle_word : ((replay s.events origin).readRegister .sr).has .bsy = false
  unqueued : ∀ r, s.queued.get r = []
  reads : ∀ r, streak r s.events ≤ n
  inside : Inside s.events

/-- Two procedures, the first on a recorder and the second on plain words, that complete with
answers in some relation and keep the two in agreement. -/
def Mirrors (n k : Nat) (R : α → β → Prop) (p : Procedure α) (q : Procedure β) : Prop :=
  ∀ origin s, Tracks n origin s → ∃ a b t, p.run s = .ok a t ∧
    q.run (replay s.events origin) = .ok b (replay t.events origin) ∧ R a b ∧ Tracks k origin t

section
variable {n k l : Nat} {origin : Mapped} {s : Recorder}

namespace Mirrors
variable {p : Procedure α} {q : Procedure β} {R : α → β → Prop}

theorem result {a : α} {b : β} (related : R a b) : Mirrors n n R (Pure.pure a) (Pure.pure b) :=
  fun _ s h => ⟨a, b, s, rfl, rfl, related, h⟩

theorem bind {f : α → Procedure γ} {g : β → Procedure δ} {T : γ → δ → Prop}
    (first : Mirrors n k R p q) (rest : ∀ a b, R a b → Mirrors k l T (f a) (g b)) :
    Mirrors n l T (p >>= f) (q >>= g) := by
  intro origin s tracks
  obtain ⟨a, b, t, run, run', related, tracks⟩ := first origin s tracks
  obtain ⟨c, d, u, later, later', related, tracks⟩ := rest a b related origin t tracks
  exact ⟨c, d, u, (Procedure.run_bind_ok run).trans later,
    (Procedure.run_bind_ok run').trans later', related, tracks⟩

theorem map {T : γ → δ → Prop} {f : α → γ} {g : β → δ} (h : Mirrors n k R p q)
    (maps : ∀ a b, R a b → T (f a) (g b)) : Mirrors n k T (f <$> p) (g <$> q) := by
  rw [map_eq_pure_bind, map_eq_pure_bind]
  exact h.bind fun a b related => .result (maps a b related)

end Mirrors

section Read
variable {r : Register}

theorem Tracks.read (h : Tracks n origin s) (r : Register) (v : Contents r) :
    Tracks (n + 1) origin (note (.read r v) s) := by
  constructor
  · exact h.same
  · exact h.idle
  · exact h.idle_word
  · exact h.unqueued
  · intro q
    show streak q (.read r v :: s.events) ≤ n + 1
    have reads := h.reads q
    rw [Recorder.streak_cons]
    split <;> omega
  · intro a w member
    rcases List.mem_cons.mp member with same | older
    · cases same
    · exact h.inside a w older

/-- Without queued answers and an endless wait, a read gives what is stored. -/
theorem Tracks.perform_read (h : Tracks n origin s) (short : n < maxStreak) (r : Register) :
    (Machine.perform (.read r) : MachineM Recorder (Contents r)) s =
      .ok (s.stored.get r) (note (.read r (s.stored.get r)) s) := by
  have room : streak r s.events < maxStreak := Nat.lt_of_le_of_lt (h.reads r) short
  rw [Recorder.perform_read, if_pos room]
  simp only [Recorder.answer, h.unqueued r]

theorem read_mirrors (short : n < maxStreak) (other : r ≠ .sr) :
    Mirrors n (n + 1) Eq (.read r) (.read r) := by
  intro origin s h
  refine ⟨_, _, _, (congrFun (Procedure.run_act _) s).trans (h.perform_read short r),
    congrFun (Procedure.run_act _) _, (h.same r other).symm, h.read r _⟩

/-- The two status registers may differ, but both are idle. -/
theorem readStatus_mirrors (short : n < maxStreak) :
    Mirrors n (n + 1) (fun v u => v.has .bsy = false ∧ u.has .bsy = false) (.read .sr)
      (.read .sr) := by
  intro origin s h
  exact ⟨_, _, _, (congrFun (Procedure.run_act _) s).trans (h.perform_read short .sr),
    congrFun (Procedure.run_act _) _, ⟨h.idle, h.idle_word⟩, h.read .sr _⟩

/-- A wait for what is there already is one read. -/
theorem Tracks.readUntil (h : Tracks n origin s) (short : n < maxStreak)
    (ready : Contents r → Bool) (stored : ready (s.stored.get r) = true)
    (word : ready ((replay s.events origin).readRegister r) = true) :
    (Procedure.readUntil r ready).run s =
        .ok (s.stored.get r) (note (.read r (s.stored.get r)) s) ∧
      (Procedure.readUntil r ready).run (replay s.events origin) =
        .ok ((replay s.events origin).readRegister r) (replay s.events origin) := by
  constructor
  · refine (Procedure.run_readUntil r ready s).trans ?_
    exact (bind_ok (h.perform_read short r)).trans (congrFun (if_pos stored) _)
  · refine (Procedure.run_readUntil r ready _).trans ?_
    have looked : (Machine.perform (.read r) : MachineM Mapped (Contents r))
        (replay s.events origin) = .ok _ (replay s.events origin) := rfl
    exact (bind_ok looked).trans (congrFun (if_pos word) _)

end Read

section Write
variable {e : Event}

/-- Any other event than a read ends a row of reads. -/
theorem Tracks.acted (h : Tracks n origin s) (acts : ∀ r, e.isRead r = false)
    {stored : Bank Contents}
    (same : ∀ r, r ≠ .sr → (mirror e (replay s.events origin)).readRegister r = stored.get r)
    (idle : stored.sr.has .bsy = false)
    (idle_word : ((mirror e (replay s.events origin)).readRegister .sr).has .bsy = false)
    (inside : ∀ a w, e = .store a w → InWindow a w.width) :
    Tracks 0 origin { s with stored, events := e :: s.events } := by
  constructor
  · exact same
  · exact idle
  · exact idle_word
  · exact h.unqueued
  · intro r
    show streak r (e :: s.events) ≤ 0
    rw [Recorder.streak_cons, acts r]
    exact Nat.le_refl 0
  · intro a w member
    rcases List.mem_cons.mp member with here | older
    · exact inside a w here.symm
    · exact h.inside a w older

theorem Tracks.write (h : Tracks n origin s) (v : Contents r) :
    Tracks 0 origin (note (.write r v) (Recorder.keep r v s)) := by
  refine h.acted (fun _ => rfl) ?_ ?_ ?_ nofun
  · intro q other
    have older := h.same q other
    cases r <;> cases q <;> first | rfl | exact older | exact absurd rfl other
  · cases r with
    | sr =>
      have idle : s.stored.sr.raw.getLsbD Flag.bsy.bit = false := h.idle
      show (s.stored.sr.raw &&& ~~~v.raw).getLsbD Flag.bsy.bit = false
      rw [BitVec.getLsbD_and, idle, Bool.false_and]
    | cr | acr | optcr => exact h.idle
  · cases r with
    | sr =>
      have unsticky : stickyMask.getLsbD Flag.bsy.bit = false := by decide
      show (v.raw &&& stickyMask).getLsbD Flag.bsy.bit = false
      rw [BitVec.getLsbD_and, unsticky, Bool.and_false]
    | cr | acr | optcr => exact h.idle_word

theorem write_mirrors (v : Contents r) : Mirrors n 0 Eq (.write v) (.write v) := by
  intro origin s h
  exact ⟨(), (), _, congrFun (Procedure.run_act (.write r v)) s,
    congrFun (Procedure.run_act (.write r v)) _, rfl, h.write v⟩

/-- What was just written is there at once, unless it is the status. -/
theorem writeAwait_mirrors (other : r ≠ .sr) {v : Contents r} (ready : Contents r → Bool)
    (written : ready v = true) :
    Mirrors n 1 Eq (Procedure.write v >>= fun _ => Procedure.readUntil r ready)
      (Procedure.write v >>= fun _ => Procedure.readUntil r ready) := by
  intro origin s h
  have tracks := h.write v
  have stored : (note (.write r v) (Recorder.keep r v s)).stored.get r = v := by
    cases r <;> first | rfl | exact absurd rfl other
  have word := (tracks.same r other).trans stored
  obtain ⟨run, run'⟩ := tracks.readUntil (by decide) ready
    ((congrArg ready stored).trans written) ((congrArg ready word).trans written)
  exact ⟨_, _, _, (Procedure.run_bind_ok (congrFun (Procedure.run_act (.write r v)) s)).trans run,
    (Procedure.run_bind_ok (congrFun (Procedure.run_act (.write r v)) _)).trans run',
    stored.trans word.symm, tracks.read r _⟩

theorem Tracks.noted (h : Tracks n origin s) (acts : ∀ r, e.isRead r = false)
    (words : ∀ r, (mirror e (replay s.events origin)).readRegister r =
      (replay s.events origin).readRegister r)
    (inside : ∀ a w, e = .store a w → InWindow a w.width) : Tracks 0 origin (note e s) :=
  h.acted acts (fun r other => (words r).trans (h.same r other)) h.idle
    ((congrArg (·.has .bsy) (words .sr)).trans h.idle_word) inside

theorem barrier_mirrors : Mirrors n 0 Eq .barrier .barrier := by
  intro origin s h
  refine ⟨(), (), _, congrFun (Procedure.run_act .barrier) s,
    congrFun (Procedure.run_act .barrier) _, rfl, ?_⟩
  exact h.noted (fun _ => rfl) (fun r => by cases r <;> rfl) nofun

theorem key_mirrors (d : Domain) (k : BitVec 32) : Mirrors n 0 Eq (.key d k) (.key d k) := by
  intro origin s h
  refine ⟨(), (), _, congrFun (Procedure.run_act (.key d k)) s,
    congrFun (Procedure.run_act (.key d k)) _, rfl, ?_⟩
  exact h.noted (fun _ => rfl) (fun r => by cases d <;> cases r <;> rfl) nofun

theorem store_mirrors {a : Address} {w : Word} (inside : InWindow a w.width) :
    Mirrors n 0 Eq (.store a w) (.store a w) := by
  intro origin s h
  have stored : (Machine.perform (.store a w) : MachineM Mapped Unit) (replay s.events origin) =
      .ok () (storeBytes a w (replay s.events origin)) := by
    show (perform (.store a w)) _ = _
    simp only [perform, if_pos inside]
    rfl
  refine ⟨(), (), _, congrFun (Procedure.run_act (.store a w)) s,
    (congrFun (Procedure.run_act (.store a w)) _).trans stored, rfl, ?_⟩
  refine h.noted (fun _ => rfl) (fun r => by cases r <;> rfl) fun b u same => ?_
  cases same
  exact inside

end Write

section Procedures

theorem update_mirrors {r : Register} (short : n < maxStreak) (other : r ≠ .sr)
    (f : Contents r → Contents r) : Mirrors n 0 Eq (.update r f) (.update r f) := by
  refine (read_mirrors short other).bind fun v u same => ?_
  obtain rfl := same
  exact write_mirrors (f v)

theorem updateControl_mirrors (short : n < maxStreak) (f : Contents .cr → Contents .cr) :
    Mirrors n 0 Eq (.update .cr f) (.update .cr f) := update_mirrors short (by decide) f

theorem waitUntilIdle_mirrors : Mirrors n 1 Eq .waitUntilIdle .waitUntilIdle := by
  refine barrier_mirrors.bind fun _ _ _ => ?_
  have await : Mirrors 0 1 (fun _ _ => True) (.readUntil .sr fun v => !v.has .bsy)
      (.readUntil .sr fun v => !v.has .bsy) := by
    intro origin s h
    obtain ⟨run, run'⟩ := h.readUntil (by decide) (fun v : Contents .sr => !v.has .bsy)
      (congrArg Bool.not h.idle) (congrArg Bool.not h.idle_word)
    exact ⟨_, _, _, run, run', trivial, h.read .sr _⟩
  exact await.bind fun _ _ _ => .result rfl

theorem pollIdle_mirrors : Mirrors n 1 Eq .pollIdle .pollIdle := by
  refine barrier_mirrors.bind fun _ _ _ => ?_
  refine (readStatus_mirrors (by decide)).bind fun v u idle => .result ?_
  rw [idle.1, idle.2]

theorem register_ne_sr (d : Domain) : d.register ≠ .sr := by
  cases d <;> nofun

theorem lock_mirrors (short : n < maxStreak) (d : Domain) : Mirrors n 0 Eq (.lock d) (.lock d) :=
  update_mirrors short (register_ne_sr d) _

theorem unlock_mirrors (short : n < maxStreak) (d : Domain) :
    Mirrors n 0 Eq (.unlock d) (.unlock d) := by
  refine (lock_mirrors short d).bind fun _ _ _ => ?_
  exact (key_mirrors d d.firstKey).bind fun _ _ _ => key_mirrors d d.secondKey

theorem isLocked_mirrors (short : n < maxStreak) (d : Domain) :
    Mirrors n (n + 1) Eq (.isLocked d) (.isLocked d) := by
  refine (read_mirrors short (register_ne_sr d)).bind fun v u same => .result ?_
  rw [same]

theorem erase_mirrors (w : Width) (select deselect : Contents .cr → Contents .cr) :
    Mirrors n 0 Eq (.erase w select deselect) (.erase w select deselect) := by
  refine waitUntilIdle_mirrors.bind fun _ _ _ => ?_
  refine (updateControl_mirrors (by decide) (·.setProgramWidth w)).bind fun _ _ _ => ?_
  refine (updateControl_mirrors (by decide) select).bind fun _ _ _ => ?_
  refine (updateControl_mirrors (by decide) (·.set .strt true)).bind fun _ _ _ => ?_
  exact waitUntilIdle_mirrors.bind fun _ _ _ => updateControl_mirrors (by decide) deselect

theorem program_mirrors {a : Address} {w : Word} (inside : InWindow a w.width) :
    Mirrors n 0 Eq (.program a w) (.program a w) := by
  refine waitUntilIdle_mirrors.bind fun _ _ _ => ?_
  refine (updateControl_mirrors (by decide) (·.setProgramWidth w.width)).bind fun _ _ _ => ?_
  refine (updateControl_mirrors (by decide) (·.set .pg true)).bind fun _ _ _ => ?_
  refine (store_mirrors inside).bind fun _ _ _ => ?_
  exact waitUntilIdle_mirrors.bind fun _ _ _ => updateControl_mirrors (by decide) (·.set .pg false)

/-- The option bytes may have to be unlocked first; both find the same lock bit. -/
theorem programOptionBytes_mirrors (v : Contents .optcr) :
    Mirrors n 1 Eq (.programOptionBytes v) (.programOptionBytes v) := by
  refine waitUntilIdle_mirrors.bind fun _ _ _ => ?_
  refine (isLocked_mirrors (by decide) .optionBytes).bind fun x y same => ?_
  obtain rfl := same
  have rest {n : Nat} : Mirrors n 1 Eq
      (do .write v.optionBytes; .update .optcr (·.set .optstrt true); .waitUntilIdle)
      (do .write v.optionBytes; .update .optcr (·.set .optstrt true); .waitUntilIdle) := by
    refine (write_mirrors v.optionBytes).bind fun _ _ _ => ?_
    refine (update_mirrors (by decide) (by decide) (·.set .optstrt true)).bind fun _ _ _ => ?_
    exact waitUntilIdle_mirrors
  cases x with
  | true => exact (unlock_mirrors (by decide) .optionBytes).bind fun _ _ _ => rest
  | false => exact rest

theorem clearStatus_mirrors : Mirrors n 0 Eq .clearStatus .clearStatus := by
  refine (write_mirrors _).bind fun _ _ _ => ?_
  refine (write_mirrors _).bind fun _ _ _ => ?_
  refine (write_mirrors _).bind fun _ _ _ => ?_
  refine (write_mirrors _).bind fun _ _ _ => ?_
  exact write_mirrors _

theorem setWaitStates_mirrors (ws : UInt8) :
    Mirrors 0 1 Eq (.setWaitStates ws) (.setWaitStates ws) := by
  refine (read_mirrors (r := .acr) (by decide) (by decide)).bind fun v u same => ?_
  obtain rfl := same
  have await := writeAwait_mirrors (n := 1) (by decide)
    (fun u : Contents .acr => u.latency == (v.setLatency ws.toNat).latency)
    (beq_self_eq_true (v.setLatency ws.toNat).latency)
  exact await.bind fun _ _ _ => .result rfl

theorem resetAccelerator_mirrors : Mirrors 0 0 Eq .resetAccelerator .resetAccelerator := by
  refine (read_mirrors (by decide) (by decide)).bind fun v u same => ?_
  obtain rfl := same
  exact (write_mirrors _).bind fun _ _ _ => write_mirrors _

section Blocks
variable {a target : Address} {data : List UInt8} {words : List Word}

/-- The bytes from an address on lie in the window. -/
def Within (a : Address) (length : Nat) : Prop :=
  flashStart ≤ a.toNat ∧ a.toNat + length ≤ flashStart + windowSize

instance (a : Address) (length : Nat) : Decidable (Within a length) :=
  inferInstanceAs (Decidable (_ ∧ _))

/-- The window ends before the address space. -/
theorem advance_within {length : Nat} (within : Within a length) :
    ∃ next : Address, Procedure.advance a length = pure next ∧
      next.toNat = a.toNat + length := by
  have small : a.toNat + length < UInt64.size := by
    have high := within.2
    unfold flashStart windowSize UInt64.size at *
    omega
  exact ⟨⟨a.toNat + length, small⟩, Procedure.advance_eq (dif_pos small), rfl⟩

theorem programBytes_mirrors {offset : Nat} (within : data ≠ [] → flashStart ≤ a.toNat ∧
      a.toNat + offset + data.length ≤ flashStart + windowSize) :
    Mirrors 0 0 Eq (.programBytes a offset data) (.programBytes a offset data) := by
  induction data generalizing offset with
  | nil => exact .result rfl
  | cons b rest ih =>
    obtain ⟨low, high⟩ := within (List.cons_ne_nil b rest)
    rw [List.length_cons] at high
    have reached : Within a offset := ⟨low, by omega⟩
    obtain ⟨target, moves, moved⟩ := advance_within reached
    have inside : InWindow target (Word.ofByte b).width := by
      constructor
      · omega
      · show target.toNat + 1 ≤ _
        omega
    simp only [Procedure.programBytes, moves, pure_bind]
    exact (program_mirrors inside).bind fun _ _ _ => ih fun _ => ⟨low, by omega⟩

theorem programWords_mirrors
    (within : words ≠ [] → Within a (words.flatMap Word.bytes).length) :
    Mirrors 0 0 Eq (.programWords a words) (.programWords a words) := by
  induction words generalizing a with
  | nil => exact .result rfl
  | cons w rest ih =>
    obtain ⟨low, high⟩ := within (List.cons_ne_nil w rest)
    rw [List.flatMap_cons, List.length_append, Word.length_bytes] at high
    have inside : InWindow a w.width := ⟨low, by omega⟩
    obtain ⟨next, moves, moved⟩ := advance_within inside
    simp only [Procedure.programWords, moves, pure_bind]
    exact (program_mirrors inside).bind fun _ _ _ => ih fun _ => ⟨by omega, by omega⟩

end Blocks
end Procedures
end
end Mapped

namespace Operation
open Mapped

/-- All that the operation stores lies in the window. -/
def Fits : Operation → Prop
  | .program a w => Within a w.width.bytes
  | .programBlock a data | .programBlockWide a data _ => data ≠ [] → Within a data.length
  | _ => True

end Operation

namespace Mapped

/-- No operation takes another course on plain words than on a recorder, whatever it answers. -/
theorem operation_mirrors (device : Device) {op : Operation} (fits : op.Fits) :
    ∃ n, Mirrors 0 n (fun _ _ => True) (op.procedure device) (op.procedure device) := by
  have silent {n : Nat} {p : Procedure Unit} (h : Mirrors 0 n Eq p p) :
      ∃ n, Mirrors 0 n (fun _ _ => True) (Operation.procedure.silent p)
        (Operation.procedure.silent p) := ⟨n, h.map fun _ _ _ => trivial⟩
  have update (f : Contents .acr → Contents .acr) :
      Mirrors 0 0 Eq (.update .acr f) (.update .acr f) := update_mirrors (by decide) (by decide) f
  cases op with
  | waitUntilIdle => exact silent waitUntilIdle_mirrors
  | pollIdle => exact ⟨_, pollIdle_mirrors.map fun _ _ _ => trivial⟩
  | lock d => exact silent (lock_mirrors (by decide) d)
  | unlock d => exact silent (unlock_mirrors (by decide) d)
  | isLocked d => exact ⟨_, (isLocked_mirrors (by decide) d).map fun _ _ _ => trivial⟩
  | ensureUnlocked d =>
    have ensure : Mirrors 0 1 (fun _ _ => True) (.ensureUnlocked d) (.ensureUnlocked d) :=
      (isLocked_mirrors (by decide) d).bind fun _ _ _ => .result trivial
    exact ⟨_, ensure.map fun _ _ _ => trivial⟩
  | eraseAll w => exact silent (erase_mirrors w _ _)
  | eraseSector n w => exact silent (erase_mirrors w _ _)
  | program a w => exact silent (program_mirrors fits)
  | programBlock a data => exact silent (programBytes_mirrors fits)
  | programBlockWide a data limit =>
    refine silent (programWords_mirrors fun some => ?_)
    rw [bytes_tile]
    refine fits fun empty => some ?_
    rw [empty, tile]
  | programOptionBytes v => exact silent (programOptionBytes_mirrors v)
  | optionBytes =>
    exact ⟨_, (read_mirrors (r := .optcr) (by decide) (by decide)).map fun _ _ _ => trivial⟩
  | status => exact ⟨_, (readStatus_mirrors (by decide)).map fun _ _ _ => trivial⟩
  | clear c => exact silent (write_mirrors _)
  | clearStatus => exact silent clearStatus_mirrors
  | setWaitStates n => exact silent (setWaitStates_mirrors n)
  | setPrefetch on => exact silent (update _)
  | setAccelerator on => exact silent (update _)
  | resetAccelerator => exact silent resetAccelerator_mirrors

end Mapped
end FlashController
