import FlashController.Operation
import FlashController.Proofs.Run

/-! What the procedures of the driver are put together from: updates and writes of one register,
the keys of one domain, stores, and waits for an idle status or for wait states that were just set.
What each piece keeps is kept by the procedure, and the pieces tell which accesses an operation can
make, whatever the registers answer. -/
namespace FlashController

/-- One node of a procedure: an access, or a wait for a register. -/
inductive Move
  | act (a : Access)
  | await (r : Register) (ready : Contents r → Bool)

namespace Procedure

/-- All moves that the procedure can make are of one kind. -/
def Makes (kind : Move → Prop) : Procedure α → Prop
  | .result _ | .halt _ => True
  | .act a next => kind (.act a) ∧ ∀ x, (next x).Makes kind
  | .await r ready next => kind (.await r ready) ∧ ∀ v, (next v).Makes kind

/-- Procedures put together from pieces, one after the other. -/
inductive Composed (Piece : (α : Type) → Procedure α → Prop) : (α : Type) → Procedure α → Prop
  | result (a : α) : Composed Piece α (.result a)
  | halt (h : Halt) : Composed Piece α (.halt h)
  | piece {p : Procedure α} (h : Piece α p) : Composed Piece α p
  | bind {p : Procedure α} {f : α → Procedure β} (first : Composed Piece α p)
      (rest : ∀ a, Composed Piece β (f a)) : Composed Piece β (p >>= f)

section Makes
variable {kind : Move → Prop}

theorem Makes.bind {p : Procedure α} {f : α → Procedure β} (first : p.Makes kind)
    (rest : ∀ a, (f a).Makes kind) : (p >>= f).Makes kind := by
  show (p.bind f).Makes kind
  induction p with
  | result a => exact rest a
  | halt h => trivial
  | act a next ih => exact ⟨first.1, fun x => ih x (first.2 x)⟩
  | await r ready next ih => exact ⟨first.1, fun v => ih v (first.2 v)⟩

/-- What every move of the kind keeps is kept by a procedure, also by one that halts. -/
theorem Makes.run_keeps {σ : Type} [Machine σ] {P : σ → Prop} {p : Procedure α} (h : p.Makes kind)
    (acts : ∀ a s, kind (.act a) → P s → P (leaves (Machine.perform a) s))
    (waits : ∀ r ready s, kind (.await r ready) → P s → P (leaves (Machine.perform (.read r)) s))
    {s : σ} (hs : P s) : P (leaves p.run s) := by
  induction p generalizing s with
  | result a => exact hs
  | halt e => exact hs
  | act a next ih =>
    exact leaves_bind_keeps (acts a s h.1 hs) fun x t ht => ih x (h.2 x) ht
  | await r ready next ih =>
    refine leaves_bind_keeps (show P (leaves get s) from hs) fun u t ht => ?_
    exact leaves_bind_keeps (awaitReady_keeps (fun t ht => waits r ready t h.1 ht) _ t ht)
      fun v t ht => ih v (h.2 v) ht

end Makes

namespace Composed
variable {Piece : (α : Type) → Procedure α → Prop}

theorem map {p : Procedure α} (h : Composed Piece α p) (f : α → β) :
    Composed Piece β (f <$> p) := by
  rw [map_eq_pure_bind]
  exact h.bind fun a => .result (f a)

theorem makes {kind : Move → Prop} {p : Procedure α} (h : Composed Piece α p)
    (pieces : ∀ (β : Type) (q : Procedure β), Piece β q → q.Makes kind) : p.Makes kind := by
  induction h with
  | result a => trivial
  | halt e => trivial
  | piece h => exact pieces _ _ h
  | bind _ _ first_ih rest_ih => exact first_ih.bind rest_ih

/-- What every piece keeps is kept by a procedure, also by one that halts. -/
theorem run_keeps {σ : Type} [Machine σ] {P : σ → Prop} {p : Procedure α}
    (h : Composed Piece α p)
    (pieces : ∀ (β : Type) (q : Procedure β) s, Piece β q → P s → P (leaves q.run s))
    {s : σ} (hs : P s) : P (leaves p.run s) := by
  induction h generalizing s with
  | result a => exact hs
  | halt e => exact hs
  | piece h => exact pieces _ _ s h hs
  | bind _ _ first_ih rest_ih =>
    rw [run_bind]
    exact leaves_bind_keeps (first_ih hs) fun a t ht => rest_ih a ht

end Composed
end Procedure

namespace Operation

/-- The register that the operation writes. -/
def writes? : Operation → Option Register
  | .lock d | .unlock d => some d.register
  | .eraseAll _ | .eraseSector _ _ | .program _ _ | .programBlock _ _ | .programBlockWide _ _ _ =>
    some .cr
  | .programOptionBytes _ => some .optcr
  | .clear _ | .clearStatus => some .sr
  | .setWaitStates _ | .setPrefetch _ | .setAccelerator _ | .resetAccelerator => some .acr
  | .waitUntilIdle | .pollIdle | .isLocked _ | .ensureUnlocked _ | .optionBytes | .status => none

/-- The domain whose keys the operation writes. -/
def turns? : Operation → Option Domain
  | .unlock d => some d
  | .programOptionBytes _ => some .optionBytes
  | _ => none

/-- The register that the operation looks at once, for its answer. -/
def looks? : Operation → Option Register
  | .pollIdle | .status => some .sr
  | .isLocked d | .ensureUnlocked d => some d.register
  | .optionBytes => some .optcr
  | _ => none

/-- What the procedure of an operation is put together from. -/
inductive Piece (op : Operation) : (α : Type) → Procedure α → Prop
  | barrier : Piece op _ .barrier
  | idle : Piece op _ (.readUntil .sr fun v => !v.has .bsy)
  | look {r : Register} (looks : op.looks? = some r) : Piece op _ (.read r)
  | read {r : Register} (plain : r = .acr ∨ r = .optcr) : Piece op _ (.read r)
  | write {r : Register} (v : Contents r) (writes : op.writes? = some r) : Piece op _ (.write v)
  | update {r : Register} (f : Contents r → Contents r) (writes : op.writes? = some r)
      (lasting : r ≠ .sr) : Piece op _ (.update r f)
  | key (d : Domain) (k : BitVec 32) (turns : op.turns? = some d) : Piece op _ (.key d k)
  | store (a : Address) (w : Word) : Piece op _ (.store a w)
  | settled (ready : Contents .acr → Bool) (writes : op.writes? = some .acr) :
      Piece op _ (.readUntil .acr ready)

abbrev Composed (op : Operation) (p : Procedure α) : Prop := Procedure.Composed op.Piece α p

section Composed
variable {op : Operation}

theorem wait_composed (op : Operation) : op.Composed .waitUntilIdle := by
  apply Procedure.Composed.bind (.piece .barrier)
  intro _
  apply Procedure.Composed.bind (.piece .idle)
  intro _
  exact .result ()

theorem advance_composed (op : Operation) (a : Address) (n : Nat) :
    op.Composed (.advance a n) := by
  unfold Procedure.advance
  cases a.advance? n with
  | some b => exact .result b
  | none => exact .halt _

theorem lock_composed {d : Domain} (writes : op.writes? = some d.register) :
    op.Composed (.lock d) := by
  have lasting : d.register ≠ .sr := by cases d <;> decide
  exact .piece (.update _ writes lasting)

theorem unlock_composed {d : Domain} (writes : op.writes? = some d.register)
    (turns : op.turns? = some d) : op.Composed (.unlock d) := by
  apply (lock_composed writes).bind
  intro _
  apply Procedure.Composed.bind (.piece (.key d _ turns))
  intro _
  exact .piece (.key d _ turns)

theorem isLocked_composed {d : Domain} (reads : op.Piece _ (.read d.register)) :
    op.Composed (.isLocked d) := by
  apply Procedure.Composed.bind (.piece reads)
  intro _
  exact .result _

section Control
variable (writes : op.writes? = some .cr)
include writes

theorem update_composed (f : Contents .cr → Contents .cr) : op.Composed (.update .cr f) :=
  .piece (.update f writes (by decide))

theorem erase_composed (w : Width) (select deselect : Contents .cr → Contents .cr) :
    op.Composed (.erase w select deselect) := by
  have wait := wait_composed op
  have update := update_composed writes
  exact wait.bind fun _ => (update _).bind fun _ => (update _).bind fun _ =>
    (update _).bind fun _ => wait.bind fun _ => update _

theorem program_composed (a : Address) (w : Word) : op.Composed (.program a w) := by
  have wait := wait_composed op
  have update := update_composed writes
  have store : op.Composed (.store a w) := .piece (.store a w)
  exact wait.bind fun _ => (update _).bind fun _ => (update _).bind fun _ =>
    store.bind fun _ => wait.bind fun _ => update _

theorem programBytes_composed (a : Address) (offset : Nat) (data : List UInt8) :
    op.Composed (.programBytes a offset data) := by
  induction data generalizing offset with
  | nil => exact .result ()
  | cons b rest ih =>
    exact (advance_composed op a offset).bind fun target =>
      (program_composed writes target _).bind fun _ => ih (offset + 1)

theorem programWords_composed (a : Address) (words : List Word) :
    op.Composed (.programWords a words) := by
  induction words generalizing a with
  | nil => exact .result ()
  | cons w rest ih =>
    exact (program_composed writes a w).bind fun _ =>
      (advance_composed op a _).bind fun next => ih next

end Control

theorem programOptionBytes_composed (v : Contents .optcr) :
    (programOptionBytes v).Composed (.programOptionBytes v) := by
  have wait := wait_composed (programOptionBytes v)
  have write : (programOptionBytes v).Composed (.write v.optionBytes) := .piece (.write _ rfl)
  have start : (programOptionBytes v).Composed (.update .optcr (·.set .optstrt true)) :=
    .piece (.update _ rfl (by decide))
  have rest := write.bind fun _ => start.bind fun _ => wait
  apply wait.bind
  intro _
  apply (isLocked_composed (.read (.inr rfl))).bind
  intro locked
  cases locked with
  | true => exact (unlock_composed rfl rfl).bind fun _ => rest
  | false => exact rest

theorem clear_composed (writes : op.writes? = some .sr) (c : Clearable) :
    op.Composed (.clear c) := .piece (.write _ writes)

theorem clearStatus_composed : clearStatus.Composed .clearStatus := by
  have clear : ∀ c, clearStatus.Composed (.clear c) := clear_composed rfl
  exact (clear _).bind fun _ => (clear _).bind fun _ => (clear _).bind fun _ =>
    (clear _).bind fun _ => clear _

theorem setWaitStates_composed (n : UInt8) :
    (setWaitStates n).Composed (.setWaitStates n) := by
  apply Procedure.Composed.bind (.piece (.read (.inl rfl)))
  intro v
  apply Procedure.Composed.bind (.piece (.write _ rfl))
  intro _
  apply Procedure.Composed.bind (.piece (.settled _ rfl))
  intro _
  exact .result ()

theorem resetAccelerator_composed : resetAccelerator.Composed .resetAccelerator := by
  have write : ∀ v : Contents .acr, resetAccelerator.Composed (.write v) :=
    fun v => .piece (.write v rfl)
  apply Procedure.Composed.bind (.piece (.read (.inl rfl)))
  intro v
  exact (write _).bind fun _ => write _

/-- Every operation is put together from its pieces. -/
theorem procedure_composed (device : Device) (op : Operation) :
    op.Composed (op.procedure device) := by
  cases op with
  | waitUntilIdle => exact (wait_composed _).map _
  | pollIdle =>
    have poll : pollIdle.Composed .pollIdle :=
      Procedure.Composed.bind (.piece .barrier) fun _ =>
        Procedure.Composed.bind (.piece (.look rfl)) fun _ => .result _
    exact poll.map _
  | lock d => exact (lock_composed rfl).map _
  | unlock d => exact (unlock_composed rfl rfl).map _
  | isLocked d => exact (isLocked_composed (.look rfl)).map _
  | ensureUnlocked d =>
    have ensure : (ensureUnlocked d).Composed (.ensureUnlocked d) :=
      (isLocked_composed (.look rfl)).bind fun _ => .result _
    exact ensure.map _
  | eraseAll w => exact (erase_composed rfl w _ _).map _
  | eraseSector n w => exact (erase_composed rfl w _ _).map _
  | program a w => exact (program_composed rfl a w).map _
  | programBlock a data => exact (programBytes_composed rfl a 0 data).map _
  | programBlockWide a data limit => exact (programWords_composed rfl a _).map _
  | programOptionBytes v => exact (programOptionBytes_composed v).map _
  | optionBytes => exact Procedure.Composed.map (.piece (.look rfl)) _
  | status => exact Procedure.Composed.map (.piece (.look rfl)) _
  | clear c => exact (clear_composed rfl c).map _
  | clearStatus => exact clearStatus_composed.map _
  | setWaitStates n => exact (setWaitStates_composed n).map _
  | setPrefetch on => exact Procedure.Composed.map (.piece (.update _ rfl (by decide))) _
  | setAccelerator on => exact Procedure.Composed.map (.piece (.update _ rfl (by decide))) _
  | resetAccelerator => exact resetAccelerator_composed.map _

end Composed

/-- The moves of an operation. -/
def makes (op : Operation) : Move → Prop
  | .act (.read r) => r = .sr → op.looks? = some .sr
  | .act (.write r _) => op.writes? = some r
  | .act (.key d _) => op.turns? = some d
  | .act .barrier | .act (.store _ _) => True
  | .await .sr ready => ready = fun v => !v.has .bsy
  | .await .acr _ => op.writes? = some .acr
  | .await .cr _ | .await .optcr _ => False

theorem Piece.makes {op : Operation} {p : Procedure α} (h : op.Piece α p) : p.Makes op.makes := by
  cases h with
  | barrier => exact ⟨trivial, fun _ => trivial⟩
  | idle => exact ⟨rfl, fun _ => trivial⟩
  | look looks => exact ⟨fun same => same ▸ looks, fun _ => trivial⟩
  | read plain =>
    refine ⟨?_, fun _ => trivial⟩
    rintro rfl
    rcases plain with plain | plain <;> contradiction
  | write v writes => exact ⟨writes, fun _ => trivial⟩
  | update f writes lasting =>
    exact ⟨fun same => absurd same lasting, fun _ => ⟨writes, fun _ => trivial⟩⟩
  | key d k turns => exact ⟨turns, fun _ => trivial⟩
  | store a w => exact ⟨trivial, fun _ => trivial⟩
  | settled ready writes => exact ⟨writes, fun _ => trivial⟩

/-- Every operation keeps to its moves. -/
theorem procedure_makes (device : Device) (op : Operation) :
    (op.procedure device).Makes op.makes :=
  (op.procedure_composed device).makes fun _ _ => Piece.makes

end Operation
end FlashController
