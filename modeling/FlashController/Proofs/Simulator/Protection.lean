import FlashController.Proofs.Script
import FlashController.Proofs.Simulator.Erasing
import FlashController.Proofs.Simulator.LockSafety
import FlashController.Proofs.Simulator.Programming

/-! Write protection. Bytes of a protected sector outlive everything but a reset with other option
bytes; any other byte changes in one of two ways, by a store that clears bits or by an erase. -/
namespace FlashController.Simulator
variable {device : Device}

/-- Writing contents to the control register starts an erase. -/
def Starts (v : Contents .cr) (s : Simulator device) : Prop :=
  s.isLocked .main = false ∧ v.has .strt = true ∧ s.cr.has .strt = false

/-- The ways in which one access can change the memory. -/
inductive Evolves (s : Simulator device) (m : Memory) : Access → Prop
  | same {a : Access} (kept : m = s.memory) : Evolves s m a
  /-- No bit goes from zero to one. -/
  | programmed {a : Address} {w : Word}
      (lowered : ∀ i, ∃ b, m.get? i = (s.memory.get? i).map (· &&& b)) : Evolves s m (.store a w)
  | erased {v : Contents .cr} (starts : Starts v s)
      (blank : ∀ sector ∈ selected device v, ∀ i, sector.Covers i → m.get? i = some 0xFF)
      (kept : ∀ i, (∀ sector ∈ selected device v, ¬ sector.Covers i) →
        m.get? i = s.memory.get? i) : Evolves s m (.write .cr v)

/-- The same sectors are protected in both states, and their bytes are the same. -/
structure SameProtected (s t : Simulator device) : Prop where
  active : t.active = s.active
  bytes : ∀ sector, s.isProtected sector = true → ∀ i, sector.Covers i →
    t.memory.get? i = s.memory.get? i

namespace SameProtected
variable {s t u : Simulator device}

theorem of_eq (active : t.active = s.active) (memory : t.memory = s.memory) : SameProtected s t :=
  ⟨active, fun _ _ _ _ => by rw [memory]⟩

theorem trans (first : SameProtected s t) (second : SameProtected t u) : SameProtected s u := by
  refine ⟨second.active.trans first.active, fun sector guarded i covers => ?_⟩
  have still : t.isProtected sector = true := by rwa [isProtected, first.active]
  exact (second.bytes sector still i covers).trans (first.bytes sector guarded i covers)

end SameProtected

section Erase
variable {v : Contents .cr} {s : Simulator device}

theorem acceptControl_memory (v : Contents .cr) (s : Simulator device) :
    (acceptControl v s).memory = s.memory ∨
      (v.has .strt = true ∧ s.cr.has .strt = false ∧
        (acceptControl v s).memory = (erased v s).memory) := by
  simp only [acceptControl]
  by_cases rises : (v.has .strt && !s.cr.has .strt) = true
  · rw [if_pos rises, triggerErase_eq, erased_eq, erased_eq]
    simp only [Bool.and_eq_true, Bool.not_eq_true'] at rises
    exact .inr ⟨rises.1, rises.2, rfl⟩
  · rw [if_neg rises]
    exact .inl rfl

/-- Only a write that starts an erase changes the memory. -/
theorem writeControl_memory (v : Contents .cr) (s : Simulator device) :
    (leaves (writeRegister .cr v) s).memory = s.memory ∨
      (Starts v s ∧ (leaves (writeRegister .cr v) s).memory = (erased v s).memory) := by
  obtain ⟨_, _, same⟩ | ⟨lock, violations, events, accepted⟩ := writeControl_leaves v s
  · rw [same]
    exact .inl rfl
  · rw [accepted]
    obtain kept | ⟨start, calm, changed⟩ := acceptControl_memory v { s with violations, events }
    · exact .inl kept
    · refine .inr ⟨⟨lock, start, calm⟩, changed.trans ?_⟩
      rw [erased_eq, erased_eq]
      rfl

theorem erased_protected (v : Contents .cr) {sector : Sector}
    (guarded : s.isProtected sector = true) {i : Nat} (covers : sector.Covers i) :
    (erased v s).memory.get? i = s.memory.get? i := by
  rw [erased_eq]
  show (if _ then _ else _ : Memory).get? i = _
  split
  · rfl
  · rename_i free
    rw [get?_blanked, if_neg]
    rintro ⟨other, member, covers'⟩
    have same : other = sector := by
      have first := Sector.indexOfOffset_eq_iff.mpr covers
      have second := Sector.indexOfOffset_eq_iff.mpr covers'
      obtain ⟨i⟩ := other
      obtain ⟨j⟩ := sector
      exact congrArg Sector.mk (Fin.ext (second.symm.trans first))
    exact free (List.any_eq_true.mpr ⟨other, member, same ▸ guarded⟩)

/-- One protected sector keeps a mass erase from all of them. -/
theorem erased_mass (mass : v.has .mer = true)
    (guarded : ∃ sector ∈ sectors, s.isProtected sector = true) :
    (erased v s).memory = s.memory := by
  rw [erased_eq]
  show (if _ then _ else _) = _
  unfold selected
  rw [mass]
  cases v.has .ser with
  | true => exact ite_self _
  | false => exact if_pos (List.any_eq_true.mpr guarded)

theorem eraseAll_guarded (h : Sound s) (w : Width)
    (guarded : ∃ sector ∈ sectors, s.isProtected sector = true) :
    (leaves (Procedure.eraseAll w).run s).memory = s.memory := by
  cases lock : s.isLocked .main with
  | true =>
    obtain ⟨later, run⟩ := erase_locked h lock w (harmless_mass true) (harmless_mass false) s.events
    have run : (Procedure.eraseAll w).run s = _ := run
    rw [leaves_ok run]
    rfl
  | false =>
    obtain ⟨later, run⟩ :=
      erase_unlocked h lock w (harmless_mass true) (harmless_mass false) s.events
    have run : (Procedure.eraseAll w).run s = _ := run
    rw [leaves_ok run]
    exact erased_mass (starting_all w s.cr).1 guarded

end Erase

section Store
variable {a : Address} {w : Word} {s : Simulator device}

theorem storeWord_memory (a : Address) (w : Word) (s : Simulator device) :
    (leaves (storeWord a w) s).memory = s.memory ∨
      (InWindow a ∧ storeError? a w s = none ∧ (leaves (storeWord a w) s).memory =
        s.memory.merge (· &&& ·) (a.toNat - flashStart) w.bytes) := by
  obtain ⟨t, ⟨_, rfl⟩, same | ⟨inside, _, ⟨_, _, refused⟩ | ⟨free, burnt⟩⟩⟩ :=
    storeWord_leaves a w s
  · rw [same]
    exact .inl rfl
  · rw [refused]
    exact .inl rfl
  · refine .inr ⟨inside, free, ?_⟩
    rw [burnt]
    unfold burn
    split <;> rfl

/-- A store that is not refused is aligned and aims at no protected sector. -/
theorem storeError?_eq_none (inside : InWindow a) (free : storeError? a w s = none) :
    a.toNat % w.width.bytes = 0 ∧ s.guards (a.toNat - flashStart) = false := by
  unfold storeError? at free
  split at free
  · exact absurd free nofun
  · split at free
    · exact absurd free nofun
    · split at free
      · exact absurd free nofun
      · rename_i aligned
        split at free
        · exact absurd free nofun
        · rename_i unguarded
          rw [protected_iff_guards inside] at unguarded
          exact ⟨Decidable.not_not.mp aligned, Bool.eq_false_iff.mpr unguarded⟩

/-- A word lies in one sector, so the sector of its first byte decides about all of it. -/
theorem merge_protected (inside : InWindow a) (free : storeError? a w s = none) {sector : Sector}
    (guarded : s.isProtected sector = true) {i : Nat} (covers : sector.Covers i) :
    (s.memory.merge (· &&& ·) (a.toNat - flashStart) w.bytes).get? i = s.memory.get? i := by
  obtain ⟨aligned, unguarded⟩ := storeError?_eq_none inside free
  rw [Memory.get?_merge]
  split
  · rename_i low
    cases here : w.bytes[i - (a.toNat - flashStart)]? with
    | none => rfl
    | some b =>
      obtain ⟨small, _⟩ := List.getElem?_eq_some_iff.mp here
      rw [Word.length_bytes] at small
      have index := Sector.indexOfOffset_aligned w.width (offset_aligned inside aligned) small
      rw [Nat.add_sub_cancel' low, Sector.indexOfOffset_eq_iff.mpr covers] at index
      have named := Sector.ofIndex?_eq_some_iff.mpr index
      rw [guards, named, Option.any_some, guarded] at unguarded
      contradiction
  · rfl

end Store

section Access
variable {s : Simulator device}

/-- An access changes the memory only as a store or as the start of an erase, and the option bytes
in force not at all. -/
theorem perform_memory (a : Access) (s : Simulator device) :
    (leaves (Machine.perform a) s).active = s.active ∧
    ((leaves (Machine.perform a) s).memory = s.memory ∨
    (∃ b w, a = .store b w ∧ InWindow b ∧ storeError? b w s = none ∧
      (leaves (Machine.perform a) s).memory =
        s.memory.merge (· &&& ·) (b.toNat - flashStart) w.bytes) ∨
    ∃ v, a = .write .cr v ∧ Starts v s ∧
      (leaves (Machine.perform a) s).memory = (erased v s).memory) := by
  cases a with
  | read r =>
    obtain ⟨busy, events, frame, _⟩ := read_frame r s
    rw [frame]
    exact ⟨rfl, .inl rfl⟩
  | barrier => exact ⟨rfl, .inl rfl⟩
  | key d k => cases d <;> exact ⟨rfl, .inl rfl⟩
  | store a w =>
    obtain ⟨memory, flags, busy, violations, events, frame, _⟩ := storeWord_frame a w s
    refine ⟨(congrArg active frame : _), ?_⟩
    obtain kept | ⟨inside, free, merged⟩ := storeWord_memory a w s
    · exact .inl kept
    · exact .inr (.inl ⟨a, w, rfl, inside, free, merged⟩)
  | write r v =>
    cases r with
    | sr | acr => exact ⟨rfl, .inl rfl⟩
    | cr =>
      have kept : (leaves (writeRegister .cr v) s).active = s.active := by
        obtain ⟨t, lost, _, rfl⟩ | ⟨memory, flags, busy, violations, events, written, _⟩ :=
          writeControl_frame v s
        · rw [leaves_error lost]
        · rw [leaves_ok written]
      refine ⟨kept, ?_⟩
      obtain same | ⟨starts, changed⟩ := writeControl_memory v s
      · exact .inl same
      · exact .inr (.inr ⟨v, rfl, starts, changed⟩)
    | optcr =>
      obtain ⟨t, lost, _, rfl⟩ | ⟨committed, busy, violations, events, written, _⟩ :=
        writeOptions_frame v s
      · have lost : Machine.perform (.write .optcr v) s = _ := lost
        rw [leaves_error lost]
        exact ⟨rfl, .inl rfl⟩
      · have written : Machine.perform (.write .optcr v) s = _ := written
        rw [leaves_ok written]
        exact ⟨rfl, .inl rfl⟩

theorem perform_sameProtected (a : Access) (s : Simulator device) :
    SameProtected s (leaves (Machine.perform a) s) := by
  obtain ⟨same, changes⟩ := perform_memory a s
  refine ⟨same, fun sector guarded i covers => ?_⟩
  obtain kept | ⟨b, w, _, inside, free, merged⟩ | ⟨v, _, _, changed⟩ := changes
  · rw [kept]
  · rw [merged]
    exact merge_protected inside free guarded covers
  · rw [changed]
    exact erased_protected v guarded covers

theorem perform_evolves (h : Sound s) (a : Access) :
    Evolves s (leaves (Machine.perform a) s).memory a := by
  obtain kept | ⟨b, w, rfl, _, _, merged⟩ | ⟨v, rfl, starts, changed⟩ := (perform_memory a s).2
  · exact .same kept
  · refine .programmed fun i => ?_
    rw [merged, Memory.get?_merge]
    have whole : s.memory.get? i = (s.memory.get? i).map (· &&& -1) := by
      simp only [UInt8.and_neg_one, Option.map_id_fun', id]
    split
    · split
      · exact ⟨_, rfl⟩
      · exact ⟨-1, whole⟩
    · exact ⟨-1, whole⟩
  · rw [changed, erased_eq]
    show Evolves s (if _ then _ else _) _
    split
    · exact .same rfl
    · have simulated : ∀ sector ∈ selected device v, sector ∈ sectors := fun _ member =>
        selected_inside member
      have bytes := get?_blanked_chosen simulated h.memory_size
      refine .erased starts (fun sector member i covers => ?_) fun i outside => ?_
      · exact (bytes i).trans (if_pos ⟨sector, member, covers⟩)
      · refine (bytes i).trans (if_neg ?_)
        rintro ⟨sector, member, covers⟩
        exact outside sector member covers

end Access

section Calls
variable {s : Simulator device}

theorem Call.active_eq {c : Call} (other : c ≠ .control .reset) (s : Simulator device) :
    (c.after s).active = s.active := by
  cases c with
  | settle => rfl
  | access a => exact Call.after_access a s ▸ (perform_memory a s).1
  | control c =>
    show (leaves (Simulator.control c) s).active = s.active
    obtain rfl | ⟨memory, flags, busy, latency, frame, _⟩ := control_frame c s
    · exact absurd rfl other
    · rw [frame]

theorem Call.sameProtected {c : Call} (other : c ≠ .control .reset) (honest : c.fills = false)
    (s : Simulator device) : SameProtected s (c.after s) := by
  cases c with
  | settle => exact .of_eq rfl rfl
  | access a => exact Call.after_access a s ▸ perform_sameProtected a s
  | control c =>
    show SameProtected s (leaves (Simulator.control c) s)
    obtain rfl | ⟨memory, flags, busy, latency, frame, _, kept | ⟨_, _, _, rfl⟩, _⟩ :=
      control_frame c s
    · exact absurd rfl other
    · exact frame ▸ .of_eq rfl kept
    · exact absurd honest nofun

theorem afterAll_sameProtected {calls : List Call}
    (honest : ∀ c ∈ calls, c ≠ .control .reset ∧ c.fills = false) (s : Simulator device) :
    SameProtected s (afterAll calls s) := by
  induction calls generalizing s with
  | nil => exact .of_eq rfl rfl
  | cons c rest ih =>
    obtain ⟨here, later⟩ := List.forall_mem_cons.mp honest
    exact (Call.sameProtected here.1 here.2 s).trans (ih later _)

theorem play_sameProtected {β : Type} (look : Simulator device → β) (script : Script)
    (s : Simulator device) : SameProtected s (script.play device look s).final :=
  script.play_keeps (P := SameProtected s)
    (fun a _ kept => kept.trans (perform_sameProtected a _))
    (fun _ kept => kept.trans (.of_eq rfl rfl)) device look s (.of_eq rfl rfl)

end Calls

/-- Write protection, and how the memory evolves, in every state of the controller: by one access,
by an erase of everything, and over runs of calls and of the driver up to the next reset. -/
theorem write_protection {s : Simulator device} (h : Reachable s) :
    (∀ a, Evolves s ((Call.access a).after s).memory a ∧
      SameProtected s ((Call.access a).after s)) ∧
    ((∃ sector ∈ sectors, s.isProtected sector = true) →
      (∀ v, v.has .mer = true → ((Call.access (.write .cr v)).after s).memory = s.memory) ∧
      ∀ w, (leaves (Procedure.eraseAll w).run s).memory = s.memory) ∧
    (∀ c : Call, (c.after s).active ≠ s.active → c = .control .reset) ∧
    (∀ calls : List Call, (∀ c ∈ calls, c ≠ .control .reset ∧ c.fills = false) →
      SameProtected s (afterAll calls s)) ∧
    ∀ {β : Type} (look : Simulator device → β) script,
      SameProtected s (Script.play device look script s).final := by
  have sound := h.sound
  refine ⟨fun a => ?_, fun guarded => ⟨fun v mass => ?_, fun w => eraseAll_guarded sound w guarded⟩,
    fun c changed => ?_, fun calls honest => afterAll_sameProtected honest s,
    fun look script => play_sameProtected look script s⟩
  · rw [Call.after_access]
    exact ⟨perform_evolves sound a, perform_sameProtected a s⟩
  · rw [Call.after_access]
    obtain kept | ⟨_, changed⟩ := writeControl_memory v s
    · exact kept
    · exact changed.trans (erased_mass mass guarded)
  · exact Classical.byContradiction fun other => changed (Call.active_eq other s)

/-- A mass erase of an unlocked controller, sector 1 protected and a sector erase set up before. -/
theorem write_protection_mass :
    let s : Simulator .generic := afterAll [
      .access (.key .main (Domain.firstKey .main)),
      .access (.key .main (Domain.secondKey .main)),
      .access (.write .cr ⟨0x00000002⟩)] (withOptionBytes .generic ⟨0xCFFDAAEC⟩)
    Reachable s ∧ s.isLocked .main = false ∧ s.isProtected ⟨1⟩ = true ∧
      ((Call.access (.write .cr ⟨0x00010004⟩)).after s).memory = s.memory := by
  intro s
  have reachable : Reachable s := (Reachable.start ⟨0xCFFDAAEC⟩).calls _
  exact ⟨reachable, by decide, by decide,
    ((write_protection reachable).2.1 ⟨⟨1⟩, by decide, by decide⟩).1 _ (by decide)⟩

end FlashController.Simulator
