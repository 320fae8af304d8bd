import FlashController.Proofs.Simulator.Conduct
import Mathlib.Data.List.Pairwise

/-! Programming in any order. Whatever is programmed comes to single bytes, each of which can only
clear bits of its own cell, so all orders leave the same memory, and a repetition changes nothing.
The flags depend on the order only through bytes that share a cell. -/
namespace FlashController

theorem Memory.ext {m n : Memory} (same : ∀ i, m.get? i = n.get? i) : m = n := by
  cases m
  cases n
  exact congrArg Memory.mk (Array.ext_getElem? same)

namespace Contents

/-- Several flags raised at once. -/
def raised (v : Contents r) (flags : List (Flag r)) : Contents r := ⟨v.raw ||| maskOf flags⟩

theorem set_true (v : Contents r) (f : Flag r) : v.set f true = ⟨v.raw ||| f.mask⟩ := by
  apply eq_of_bits
  intro i
  rw [getLsbD_set, BitVec.getLsbD_or, Flag.getLsbD_mask]
  by_cases here : f.bit = i
  · simp [here]
  · simp [here]

theorem raised_nil (v : Contents r) : v.raised [] = v := Contents.ext BitVec.or_zero

theorem raised_comm (v : Contents r) (these those : List (Flag r)) :
    (v.raised these).raised those = (v.raised those).raised these := by
  simp only [raised, BitVec.or_assoc, BitVec.or_comm (maskOf these)]

theorem maskOf_append (these those : List (Flag r)) :
    maskOf (these ++ those) = maskOf these ||| maskOf those := by
  induction these with
  | nil => exact BitVec.zero_or.symm
  | cons f rest ih =>
    have first : maskOf (f :: rest) = f.mask ||| maskOf rest := rfl
    rw [first, BitVec.or_assoc, ← ih]
    rfl

theorem raised_raised (v : Contents r) (these those : List (Flag r)) :
    (v.raised these).raised those = v.raised (these ++ those) := by
  simp only [raised, maskOf_append, BitVec.or_assoc]

end Contents

namespace Simulator
variable {device : Device}

/-- What programming comes to: a byte for one cell, or a word refused for its alignment. -/
inductive Mark
  | byte (offset : Nat) (b : UInt8)
  | misaligned

namespace Mark

def offset? : Mark → Option Nat
  | .byte offset _ => some offset
  | .misaligned => none

def apply : Mark → Simulator device → Simulator device
  | .byte offset b, s => burnByte offset b s
  | .misaligned, s => raise .pgaerr s

/-- What the mark does to the memory. -/
def lower (guards : Nat → Bool) : Mark → Memory → Memory
  | .byte offset b, m => if guards offset then m else m.merge (· &&& ·) offset [b]
  | .misaligned, m => m

/-- The flags that the mark raises. -/
def reports (guards : Nat → Bool) (m : Memory) : Mark → List (Flag .sr)
  | .byte offset b =>
    if guards offset then [.wrperr]
    else if obstructed m offset [b] then [.pgperr, .eop] else [.eop]
  | .misaligned => [.pgaerr]

/-- The bits that the mark leaves as they are, cell by cell. -/
def pattern (guards : Nat → Bool) (i : Nat) : Mark → UInt8
  | .byte offset b => if guards offset = false ∧ i = offset then b else 0xFF
  | .misaligned => 0xFF

/-- No cell is the one of both marks. -/
def Apart (p q : Mark) : Prop := ∀ i, ¬ (p.offset? = some i ∧ q.offset? = some i)

def Commute (device : Device) (p q : Mark) : Prop :=
  ∀ s : Simulator device, p.apply (q.apply s) = q.apply (p.apply s)

instance : Std.Symm (Commute device) where
  symm _ _ h s := (h s).symm

theorem apply_eq (p : Mark) (s : Simulator device) : p.apply s = { s with
    memory := p.lower s.guards s.memory
    flags := s.flags.raised (p.reports s.guards s.memory) } := by
  have single (f : Flag .sr) : s.flags.raised [f] = s.flags.set f true := by
    simp [Contents.raised, Contents.set_true, maskOf]
  cases p with
  | misaligned =>
    simp only [apply, lower, reports, single]
    rfl
  | byte offset b =>
    simp only [apply, burnByte, lower, reports]
    by_cases guarded : s.guards offset = true
    · simp only [if_pos guarded, single]
      rfl
    · simp only [if_neg guarded, Simulator.reports]
      by_cases obstacle : obstructed s.memory offset [b] = true
      · simp [obstacle, Contents.raised, Contents.set_true, maskOf, BitVec.or_assoc]
      · simp [obstacle, single]

section
variable {p q : Mark}

theorem and_full (x : UInt8) : x &&& 0xFF = x := UInt8.and_neg_one

theorem get?_lower (guards : Nat → Bool) (p : Mark) (m : Memory) (i : Nat) :
    (p.lower guards m).get? i = (m.get? i).map (· &&& p.pattern guards i) := by
  cases p with
  | misaligned => simp [lower, pattern, and_full]
  | byte offset b =>
    cases guarded : guards offset with
    | true => simp [lower, pattern, guarded, and_full]
    | false =>
      simp only [lower, pattern, guarded, Bool.false_eq_true, if_false, true_and]
      by_cases here : i = offset
      · simp [here, Memory.get?_merge]
      · rw [Memory.get?_merge_outside _ _ (by rw [List.length_singleton]; omega)]
        simp [here, and_full]

theorem lower_comm (guards : Nat → Bool) (p q : Mark) (m : Memory) :
    p.lower guards (q.lower guards m) = q.lower guards (p.lower guards m) := by
  apply Memory.ext
  intro i
  simp only [get?_lower, Option.map_map]
  congr 1
  funext x
  simp only [Function.comp, UInt8.and_assoc, UInt8.and_comm (p.pattern guards i)]

theorem lower_lower (guards : Nat → Bool) (p : Mark) (m : Memory) :
    p.lower guards (p.lower guards m) = p.lower guards m := by
  apply Memory.ext
  intro i
  simp only [get?_lower, Option.map_map]
  congr 1
  funext x
  simp only [Function.comp, UInt8.and_assoc, UInt8.and_self]

theorem obstructed_single (m : Memory) (offset : Nat) (b : UInt8) :
    obstructed m offset [b] = (m.get? offset).any fun old => old &&& b != b := by
  simp [obstructed]

/-- A mark looks at its own cell only. -/
theorem reports_lower (guards : Nat → Bool) (apart : p.Apart q) (m : Memory) :
    p.reports guards (q.lower guards m) = p.reports guards m := by
  cases p with
  | misaligned => rfl
  | byte offset b =>
    have other : (q.lower guards m).get? offset = m.get? offset := by
      cases q with
      | misaligned => rfl
      | byte place c =>
        have apart : offset ≠ place := fun same => apart offset ⟨rfl, congrArg some same.symm⟩
        simp [get?_lower, pattern, apart, and_full]
    simp only [reports, obstructed_single, other]

theorem Apart.commute (apart : p.Apart q) : p.Commute device q := by
  intro s
  have turned : q.Apart p := fun i both => apart i both.symm
  have memory := lower_comm s.guards p q s.memory
  have flags := s.flags.raised_comm (q.reports s.guards s.memory) (p.reports s.guards s.memory)
  have first := reports_lower s.guards apart s.memory
  have second := reports_lower s.guards turned s.memory
  rw [apply_eq q s, apply_eq p s, apply_eq, apply_eq]
  show ({ s with
    memory := p.lower s.guards (q.lower s.guards s.memory)
    flags := (s.flags.raised (q.reports s.guards s.memory)).raised
      (p.reports s.guards (q.lower s.guards s.memory)) } : Simulator device) = { s with
    memory := q.lower s.guards (p.lower s.guards s.memory)
    flags := (s.flags.raised (p.reports s.guards s.memory)).raised
      (q.reports s.guards (p.lower s.guards s.memory)) }
  rw [first, second, memory, flags]

end
end Mark

/-- Data from an offset on, as marks. -/
def bytesAt (offset : Nat) (data : List UInt8) : List Mark :=
  (data.zipIdx offset).map fun (b, i) => .byte i b

def marked (marks : List Mark) (s : Simulator device) : Simulator device :=
  marks.foldl (fun s mark => mark.apply s) s

/-- What marks together do to the memory. -/
def lowered (guards : Nat → Bool) (marks : List Mark) (m : Memory) : Memory :=
  marks.foldl (fun m mark => mark.lower guards m) m

theorem burnBytes_marked (offset : Nat) (data : List UInt8) (s : Simulator device) :
    burnBytes offset data s = marked (bytesAt offset data) s := by
  induction data generalizing offset s with
  | nil => rfl
  | cons b rest ih =>
    simp only [burnBytes, ih, marked, bytesAt, List.zipIdx_cons, List.map_cons, List.foldl_cons]
    rfl

theorem mem_bytesAt_iff {offset : Nat} {data : List UInt8} {p : Mark} :
    p ∈ bytesAt offset data ↔ ∃ i b, data[i]? = some b ∧ p = .byte (offset + i) b := by
  simp only [bytesAt, List.mem_map, Prod.exists, List.mk_mem_zipIdx_iff_le_and_getElem?_sub]
  constructor
  · rintro ⟨b, j, ⟨low, here⟩, rfl⟩
    exact ⟨j - offset, b, here, by rw [Nat.add_sub_cancel' low]⟩
  · rintro ⟨i, b, here, rfl⟩
    exact ⟨b, offset + i, ⟨Nat.le_add_right _ _, by rwa [Nat.add_sub_cancel_left]⟩, rfl⟩

theorem mem_bytesAt {offset i : Nat} {data : List UInt8} {p : Mark}
    (member : p ∈ bytesAt offset data) (place : p.offset? = some i) :
    offset ≤ i ∧ i < offset + data.length := by
  obtain ⟨j, b, here, rfl⟩ := mem_bytesAt_iff.mp member
  obtain ⟨small, _⟩ := List.getElem?_eq_some_iff.mp here
  obtain rfl : offset + j = i := Option.some.inj place
  exact ⟨Nat.le_add_right _ _, Nat.add_lt_add_left small offset⟩

/-- Data hits no cell twice. -/
theorem pairwise_bytesAt (offset : Nat) (data : List UInt8) :
    (bytesAt offset data).Pairwise Mark.Apart := by
  induction data generalizing offset with
  | nil => exact .nil
  | cons b rest ih =>
    rw [bytesAt, List.zipIdx_cons, List.map_cons, List.pairwise_cons]
    refine ⟨fun q member i both => ?_, ih (offset + 1)⟩
    obtain rfl : offset = i := Option.some.inj both.1
    exact absurd (mem_bytesAt member both.2).1 (Nat.not_succ_le_self offset)

section
variable {marks others : List Mark}

theorem guards_apply (p : Mark) (s : Simulator device) : (p.apply s).guards = s.guards := by
  rw [p.apply_eq]
  rfl

theorem guards_marked (marks : List Mark) (s : Simulator device) :
    (marked marks s).guards = s.guards := by
  induction marks generalizing s with
  | nil => rfl
  | cons p rest ih => exact (ih (p.apply s)).trans (guards_apply p s)

theorem memory_marked (marks : List Mark) (s : Simulator device) :
    (marked marks s).memory = lowered s.guards marks s.memory := by
  induction marks generalizing s with
  | nil => rfl
  | cons p rest ih =>
    have first : (p.apply s).memory = p.lower s.guards s.memory := by rw [p.apply_eq]
    refine (ih (p.apply s)).trans ?_
    rw [guards_apply, first]
    rfl

theorem lowered_perm (guards : Nat → Bool) (perm : marks.Perm others) (m : Memory) :
    lowered guards marks m = lowered guards others m :=
  perm.foldl_eq' (fun p _ q _ m => Mark.lower_comm guards q p m) m

theorem lowered_lower (guards : Nat → Bool) (marks : List Mark) (p : Mark) (m : Memory) :
    lowered guards marks (p.lower guards m) = p.lower guards (lowered guards marks m) := by
  induction marks generalizing m with
  | nil => rfl
  | cons q rest ih =>
    show lowered guards rest (q.lower guards (p.lower guards m)) = _
    rw [Mark.lower_comm]
    exact ih _

/-- What is clear already stays as it is. -/
theorem lowered_lowered (guards : Nat → Bool) (marks : List Mark) (m : Memory) :
    lowered guards marks (lowered guards marks m) = lowered guards marks m := by
  induction marks generalizing m with
  | nil => rfl
  | cons p rest ih =>
    show lowered guards rest (p.lower guards (lowered guards rest (p.lower guards m))) =
      lowered guards rest (p.lower guards m)
    rw [← lowered_lower, Mark.lower_lower]
    exact ih _

theorem marked_perm (apart : marks.Pairwise Mark.Apart) (perm : marks.Perm others)
    (s : Simulator device) : marked marks s = marked others s := by
  have commute : ∀ p ∈ marks, ∀ q ∈ marks, p.Commute device q :=
    List.Pairwise.forall_of_forall (fun _ _ _ => rfl) (apart.imp Mark.Apart.commute)
  exact perm.foldl_eq' (fun p hp q hq s => commute q hq p hp s) s

/-- The marks neither look at the control register nor at the busy count. -/
theorem marked_with (marks : List Mark) (cr : Contents .cr) (busy : Nat) (s : Simulator device) :
    marked marks ({ s with cr, busy } : Simulator device) = { marked marks s with cr, busy } := by
  induction marks generalizing s with
  | nil => rfl
  | cons p rest ih =>
    have first : p.apply ({ s with cr, busy } : Simulator device) =
        { p.apply s with cr, busy } := by
      rw [p.apply_eq, p.apply_eq]
      rfl
    exact (congrArg (marked rest) first).trans (ih (p.apply s))

end

end Simulator

namespace Operation
open Simulator

def marks : Operation → List Mark
  | .program a w =>
    if a.toNat % w.width.bytes = 0 then bytesAt (a.toNat - flashStart) w.bytes else [.misaligned]
  | .programBlock a data | .programBlockWide a data _ => bytesAt (a.toNat - flashStart) data
  | _ => []

/-- An address is one of those that the operation stores at. -/
def Covers (op : Operation) (i : Nat) : Prop :=
  ∃ a data, op.stores? = some (a, data) ∧ a.toNat ≤ i ∧ i < a.toNat + data.length

def Disjoint (p q : Operation) : Prop := ∀ i, ¬ (p.Covers i ∧ q.Covers i)

/-- A call to program something, all of it inside the memory. -/
def Programs (op : Operation) : Prop := op.stores?.isSome ∧ op.Inside

instance (op : Operation) : Decidable op.Programs := inferInstanceAs (Decidable (_ ∧ _))

section
variable {op : Operation} {ops : List Operation}

theorem covers_of_mem_marks (programs : op.Programs) {p : Mark} {i : Nat} (member : p ∈ op.marks)
    (place : p.offset? = some i) : op.Covers (flashStart + i) := by
  have covers {a : Address} {data : List UInt8} (stores : op.stores? = some (a, data))
      (low : data ≠ [] → flashStart ≤ a.toNat)
      (member : p ∈ bytesAt (a.toNat - flashStart) data) : op.Covers (flashStart + i) := by
    obtain ⟨above, below⟩ := mem_bytesAt member place
    have low := low (List.ne_nil_of_length_pos (by omega))
    exact ⟨a, data, stores, by omega, by omega⟩
  obtain ⟨stores, inside⟩ := programs
  cases op with
  | program a w =>
    rw [marks] at member
    split at member
    · exact covers rfl (fun _ => inside.1) member
    · rw [List.mem_singleton.mp member] at place
      contradiction
  | programBlock a data | programBlockWide a data _ =>
    exact covers rfl (fun some => (inside some).1) member
  | _ => cases stores

theorem pairwise_marks (op : Operation) : op.marks.Pairwise Mark.Apart := by
  cases op with
  | program a w =>
    rw [marks]
    split
    · exact pairwise_bytesAt _ _
    · exact List.pairwise_singleton _ _
  | programBlock a data | programBlockWide a data _ => exact pairwise_bytesAt _ _
  | _ => exact .nil

/-- Calls that have no address in common hit no cell twice. -/
theorem pairwise_flatMap_marks (programs : ∀ op ∈ ops, op.Programs)
    (disjoint : ops.Pairwise Disjoint) : (ops.flatMap marks).Pairwise Mark.Apart := by
  refine List.pairwise_flatMap.mpr ⟨fun op _ => op.pairwise_marks, ?_⟩
  refine disjoint.imp_of_mem fun {p q} p_mem q_mem apart x x_mem y y_mem i both => ?_
  exact apart (flashStart + i) ⟨covers_of_mem_marks (programs p p_mem) x_mem both.1,
    covers_of_mem_marks (programs q q_mem) y_mem both.2⟩

end
end Operation

namespace Simulator

/-- Two states that differ at most in the busy count and in how the control register, unlocked
in the second, is set up. -/
def SetUpFrom (s t : Simulator device) : Prop :=
  ∃ cr busy, cr.has .lock = false ∧ t = { s with cr, busy }

section
variable {s t : Simulator device} {op : Operation} {ops : List Operation}

theorem SetUpFrom.unlocked (h : SetUpFrom s t) : t.isLocked .main = false := by
  obtain ⟨cr, busy, unlocked, rfl⟩ := h
  exact unlocked

theorem SetUpFrom.memory (h : SetUpFrom s t) : t.memory = s.memory := by
  obtain ⟨_, _, _, rfl⟩ := h
  rfl

theorem SetUpFrom.flags (h : SetUpFrom s t) : t.flags = s.flags := by
  obtain ⟨_, _, _, rfl⟩ := h
  rfl

theorem SetUpFrom.guards (h : SetUpFrom s t) : t.guards = s.guards := by
  obtain ⟨_, _, _, rfl⟩ := h
  rfl

theorem SetUpFrom.marked (h : SetUpFrom s t) (marks : List Mark) :
    SetUpFrom (marked marks s) (marked marks t) := by
  obtain ⟨cr, busy, unlocked, rfl⟩ := h
  exact ⟨cr, busy, unlocked, marked_with marks cr busy s⟩

theorem SetUpFrom.trans {u : Simulator device} (first : SetUpFrom s t) (second : SetUpFrom t u) :
    SetUpFrom s u := by
  obtain ⟨_, _, _, rfl⟩ := first
  obtain ⟨cr, busy, unlocked, rfl⟩ := second
  exact ⟨cr, busy, unlocked, rfl⟩

theorem programmed_setUp (w : Width) (unlocked : s.isLocked .main = false)
    {effect : Simulator device → Simulator device} {marks : List Mark}
    (same : effect s = marked marks s) : SetUpFrom (marked marks s) (programmed w effect s) := by
  rw [programmed_unlocked unlocked, same]
  exact ⟨_, 0, (has_lock_setUp s.cr w false).trans unlocked, rfl⟩

theorem wordsProgrammed_setUp (a : Address) (words : List Word)
    (unlocked : s.isLocked .main = false) :
    SetUpFrom (marked (bytesAt (a.toNat - flashStart) (words.flatMap Word.bytes)) s)
      (wordsProgrammed a words s) := by
  obtain ⟨empty, none⟩ | ⟨w, block⟩ := wordsProgrammed_cases a words
  · rw [none, empty]
    exact ⟨s.cr, s.busy, unlocked, rfl⟩
  · rw [block]
    exact programmed_setUp w unlocked (burnBytes_marked _ _ s)

/-- An unlocked controller takes the marks of a call, and is set up for it on the way. -/
theorem effect_setUp (programs : op.Programs) (unlocked : s.isLocked .main = false) :
    SetUpFrom (marked op.marks s) (effect op s) := by
  obtain ⟨stores, _⟩ := programs
  cases op with
  | program a w =>
    refine programmed_setUp w.width unlocked ?_
    by_cases aligned : a.toNat % w.width.bytes = 0
    · simp only [stored, Operation.marks, if_pos aligned, burnBytes_marked]
    · simp only [stored, Operation.marks, if_neg aligned]
      rfl
  | programBlock a data =>
    have words := wordsProgrammed_setUp a (data.map Word.ofByte) unlocked
    rwa [bytes_map_ofByte] at words
  | programBlockWide a data limit =>
    have words := wordsProgrammed_setUp a (tile a.toNat data limit) unlocked
    rwa [bytes_tile] at words
  | _ => cases stores

def effects (ops : List Operation) (s : Simulator device) : Simulator device :=
  ops.foldl (fun s op => effect op s) s

theorem effects_setUp (programs : ∀ op ∈ ops, op.Programs) (unlocked : s.isLocked .main = false) :
    SetUpFrom (marked (ops.flatMap Operation.marks) s) (effects ops s) := by
  induction ops generalizing s with
  | nil => exact ⟨s.cr, s.busy, unlocked, rfl⟩
  | cons op rest ih =>
    obtain ⟨here, later⟩ := List.forall_mem_cons.mp programs
    have first := effect_setUp here unlocked
    have second := ih later first.unlocked
    rw [List.flatMap_cons, marked, List.foldl_append]
    exact (first.marked (rest.flatMap Operation.marks)).trans second

theorem effect_completes (h : Quiet s) (programs : op.Programs) :
    Completes (op.procedure device) s .done (effect op s) := by
  obtain ⟨stores, inside⟩ := programs
  have run := operation_completes h op inside
  cases op with
  | program | programBlock | programBlockWide => exact run nofun
  | _ => cases stores

theorem effects_plays (h : Quiet s) (programs : ∀ op ∈ ops, op.Programs) :
    Plays (.ofList ops) s (List.replicate ops.length .done) (effects ops s) := by
  induction ops generalizing s with
  | nil => exact plays_done s
  | cons op rest ih =>
    obtain ⟨here, later⟩ := List.forall_mem_cons.mp programs
    have first := effect_completes h here
    exact .step first (ih (h.run first) later)

theorem Quiet.effects (h : Quiet s) (programs : ∀ op ∈ ops, op.Programs) :
    Quiet (effects ops s) := by
  induction ops generalizing s with
  | nil => exact h
  | cons op rest ih =>
    obtain ⟨here, later⟩ := List.forall_mem_cons.mp programs
    exact ih (h.run (effect_completes h here)) later

/-- Calls to program something, in whatever order and once or twice, leave the same memory. Without
a common address they also leave the same flags. -/
theorem programming_order (h : Reachable s) (unlocked : s.isLocked .main = false)
    {others : List Operation} (programs : ∀ op ∈ ops, op.Programs) (perm : ops.Perm others) :
    ∃ t u v, Plays (.ofList ops) s (List.replicate ops.length .done) t ∧
      Plays (.ofList others) s (List.replicate ops.length .done) u ∧
      Plays (.ofList ops) t (List.replicate ops.length .done) v ∧
      u.memory = t.memory ∧ v.memory = t.memory ∧
      (ops.Pairwise Operation.Disjoint → u.flags = t.flags) := by
  have programs' : ∀ op ∈ others, op.Programs := fun op member =>
    programs op (perm.mem_iff.mpr member)
  have marks := perm.flatMap_right Operation.marks
  have first := effects_setUp programs unlocked
  have second := effects_setUp programs' unlocked
  have again := effects_setUp programs first.unlocked
  refine ⟨effects ops s, effects others s, effects ops (effects ops s),
    effects_plays h.quiet programs, ?_, effects_plays (h.quiet.effects programs) programs, ?_, ?_,
    ?_⟩
  · rw [perm.length_eq]
    exact effects_plays h.quiet programs'
  · rw [second.memory, first.memory, memory_marked, memory_marked, lowered_perm _ marks]
  · have guards := first.guards.trans (guards_marked _ s)
    rw [again.memory, memory_marked, guards, first.memory, memory_marked, lowered_lowered]
  · intro disjoint
    rw [second.flags, first.flags,
      marked_perm (Operation.pairwise_flatMap_marks programs disjoint) marks]

/-- A word that is not aligned and two blocks that overlap, in a memory that was not erased. -/
theorem programming_order_reversed :
    let s : Simulator .generic := afterAll [
      .access (.key .main (Domain.firstKey .main)),
      .access (.key .main (Domain.secondKey .main))] (new .generic)
    let ops : List Operation := [
      .program ⟨0x08000001, by decide⟩ (.ofBytes .x16 [0x34, 0x12]),
      .programBlockWide ⟨0x08007FFE, by decide⟩ [0x5A, 0x00, 0xFF, 0x77] .x32,
      .programBlock ⟨0x08007FFD, by decide⟩ [0x0F, 0xF0]]
    s.isLocked .main = false ∧ (∀ op ∈ ops, op.Programs) ∧ ops.Perm ops.reverse ∧
      ∃ t u v, Plays (.ofList ops) s (List.replicate ops.length .done) t ∧
        Plays (.ofList ops.reverse) s (List.replicate ops.length .done) u ∧
        Plays (.ofList ops) t (List.replicate ops.length .done) v ∧
        u.memory = t.memory ∧ v.memory = t.memory ∧
        (ops.Pairwise Operation.Disjoint → u.flags = t.flags) := by
  intro s ops
  have reachable : Reachable s := (Reachable.start (Register.atReset .optcr)).calls _
  have unlocked : s.isLocked .main = false := by decide
  have programs : ∀ op ∈ ops, op.Programs := by decide
  have perm : ops.Perm ops.reverse := ops.reverse_perm.symm
  exact ⟨unlocked, programs, perm, programming_order reachable unlocked programs perm⟩

end
end Simulator
end FlashController
