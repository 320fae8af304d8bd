import FlashController.Proofs.Recorder.Notes

/-! The fewest accesses for a range. Words that are as wide as can be end where every other way to
split the range has a boundary too, since an aligned access never reaches over the end of a wider
block that it starts in. Their widths rise up to a peak and fall after it. -/
namespace FlashController

/-- Accesses that lie one after the other from one address to another, each aligned to its width
and no wider than a limit. -/
inductive Splits (limit : Width) : Nat → List Width → Nat → Prop
  | nil (address : Nat) : Splits limit address [] address
  | cons {address stop : Nat} {w : Width} {rest : List Width} (aligned : address % w.bytes = 0)
      (small : w ≤ limit) (later : Splits limit (address + w.bytes) rest stop) :
      Splits limit address (w :: rest) stop

/-- Widths that never decrease up to some point, and never increase after it. -/
def Peaked (widths : List Width) : Prop :=
  ∃ up down, widths = up ++ down ∧ up.Pairwise (· ≤ ·) ∧ down.Pairwise fun v w => w ≤ v

namespace Width

theorem le_trans {u v w : Width} (h : u ≤ v) (h' : v ≤ w) : u ≤ w := Nat.le_trans h h'

theorem le_total (v w : Width) : v ≤ w ∨ w ≤ v := Nat.le_total v.code w.code

theorem bytes_le {v w : Width} (h : v ≤ w) : v.bytes ≤ w.bytes := by
  revert h
  cases v <;> cases w <;> decide

/-- What is aligned to a width is aligned to every smaller one. -/
theorem aligned_of_le {v w : Width} (h : v ≤ w) {address : Nat} (aligned : address % w.bytes = 0) :
    address % v.bytes = 0 := by
  have divides : v.bytes ∣ w.bytes := by
    revert h
    cases v <;> cases w <;> decide
  exact Nat.mod_eq_zero_of_dvd (Nat.dvd_trans divides (Nat.dvd_of_mod_eq_zero aligned))

end Width

theorem widestAccess_widest {address length : Nat} {limit w : Width} (small : w ≤ limit)
    (aligned : address % w.bytes = 0) (fits : w.bytes ≤ length) :
    w ≤ widestAccess address length limit := by
  have here : (decide (w ≤ limit) && address % w.bytes == 0 && decide (w.bytes ≤ length)) =
      true := by
    simp [small, aligned, fits]
  simp only [widestAccess, List.find?_cons]
  cases w with
  | x8 => exact Width.x8_le _
  | x16 =>
    rw [here]
    split
    · decide
    · split
      · decide
      · exact Nat.le_refl _
  | x32 =>
    rw [here]
    split
    · decide
    · exact Nat.le_refl _
  | x64 =>
    rw [here]
    exact Nat.le_refl _

section Splits
variable {limit : Width} {address middle stop : Nat} {pieces : List Width}

theorem Splits.nil_eq (h : Splits limit address [] stop) : address = stop := by
  cases h
  rfl

theorem Splits.le (h : Splits limit address pieces stop) : address ≤ stop := by
  induction h with
  | nil => exact Nat.le_refl _
  | cons _ _ _ ih => exact Nat.le_trans (Nat.le_add_right _ _) ih

/-- The first access is no wider than the widest one for the range. -/
theorem Splits.head_le {length : Nat} (h : Splits limit address pieces (address + length)) :
    ∀ u ∈ pieces.head?, u ≤ widestAccess address length limit := by
  cases pieces with
  | nil => exact nofun
  | cons w rest =>
    rintro u ⟨⟩
    cases h with
    | cons aligned small later =>
      have := later.le
      exact widestAccess_widest small aligned (by omega)

/-- An aligned access that starts inside a block ends inside it, unless it starts with the block
and is wider. -/
theorem access_inside {w u : Width} (block : middle % w.bytes = 0) (aligned : address % u.bytes = 0)
    (inside : address < middle) (near : middle ≤ address + w.bytes)
    (narrow : address + w.bytes = middle → u ≤ w) : address + u.bytes ≤ middle := by
  have apart : ∀ v : Width, address % v.bytes = 0 → middle % v.bytes = 0 →
      address + v.bytes ≤ middle := by
    intro v start stop
    have divides := Nat.dvd_sub (Nat.dvd_of_mod_eq_zero stop) (Nat.dvd_of_mod_eq_zero start)
    have := Nat.le_of_dvd (Nat.sub_pos_of_lt inside) divides
    omega
  rcases u.le_total w with smaller | wider
  · exact apart u aligned (Width.aligned_of_le smaller block)
  · have starts := apart w (Width.aligned_of_le wider aligned) block
    have smaller := narrow (Nat.le_antisymm starts near)
    exact apart u aligned (Width.aligned_of_le smaller block)

/-- Accesses that go past the end of a block have a boundary there. -/
theorem Splits.cut (h : Splits limit address pieces stop) {w : Width}
    (block : middle % w.bytes = 0) (low : address ≤ middle) (near : middle ≤ address + w.bytes)
    (narrow : address + w.bytes = middle → ∀ u ∈ pieces.head?, u ≤ w) (reach : middle ≤ stop) :
    ∃ before after, pieces = before ++ after ∧ Splits limit address before middle ∧
      Splits limit middle after stop := by
  induction h with
  | nil address =>
    obtain rfl : address = middle := Nat.le_antisymm low reach
    exact ⟨[], [], rfl, .nil address, .nil address⟩
  | @cons address stop u rest aligned small later ih =>
    rcases Nat.eq_or_lt_of_le low with rfl | inside
    · exact ⟨[], u :: rest, rfl, .nil address, .cons aligned small later⟩
    · have ends := access_inside block aligned inside near fun starts => narrow starts u rfl
      have positive := u.bytes_pos
      obtain ⟨before, after, rfl, first, last⟩ := ih ends (by omega) (fun _ => by omega) reach
      exact ⟨u :: before, after, rfl, .cons aligned small first, last⟩

end Splits

section Tile
variable {limit : Width} {address : Nat} {data : List UInt8}

theorem length_drop_tile {address : Nat} {w : Width} (fits : w.bytes ≤ data.length) :
    address + w.bytes + (data.drop w.bytes).length = address + data.length := by
  rw [List.length_drop]
  omega

theorem splits_tile (address : Nat) (data : List UInt8) (limit : Width) :
    Splits limit address ((tile address data limit).map Word.width) (address + data.length) := by
  fun_induction tile address data limit with
  | case1 address => exact .nil address
  | case2 address b rest w ih =>
    obtain ⟨aligned, fits⟩ := widestAccess_fits address limit (Nat.succ_pos rest.length)
    have fits : w.bytes ≤ (b :: rest).length := fits
    exact .cons aligned (widestAccess_le _ _ _) (length_drop_tile fits ▸ ih)

/-- No other way to split the range has fewer accesses. -/
theorem length_tile_le (address : Nat) (data : List UInt8) (limit : Width) :
    ∀ pieces, Splits limit address pieces (address + data.length) →
      (tile address data limit).length ≤ pieces.length := by
  fun_induction tile address data limit with
  | case1 => exact fun _ _ => Nat.zero_le _
  | case2 address b rest w ih =>
    intro pieces h
    obtain ⟨aligned, fits⟩ := widestAccess_fits address limit (Nat.succ_pos rest.length)
    have fits : w.bytes ≤ (b :: rest).length := fits
    have block : (address + w.bytes) % w.bytes = 0 := (Nat.add_mod_right _ _).trans aligned
    -- The other split has a boundary where the first word ends, and at least one access before it.
    obtain ⟨before, after, rfl, first, last⟩ := h.cut block (Nat.le_add_right _ _) (Nat.le_refl _)
      (fun _ => h.head_le) (Nat.add_le_add_left fits _)
    have shorter := ih after (length_drop_tile fits ▸ last)
    have some : 0 < before.length := List.length_pos_iff.mpr fun none => by
      subst none
      have := first.nil_eq
      have := w.bytes_pos
      omega
    rw [List.length_cons, List.length_append]
    omega

/-- Once a width is too long for the rest of the data or not allowed, nothing wider than the
last access comes any more. -/
theorem tile_falls (address : Nat) (data : List UInt8) (limit : Width) :
    ∀ w : Width, address % w.bytes = 0 → (∀ u, u ≤ limit → u.bytes ≤ data.length → u ≤ w) →
      (w :: (tile address data limit).map Word.width).Pairwise fun v u => u ≤ v := by
  fun_induction tile address data limit with
  | case1 => exact fun w _ _ => List.pairwise_singleton _ w
  | case2 address b rest v ih =>
    intro w aligned bounded
    obtain ⟨start, fits⟩ := widestAccess_fits address limit (Nat.succ_pos rest.length)
    have fits : v.bytes ≤ (b :: rest).length := fits
    have narrower : v ≤ w := bounded v (widestAccess_le _ _ _) fits
    have later := ih v ((Nat.add_mod_right _ _).trans start) fun u small short => by
      rw [List.length_drop] at short
      have short : u.bytes ≤ (b :: rest).length := Nat.le_trans short (Nat.sub_le _ _)
      exact widestAccess_widest small (Width.aligned_of_le (bounded u small short) aligned) short
    refine List.pairwise_cons.mpr ⟨fun x member => ?_, later⟩
    rcases List.mem_cons.mp member with rfl | old
    · exact narrower
    · exact Width.le_trans ((List.pairwise_cons.mp later).1 x old) narrower

/-- An access that fits once more is followed by one that is as wide. -/
theorem le_head_tile {w : Width} (small : w ≤ limit) (aligned : address % w.bytes = 0)
    (fits : w.bytes ≤ data.length) :
    ∀ x ∈ ((tile address data limit).map Word.width).head?, w ≤ x := by
  cases data with
  | nil => exact absurd fits (Nat.not_le_of_lt w.bytes_pos)
  | cons b rest =>
    rw [tile]
    rintro x ⟨⟩
    exact widestAccess_widest small aligned fits

theorem Peaked.cons {w : Width} {widths : List Width} (h : Peaked widths)
    (rises : ∀ x ∈ widths.head?, w ≤ x) : Peaked (w :: widths) := by
  obtain ⟨up, down, rfl, ascending, descending⟩ := h
  cases up with
  | nil => exact ⟨[w], down, rfl, List.pairwise_singleton _ w, descending⟩
  | cons x up =>
    have first : w ≤ x := rises x rfl
    refine ⟨w :: x :: up, down, rfl, List.pairwise_cons.mpr ⟨fun y member => ?_, ascending⟩,
      descending⟩
    rcases List.mem_cons.mp member with rfl | old
    · exact first
    · exact Width.le_trans first ((List.pairwise_cons.mp ascending).1 y old)

theorem Peaked.front {widths more : List Width} (h : Peaked more) (first : widths <+: more) :
    Peaked widths := by
  obtain ⟨up, down, rfl, ascending, descending⟩ := h
  rw [List.prefix_iff_eq_take.mp first, List.take_append]
  exact ⟨_, _, rfl, ascending.sublist (List.take_sublist _ _),
    descending.sublist (List.take_sublist _ _)⟩

theorem peaked_tile (address : Nat) (data : List UInt8) (limit : Width) :
    Peaked ((tile address data limit).map Word.width) := by
  fun_induction tile address data limit with
  | case1 => exact ⟨[], [], rfl, .nil, .nil⟩
  | case2 address b rest w ih =>
    obtain ⟨aligned, _⟩ := widestAccess_fits address limit (Nat.succ_pos rest.length)
    have block : (address + w.bytes) % w.bytes = 0 := (Nat.add_mod_right _ _).trans aligned
    -- As long as the width fits once more the next one is no smaller; after that they only fall.
    by_cases again : w.bytes ≤ ((b :: rest).drop w.bytes).length
    · exact ih.cons (le_head_tile (widestAccess_le _ _ _) block again)
    · refine ⟨[], _, rfl, .nil, tile_falls _ _ limit w block fun u _ short => ?_⟩
      rcases u.le_total w with narrow | wide
      · exact narrow
      · exact absurd (Nat.le_trans (Width.bytes_le wide) short) again

end Tile

namespace Recorder

/-- Programming a block in wide words uses the fewest accesses that the alignment and the width
limit allow, whatever the registers answer and however the run ends; one that completes splits the
whole range. The widths rise to a peak and fall after it. -/
theorem programBlockWide_fewest (s : Recorder) (a : Address) (data : List UInt8) (limit : Width) :
    ∃ log, (leaves (Procedure.programBlockWide a data limit).run s).events = log ++ s.events ∧
      (∀ pieces, Splits limit a.toNat pieces (a.toNat + data.length) →
        (stores log).length ≤ pieces.length) ∧
      Peaked ((stores log).map (·.2.width)) ∧
      ∀ t, (Procedure.programBlockWide a data limit).run s = .ok () t →
        Splits limit a.toNat ((stores log).map (·.2.width)) (a.toNat + data.length) := by
  obtain ⟨log, events, first, whole⟩ := programWords_stores a (tile a.toNat data limit) s
  have widths : (stores log).map (·.2.width) = ((stores log).map Prod.snd).map Word.width :=
    (List.map_map ..).symm
  refine ⟨log, events, fun pieces splits => ?_, ?_, fun t run => ?_⟩
  · calc (stores log).length
      _ = ((stores log).map Prod.snd).length := (List.length_map _).symm
      _ ≤ (tile a.toNat data limit).length := first.length_le
      _ ≤ pieces.length := length_tile_le _ _ _ pieces splits
  · rw [widths]
    exact (peaked_tile a.toNat data limit).front (first.map _)
  · rw [widths, whole t run]
    exact splits_tile a.toNat data limit

/-- Seven bytes from an odd address on, compared with a split that starts with the same access. -/
theorem programBlockWide_fewest_odd :
    let s : Recorder := start ⟨⟨0⟩, ⟨0⟩, ⟨0⟩, ⟨0⟩⟩
    let a : Address := ⟨0x08000001, by decide⟩
    let data : List UInt8 := [1, 2, 3, 4, 5, 6, 7]
    let pieces : List Width := [.x8, .x16, .x16, .x16]
    Splits .x64 a.toNat pieces (a.toNat + data.length) ∧
      ∃ log, (leaves (Procedure.programBlockWide a data .x64).run s).events = log ∧
        (stores log).length ≤ pieces.length ∧ Peaked ((stores log).map (·.2.width)) := by
  intro s a data pieces
  have splits : Splits .x64 a.toNat pieces (a.toNat + data.length) :=
    .cons (by decide) (by decide) <| .cons (by decide) (by decide) <|
      .cons (by decide) (by decide) <| .cons (by decide) (by decide) <| .nil _
  obtain ⟨log, events, fewest, peaked, _⟩ := programBlockWide_fewest s a data .x64
  exact ⟨splits, log, events.trans (List.append_nil log), fewest pieces splits, peaked⟩

end Recorder
end FlashController
