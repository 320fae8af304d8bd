/-! Byte memory, seen through `get?`. A range that reaches past the end of the memory is cut there,
by reads and by writes. -/
namespace FlashController

structure Memory where
  cells : Array UInt8

/-- A maximal range of equal bytes. -/
structure Memory.Run where
  offset : Nat
  length : Nat
  byte : UInt8
  deriving DecidableEq

namespace Memory

def filled (size : Nat) (b : UInt8) : Memory := ⟨Array.replicate size b⟩

def size (m : Memory) : Nat := m.cells.size

def get? (m : Memory) (i : Nat) : Option UInt8 := m.cells[i]?

/-- Combines the bytes from an offset on with data, by a function of the old and the new byte. -/
def mergeCells (f : UInt8 → UInt8 → UInt8) : List UInt8 → Nat → Array UInt8 → Array UInt8
  | [], _, cells => cells
  | b :: rest, i, cells => mergeCells f rest (i + 1) (cells.modify i (f · b))

def merge (m : Memory) (f : UInt8 → UInt8 → UInt8) (offset : Nat) (data : List UInt8) : Memory :=
  ⟨mergeCells f data offset m.cells⟩

def fillCells (b : UInt8) : Nat → Nat → Array UInt8 → Array UInt8
  | 0, _, cells => cells
  | n + 1, i, cells => fillCells b n (i + 1) (cells.setIfInBounds i b)

def fill (m : Memory) (offset length : Nat) (b : UInt8) : Memory :=
  ⟨fillCells b length offset m.cells⟩

def read (m : Memory) (offset length : Nat) : List UInt8 :=
  (m.cells.extract offset (offset + length)).toList

/-- One byte more at the front of runs, whose offsets are left for later. -/
def extend (b : UInt8) : List (Nat × UInt8) → List (Nat × UInt8)
  | (n, c) :: rest => if b = c then (n + 1, c) :: rest else (1, b) :: (n, c) :: rest
  | [] => [(1, b)]

def place : Nat → List (Nat × UInt8) → List Run
  | _, [] => []
  | offset, (n, b) :: rest => ⟨offset, n, b⟩ :: place (offset + n) rest

/-- The whole memory as maximal runs, in order. -/
def runs (m : Memory) : List Run :=
  place 0 (m.cells.foldr extend [])

theorem size_filled (n : Nat) (b : UInt8) : (filled n b).size = n :=
  Array.size_replicate

theorem size_merge (m : Memory) (f : UInt8 → UInt8 → UInt8) (offset : Nat) (data : List UInt8) :
    (m.merge f offset data).size = m.size := by
  suffices ∀ cells : Array UInt8, (mergeCells f data offset cells).size = cells.size from this _
  induction data generalizing offset with
  | nil => intro cells; rfl
  | cons b rest ih => intro cells; rw [mergeCells, ih, Array.size_modify]

theorem size_fill (m : Memory) (offset length : Nat) (b : UInt8) :
    (m.fill offset length b).size = m.size := by
  suffices ∀ cells : Array UInt8, (fillCells b length offset cells).size = cells.size from this _
  induction length generalizing offset with
  | zero => intro cells; rfl
  | succ n ih => intro cells; rw [fillCells, ih, Array.size_setIfInBounds]

theorem get?_filled (n i : Nat) (b : UInt8) :
    (filled n b).get? i = if i < n then some b else none := by
  simp [get?, filled, Array.getElem?_replicate]

theorem get?_merge (m : Memory) (f : UInt8 → UInt8 → UInt8) (offset i : Nat) (data : List UInt8) :
    (m.merge f offset data).get? i =
      if offset ≤ i then
        match data[i - offset]? with
        | some b => (m.get? i).map (f · b)
        | none => m.get? i
      else m.get? i := by
  obtain ⟨cells⟩ := m
  simp only [merge, get?]
  induction data generalizing offset cells with
  | nil => simp [mergeCells]
  | cons b rest ih =>
    rw [mergeCells, ih]
    by_cases h : offset = i
    · subst h
      rw [if_neg (Nat.not_succ_le_self offset)]
      simp [Array.getElem?_modify]
    · by_cases hle : offset ≤ i
      · have hsucc : offset + 1 ≤ i := by omega
        have hsub : i - offset = i - (offset + 1) + 1 := by omega
        simp [hle, hsucc, hsub, Array.getElem?_modify, h]
      · have hsucc : ¬ offset + 1 ≤ i := by omega
        simp [hle, hsucc, Array.getElem?_modify, h]

theorem get?_merge_outside (m : Memory) (f : UInt8 → UInt8 → UInt8) {offset i : Nat}
    {data : List UInt8} (outside : ¬ (offset ≤ i ∧ i < offset + data.length)) :
    (m.merge f offset data).get? i = m.get? i := by
  rw [get?_merge]
  split
  · have beyond : data[i - offset]? = none := List.getElem?_eq_none (by omega)
    rw [beyond]
  · rfl

theorem get?_fill (m : Memory) (offset length i : Nat) (b : UInt8) :
    (m.fill offset length b).get? i =
      if offset ≤ i ∧ i < offset + length then (m.get? i).map fun _ => b else m.get? i := by
  obtain ⟨cells⟩ := m
  simp only [fill, get?]
  induction length generalizing offset cells with
  | zero => rw [fillCells, if_neg (by omega)]
  | succ n ih =>
    rw [fillCells, ih, Array.getElem?_setIfInBounds]
    by_cases h : offset = i
    · subst h
      rw [if_neg fun h => Nat.not_succ_le_self offset h.1]
      by_cases hi : offset < cells.size <;> simp [hi]
    · have : (offset + 1 ≤ i ∧ i < offset + 1 + n) ↔ (offset ≤ i ∧ i < offset + (n + 1)) := by
        omega
      simp only [h, this, if_false]

theorem getElem?_read (m : Memory) (offset length i : Nat) :
    (m.read offset length)[i]? = if i < length then m.get? (offset + i) else none := by
  simp only [read, get?, Array.getElem?_toList, Array.getElem?_extract]
  by_cases h : i < length
  · by_cases hs : offset + i < m.cells.size
    · have : i < min (offset + length) m.cells.size - offset := by omega
      simp [h, this]
    · have : ¬ i < min (offset + length) m.cells.size - offset := by omega
      simp [h, this, Array.getElem?_eq_none (Nat.le_of_not_lt hs)]
  · have : ¬ i < min (offset + length) m.cells.size - offset := by omega
    simp [h, this]

end Memory
end FlashController
