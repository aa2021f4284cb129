import Ldd3.Bytes

/-!
# Circular buffers

A `Ring` is a circular buffer with a read and a write index and no element count: equal
indices mean empty, so one cell stays unused. Its value is the list `items` of the cells from
the read index round to the write index. `items_pop`, `items_push` and `items_scribble` say
what the three updates do to that list: taking a contiguous run of cells at the read index,
filling one at the write index, and spoiling free cells.
-/

namespace Ldd3

variable {α : Type*}

/-- A circular buffer of `len` cells, read at `rd` and written at `wr`. -/
structure Ring (α : Type*) where
  cells : Nat → α
  len : Nat
  rd : Nat
  wr : Nat
  rd_lt : rd < len
  wr_lt : wr < len

namespace Ring

/-- The number of cells in use. -/
def size (r : Ring α) : Nat :=
  if r.rd ≤ r.wr then r.wr - r.rd else r.wr + r.len - r.rd

/-- The position of the `i`-th cell after `rd`, going round once. -/
def index (len rd i : Nat) : Nat :=
  if rd + i < len then rd + i else rd + i - len

/-- The contents: the cells in use, from the read index on. -/
def items (r : Ring α) : List α :=
  (List.range r.size).map fun i => r.cells (index r.len r.rd i)

/-- Move an index by `n`, back to the start when it reaches the end. -/
def advance (len p n : Nat) : Nat :=
  if p + n = len then 0 else p + n

@[simp] theorem length_items (r : Ring α) : r.items.length = r.size := by
  simp [items]

/-- One cell is always free. -/
theorem size_lt (r : Ring α) : r.size < r.len := by
  have := r.rd_lt
  have := r.wr_lt
  unfold size
  split <;> omega

/-- The buffer is empty exactly when the indices agree. -/
theorem size_eq_zero_iff (r : Ring α) : r.size = 0 ↔ r.rd = r.wr := by
  have := r.rd_lt
  have := r.wr_lt
  unfold size
  split <;> omega

theorem advance_lt {len p n : Nat} (hp : p < len) (h : p + n ≤ len) : advance len p n < len := by
  unfold advance
  split <;> omega

/-- Take the `n` oldest cells, which must not go past the end of the buffer. -/
def pop (r : Ring α) (n : Nat) (h : n ≤ r.size ∧ r.rd + n ≤ r.len) : Ring α :=
  { r with
    rd := advance r.len r.rd n
    rd_lt := advance_lt r.rd_lt h.2 }

/-- Append data that fits before the end of the buffer and leaves a free cell. -/
def push (r : Ring α) (data : List α)
    (h : r.size + data.length < r.len ∧ r.wr + data.length ≤ r.len) : Ring α :=
  { r with
    cells := store r.cells r.wr data
    wr := advance r.len r.wr data.length
    wr_lt := advance_lt r.wr_lt h.2 }

/-- Replace the cells by others that agree outside the `n` cells from the write index on. -/
def scribble (r : Ring α) (cells : Nat → α) : Ring α :=
  { r with cells := cells }

/-- The size after a take. -/
theorem size_pop (r : Ring α) (n : Nat) (h : n ≤ r.size ∧ r.rd + n ≤ r.len) :
    (r.pop n h).size + n = r.size := by
  obtain ⟨hsize, hend⟩ := h
  have := r.rd_lt
  have := r.wr_lt
  simp only [size, pop, advance] at hsize ⊢
  split_ifs at hsize ⊢ <;> omega

/-- The size after an append. -/
theorem size_push (r : Ring α) (data : List α)
    (h : r.size + data.length < r.len ∧ r.wr + data.length ≤ r.len) :
    (r.push data h).size = r.size + data.length := by
  obtain ⟨hsize, hend⟩ := h
  have := r.rd_lt
  have := r.wr_lt
  simp only [size, push, advance] at hsize ⊢
  split_ifs at hsize ⊢ <;> omega

/-- A take removes the cells it returns from the front of the contents. -/
theorem items_pop (r : Ring α) (n : Nat) (h : n ≤ r.size ∧ r.rd + n ≤ r.len) :
    r.items = slice r.cells r.rd n ++ (r.pop n h).items := by
  have hsize := r.size_pop n h
  have := r.rd_lt
  have := r.size_lt
  apply List.ext_getElem
  · simp only [length_items, List.length_append, length_slice]
    omega
  · intro i h₁ h₂
    simp only [length_items] at h₁
    simp only [items, slice, List.getElem_map, List.getElem_range, List.getElem_append,
      List.length_map, List.length_range]
    -- the first `n` cells do not wrap; the later ones are counted from the new read index
    split
    · congr 1
      unfold index
      split <;> omega
    · show r.cells _ = r.cells _
      congr 1
      simp only [pop, advance, index]
      split_ifs <;> omega

/-- Contents do not depend on the free cells. -/
theorem items_scribble (r : Ring α) (cells : Nat → α) (n : Nat)
    (h : r.size + n < r.len ∧ r.wr + n ≤ r.len)
    (hsame : ∀ i, i < r.wr ∨ r.wr + n ≤ i → cells i = r.cells i) :
    (r.scribble cells).items = r.items := by
  have := r.rd_lt
  have := r.wr_lt
  apply List.map_congr_left
  intro i hi
  have hi : i < r.size := List.mem_range.mp hi
  show cells (index r.len r.rd i) = r.cells (index r.len r.rd i)
  apply hsame
  have hbound := h.1
  simp only [size] at hi hbound
  unfold index
  split_ifs at hi hbound ⊢ <;> omega

/-- An append puts the data behind the contents. -/
theorem items_push (r : Ring α) (data : List α)
    (h : r.size + data.length < r.len ∧ r.wr + data.length ≤ r.len) :
    (r.push data h).items = r.items ++ data := by
  have hsize := r.size_push data h
  have hold := r.items_scribble (store r.cells r.wr data) data.length h
    (fun i hi => store_outside r.cells hi)
  have := r.rd_lt
  have := r.wr_lt
  rw [← hold]
  apply List.ext_getElem
  · simp only [length_items, List.length_append, hsize]
    rfl
  · intro i h₁ h₂
    simp only [length_items, hsize] at h₁
    simp only [items, List.getElem_map, List.getElem_range, List.getElem_append,
      List.length_map, List.length_range]
    split
    · rfl
    · -- a new cell: its position is `wr` plus its place in the data
      rename_i hnew
      have hnew : r.size ≤ i := Nat.le_of_not_lt hnew
      have hpos : index r.len r.rd i = r.wr + (i - r.size) := by
        have hend := h.2
        simp only [size] at hnew h₁ ⊢
        unfold index
        split_ifs at hnew h₁ ⊢ <;> omega
      show store r.cells r.wr data (index r.len r.rd i) = _
      rw [hpos]
      exact store_inside r.cells r.wr (by omega)

end Ring

end Ldd3
