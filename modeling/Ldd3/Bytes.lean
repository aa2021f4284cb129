import Mathlib.Data.List.Basic
import Mathlib.Data.List.Range

/-!
# Copies out of and into memory

A block of memory is a function from offsets to cells. `slice` is what a copy out of it
delivers, `store` the block after a copy into it and `spoil` the block after a copy into it that
stopped half-way.
-/

namespace Ldd3

variable {α : Type*}

/-- The `n` cells from offset `off` on. -/
def slice (cells : Nat → α) (off n : Nat) : List α :=
  (List.range n).map fun i => cells (off + i)

/-- The cells with `data` copied in at offset `off`. -/
def store (cells : Nat → α) (off : Nat) (data : List α) (i : Nat) : α :=
  if h : off ≤ i ∧ i - off < data.length then data[i - off] else cells i

@[simp] theorem length_slice (cells : Nat → α) (off n : Nat) : (slice cells off n).length = n := by
  simp [slice]

/-- The cells of a copy, one by one. -/
theorem getElem?_slice (cells : Nat → α) (off n i : Nat) :
    (slice cells off n)[i]? = if i < n then some (cells (off + i)) else none := by
  simp only [slice, List.getElem?_map]
  split
  · rename_i hlt
    rw [List.getElem?_range hlt]
    rfl
  · rename_i hge
    rw [List.getElem?_eq_none (by simpa using hge)]
    rfl

/-- Cells outside the copied range keep their value. -/
theorem store_outside (cells : Nat → α) {off i : Nat} {data : List α}
    (h : i < off ∨ off + data.length ≤ i) : store cells off data i = cells i := by
  simp only [store]
  rw [dif_neg (by omega)]

/-- Cells inside the copied range hold the data. -/
theorem store_inside (cells : Nat → α) (off : Nat) {data : List α} {i : Nat}
    (h : i < data.length) : store cells off data (off + i) = data[i] := by
  simp [store, h]

/-- A copy of nothing changes nothing. -/
theorem store_nil (cells : Nat → α) (off : Nat) : store cells off [] = cells := by
  funext i
  exact store_outside cells (by simp only [List.length_nil]; omega)

/-- Some cells of the destination range of a copy of `n` cells have been overwritten. -/
def spoil (cells : Nat → α) (off n : Nat) (spoilt : Nat → Option α) (i : Nat) : α :=
  if off ≤ i ∧ i < off + n then (spoilt (i - off)).getD (cells i) else cells i

/-- A copy that stopped before the first cell changes nothing. -/
theorem spoil_none (cells : Nat → α) (off : Nat) {n : Nat} {spoilt : Nat → Option α}
    (h : ∀ k < n, spoilt k = none) : spoil cells off n spoilt = cells := by
  funext i
  unfold spoil
  split
  · rw [h (i - off) (by omega)]
    rfl
  · rfl

section Map

variable {γ : Type*} (f : α → γ) (cells : Nat → α) (off n : Nat)

theorem slice_map : slice (fun i => f (cells i)) off n = (slice cells off n).map f := by
  simp [slice]

theorem store_map (data : List α) :
    store (fun i => f (cells i)) off (data.map f) = fun i => f (store cells off data i) := by
  funext i
  simp only [store, List.length_map, List.getElem_map]
  split <;> rfl

theorem spoil_map (spoilt : Nat → Option α) :
    spoil (fun i => f (cells i)) off n (fun i => (spoilt i).map f) =
      fun i => f (spoil cells off n spoilt i) := by
  funext i
  simp only [spoil]
  split
  · cases spoilt (i - off) <;> rfl
  · rfl

end Map

end Ldd3
