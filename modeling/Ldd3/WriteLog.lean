import Mathlib.Data.List.Induction

/-!
# Sparse arrays as logs of writes

A log lists writes of runs of elements at offsets, oldest first. The sparse array it describes
has at each offset the element the last write there stored, and nothing where no write was. Its
extent is the largest end of a write. A write of nothing has an end too, so the elements may end
before: `EndsAt` says where.
-/

namespace Ldd3.WriteLog

variable {β : Type*}

/-- The element at offset `x`. -/
def byteAt (log : List (Nat × List β)) (x : Nat) : Option β :=
  log.foldl (fun old w => if w.1 ≤ x ∧ x < w.1 + w.2.length then w.2[x - w.1]? else old) none

/-- The largest end of a write, zero if there is none. -/
def extent (log : List (Nat × List β)) : Nat :=
  (log.map fun w => w.1 + w.2.length).foldl max 0

/-- A further write changes the elements of its range and no others. -/
theorem byte_at_append (log : List (Nat × List β)) (pos : Nat) (data : List β) (x : Nat) :
    byteAt (log ++ [(pos, data)]) x =
      if pos ≤ x ∧ x < pos + data.length then data[x - pos]? else byteAt log x := by
  simp [byteAt, List.foldl_append]

/-- A further write moves the extent to its end at least. -/
theorem extent_append (log : List (Nat × List β)) (pos : Nat) (data : List β) :
    extent (log ++ [(pos, data)]) = max (extent log) (pos + data.length) := by
  simp [extent, List.foldl_append]

/-- There are no elements past the extent. -/
theorem lt_extent_of_byte_at {log : List (Nat × List β)} {x : Nat} {b : β}
    (h : byteAt log x = some b) : x < extent log := by
  induction log using List.reverseRecOn generalizing b with
  | nil => cases h
  | append_singleton rest w ih =>
      obtain ⟨pos, data⟩ := w
      rw [byte_at_append] at h
      rw [extent_append]
      split at h
      · rename_i hin
        exact Nat.lt_of_lt_of_le hin.2 (Nat.le_max_right _ _)
      · exact Nat.lt_of_lt_of_le (ih h) (Nat.le_max_left _ _)

/-- The elements end at `n`: it is zero if there are none, and otherwise one more than the largest
offset of an element. -/
structure EndsAt (log : List (Nat × List β)) (n : Nat) : Prop where
  lt : ∀ x, byteAt log x ≠ none → x < n
  last : n ≠ 0 → byteAt log (n - 1) ≠ none

/-- An empty log ends at zero. -/
theorem ends_at_nil : EndsAt ([] : List (Nat × List β)) 0 :=
  ⟨fun _ h => absurd rfl h, fun h => absurd rfl h⟩

variable {log : List (Nat × List β)} {n m : Nat}

/-- The elements end at one offset only. -/
theorem EndsAt.unique (hn : EndsAt log n) (hm : EndsAt log m) : n = m := by
  have hle : ∀ {n m}, EndsAt log n → EndsAt log m → n ≤ m := by
    intro n m hn hm
    by_cases hzero : n = 0
    · omega
    · have hlast := hm.lt (n - 1) (hn.last hzero)
      omega
  exact Nat.le_antisymm (hle hn hm) (hle hm hn)

/-- A write of nothing does not move the end. -/
theorem ends_at_append_nil_iff (pos : Nat) : EndsAt (log ++ [(pos, [])]) n ↔ EndsAt log n := by
  have hsame : ∀ x, byteAt (log ++ [(pos, [])]) x = byteAt log x := by
    intro x
    rw [byte_at_append, if_neg (by simp only [List.length_nil]; omega)]
  constructor
  · intro h
    exact ⟨fun x hx => h.lt x (by rwa [hsame]), fun hn => by rw [← hsame]; exact h.last hn⟩
  · intro h
    exact ⟨fun x hx => h.lt x (by rwa [hsame] at hx), fun hn => by rw [hsame]; exact h.last hn⟩

/-- A write of something moves the end to its own at least. -/
theorem EndsAt.append (h : EndsAt log n) (pos : Nat) {data : List β} (hdata : 0 < data.length) :
    EndsAt (log ++ [(pos, data)]) (max n (pos + data.length)) := by
  constructor
  · intro x hx
    rw [byte_at_append] at hx
    split at hx
    · omega
    · have hlt := h.lt x hx
      omega
  · intro hne
    rw [byte_at_append]
    split
    · rename_i hin
      rw [List.getElem?_eq_getElem (by omega)]
      exact Option.some_ne_none _
    · -- the last element is an older one
      rename_i hout
      rw [Nat.max_eq_left (by omega)] at hne ⊢
      exact h.last hne

end Ldd3.WriteLog
