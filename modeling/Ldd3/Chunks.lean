import Mathlib.Data.List.Basic

/-!
# Transfers in chunks

A client moves a sequence through a store whose calls may do less than they are asked to. The
writer offers the next chunk of what is left and goes on after the elements that were taken; the
reader asks for the next chunk and stops at the first empty answer. Both take the position of the
next request from the answer. The sizes of the requests are any sequence, and `fuel` bounds the
number of requests.

`write_all_eq` and `read_all_eq` are the rules of the two loops: if every call makes progress and
keeps the invariant, the loops end, and everything has been moved.
-/

namespace Ldd3.Chunks

variable {σ β : Type*}

/-- Write all of the data from position `pos` on. `put` answers with the number of elements taken
and the position after them. -/
def writeAll (put : σ → Nat → List β → Option (σ × Nat × Nat)) (sizes : Nat → Nat) :
    (fuel k : Nat) → σ → (pos : Nat) → List β → Option σ
  | _, _, s, _, [] => some s
  | 0, _, _, _, _ :: _ => none
  | fuel + 1, k, s, pos, b :: rest => do
      let (t, n, pos') ← put s pos ((b :: rest).take (sizes k))
      writeAll put sizes fuel (k + 1) t pos' ((b :: rest).drop n)

/-- Read from position `pos` on up to the first empty answer. `get` answers with the number of
elements, the elements and the position after them. -/
def readAll (get : σ → Nat → Nat → Option (σ × Nat × List β × Nat)) (sizes : Nat → Nat) :
    (fuel k : Nat) → σ → (pos : Nat) → Option (σ × List β)
  | 0, _, _, _ => none
  | fuel + 1, k, s, pos => do
      let (t, n, got, pos') ← get s pos (sizes k)
      if n = 0 then pure (t, [])
      else
        let (u, rest) ← readAll get sizes fuel (k + 1) t pos'
        pure (u, got ++ rest)

variable {sizes : Nat → Nat}

/-- If every call takes a nonempty part of what it is offered behind what is there, the writer
ends and all of its data is there. -/
theorem write_all_eq {put : σ → Nat → List β → Option (σ × Nat × Nat)} {I : σ → List β → Prop}
    {total : Nat} (hsizes : ∀ k, 0 < sizes k)
    (hput : ∀ s done data, I s done → data ≠ [] → done.length + data.length ≤ total →
      ∃ t n, put s done.length data = some (t, n, done.length + n) ∧ 0 < n ∧ n ≤ data.length ∧
        I t (done ++ data.take n))
    (fuel k : Nat) {s : σ} {done data : List β} (hs : I s done)
    (htotal : done.length + data.length ≤ total) (hfuel : data.length ≤ fuel) :
    ∃ t, writeAll put sizes fuel k s done.length data = some t ∧ I t (done ++ data) := by
  induction fuel generalizing k s done data with
  | zero =>
      obtain rfl : data = [] := List.eq_nil_of_length_eq_zero (Nat.le_zero.mp hfuel)
      exact ⟨s, rfl, by simpa using hs⟩
  | succ fuel ih =>
      cases data with
      | nil => exact ⟨s, rfl, by simpa using hs⟩
      | cons b rest =>
          have hpos := hsizes k
          have hne : (b :: rest).take (sizes k) ≠ [] := by
            intro hnil
            rcases List.take_eq_nil_iff.mp hnil with hzero | hnil
            · omega
            · cases hnil
          have hlength : ((b :: rest).take (sizes k)).length = min (sizes k) (b :: rest).length :=
            List.length_take
          obtain ⟨t, n, hstep, hn, hle, ht⟩ := hput s done _ hs hne (by omega)
          rw [List.take_take, Nat.min_eq_left (by omega)] at ht
          have htaken : ((b :: rest).take n).length = n := by
            rw [List.length_take]
            omega
          have hleft : ((b :: rest).drop n).length = (b :: rest).length - n := List.length_drop
          have hnext :
              (done ++ (b :: rest).take n).length + ((b :: rest).drop n).length ≤ total := by
            rw [List.length_append, htaken, hleft]
            omega
          obtain ⟨u, hrest, hu⟩ := ih (k + 1) ht hnext (by omega)
          refine ⟨u, ?_, ?_⟩
          · rw [List.length_append, htaken] at hrest
            simpa only [writeAll, hstep, bind, Option.bind_some] using hrest
          · rwa [List.append_assoc, List.take_append_drop] at hu

/-- If every call delivers the next elements, and some as long as there are any, the reader ends
and has got all of them. -/
theorem read_all_eq {get : σ → Nat → Nat → Option (σ × Nat × List β × Nat)} {I : σ → Prop}
    {data : List β}
    (hget : ∀ k s pos, I s → pos ≤ data.length →
      ∃ t n, get s pos (sizes k) = some (t, n, (data.drop pos).take n, pos + n) ∧
        pos + n ≤ data.length ∧ (pos < data.length → 0 < n) ∧ I t)
    (fuel k : Nat) {s : σ} {pos : Nat} (hs : I s) (hpos : pos ≤ data.length)
    (hfuel : data.length < pos + fuel) :
    ∃ t, readAll get sizes fuel k s pos = some (t, data.drop pos) := by
  induction fuel generalizing k s pos with
  | zero => omega
  | succ fuel ih =>
      obtain ⟨t, n, hstep, hle, hprogress, ht⟩ := hget k s pos hs hpos
      rcases Nat.eq_zero_or_pos n with rfl | hn
      · have hend : pos = data.length := by
          by_contra hne
          exact absurd (hprogress (by omega)) (Nat.lt_irrefl 0)
        refine ⟨t, ?_⟩
        simp only [readAll, hstep, bind, Option.bind_some, pure, if_pos]
        rw [hend, List.drop_length]
      · obtain ⟨u, hrest⟩ := ih (k + 1) ht hle (by omega)
        refine ⟨u, ?_⟩
        simp only [readAll, hstep, hrest, bind, Option.bind_some, pure, if_neg (Nat.ne_of_gt hn)]
        rw [← List.drop_drop, List.take_append_drop]

end Ldd3.Chunks
