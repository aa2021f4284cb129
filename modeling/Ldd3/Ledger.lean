import Mathlib.Data.List.Flatten
import Mathlib.Data.List.Range
import Mathlib.Data.List.Perm.Basic

/-!
# Ledgers of allocated objects

Objects are named by consecutive numbers in the order of their allocation. A structure owns a list
of them, and `Adds` says that it has come to own exactly the objects allocated meanwhile. The order
of the list does not matter. `flatMap_set_perm` is the rule for a structure made of parts, one of
which changes, and `eq_of_length_flatMap` compares what two functions collect from the parts.
-/

namespace Ldd3.Ledger

/-- From owning `before`, with `next` the next free number, to owning `after`, with `next'` the next
free number, exactly the numbers in between have been added. -/
structure Adds (before : List Nat) (next : Nat) (after : List Nat) (next' : Nat) : Prop where
  le : next ≤ next'
  perm : after.Perm (before ++ List.range' next (next' - next))

variable {before middle after : List Nat} {next mid next' : Nat}

theorem Adds.of_perm (h : after.Perm before) : Adds before next after next :=
  ⟨le_rfl, by simpa using h⟩

theorem Adds.one (h : after.Perm (before ++ [next])) : Adds before next after (next + 1) :=
  ⟨Nat.le_succ next, by simpa using h⟩

theorem Adds.trans (h : Adds before next middle mid) (h' : Adds middle mid after next') :
    Adds before next after next' := by
  refine ⟨h.le.trans h'.le, h'.perm.trans ?_⟩
  have hle := h.le
  have hle' := h'.le
  have hrange : List.range' next (mid - next) ++ List.range' mid (next' - mid) =
      List.range' next (next' - next) := by
    have happend := List.range'_append_1 (s := next) (m := mid - next) (n := next' - mid)
    have hsum : mid - next + (next' - mid) = next' - next := by omega
    rwa [Nat.add_sub_cancel' hle, hsum] at happend
  rw [← hrange, ← List.append_assoc]
  exact h.perm.append_right _

/-- A part that does not change can be put in front. -/
theorem Adds.append_left (rest : List Nat) (h : Adds before next after next') :
    Adds (rest ++ before) next (rest ++ after) next' := by
  refine ⟨h.le, ?_⟩
  rw [List.append_assoc]
  exact h.perm.append_left rest

/-- The new objects are different from each other and from the old ones. -/
theorem Adds.nodup (h : Adds before next after next') (hnodup : before.Nodup)
    (hlt : ∀ id ∈ before, id < next) : after.Nodup ∧ ∀ id ∈ after, id < next' := by
  have hle := h.le
  constructor
  · refine h.perm.nodup_iff.mpr (List.nodup_append.mpr ⟨hnodup, List.nodup_range', ?_⟩)
    rintro id hid other hother rfl
    have hold := hlt id hid
    have hnew := List.mem_range'_1.mp hother
    omega
  · intro id hid
    rcases List.mem_append.mp (h.perm.mem_iff.mp hid) with hold | hnew
    · exact (hlt id hold).trans_le hle
    · have hbound := List.mem_range'_1.mp hnew
      omega

section Parts

variable {α γ : Type*} {f g : α → List γ} {parts : List α}

/-- One part changes and collects something more. -/
theorem flatMap_set_perm {i : Nat} {old new : α} {more : List γ} (hold : parts[i]? = some old)
    (hnew : (f new).Perm (f old ++ more)) :
    ((parts.set i new).flatMap f).Perm (parts.flatMap f ++ more) := by
  induction parts generalizing i with
  | nil => cases hold
  | cons part rest ih =>
      cases i with
      | zero =>
          cases hold
          rw [List.set_cons_zero, List.flatMap_cons, List.flatMap_cons, List.append_assoc]
          refine (hnew.append_right _).trans ?_
          rw [List.append_assoc]
          exact List.perm_append_comm.append_left _
      | succ i =>
          rw [List.set_cons_succ, List.flatMap_cons, List.flatMap_cons, List.append_assoc]
          exact (ih hold).append_left _

/-- If one function collects no more than another from every part, and as much from all of them,
they collect the same from each. -/
theorem eq_of_length_flatMap (hsub : ∀ part, (f part).Sublist (g part))
    (hlength : (parts.flatMap f).length = (parts.flatMap g).length) :
    ∀ part ∈ parts, f part = g part := by
  induction parts with
  | nil => simp
  | cons part rest ih =>
      have hfirst := (hsub part).length_le
      have hrest : (rest.flatMap f).length ≤ (rest.flatMap g).length :=
        (List.Sublist.flatMap_right rest fun part _ => hsub part).length_le
      rw [List.flatMap_cons, List.flatMap_cons, List.length_append, List.length_append] at hlength
      intro other hmem
      rcases List.mem_cons.mp hmem with rfl | hmem
      · exact (hsub other).eq_of_length (by omega)
      · exact ih (by omega) other hmem

end Parts

end Ldd3.Ledger
