import Mathlib.Data.List.Basic

/-!
# Acquiring and releasing

A log of what a program acquires and releases, and what it holds after it. The log is legal if
nothing is acquired that is held already and nothing is released that is not held. A legal log that
starts and ends with nothing held releases everything it acquires exactly once, and nothing else.
`Holds` says what is held after a log without fixing an order.
-/

namespace Ldd3

/-- An entry of the log. -/
inductive ResourceOp (ρ : Type*) where
  | acquire (r : ρ)
  | release (r : ρ)
  deriving DecidableEq, Repr

namespace ResourceOp

variable {ρ : Type*} [DecidableEq ρ] {held : List ρ}

/-- What is held after an entry, the latest first, if the entry is legal. -/
def apply (held : List ρ) : ResourceOp ρ → Option (List ρ)
  | acquire r => if r ∈ held then none else some (r :: held)
  | release r => if r ∈ held then some (held.erase r) else none

/-- What is held after a log, if all of it is legal. -/
def replay (held : List ρ) : List (ResourceOp ρ) → Option (List ρ)
  | [] => some held
  | op :: log => (apply held op).bind fun held => replay held log

/-- A log that goes on. -/
theorem replay_append {log : List (ResourceOp ρ)} {before : List ρ}
    (hlog : replay held log = some before) (log' : List (ResourceOp ρ)) :
    replay held (log ++ log') = replay before log' := by
  induction log generalizing held with
  | nil =>
      cases hlog
      rfl
  | cons op log ih =>
      obtain ⟨middle, happly, hrest⟩ := Option.bind_eq_some_iff.mp hlog
      show (apply held op).bind (fun held => replay held (log ++ log')) = replay before log'
      rw [happly]
      exact ih hrest

/-- A log that goes on with an acquisition. -/
theorem replay_acquire {log : List (ResourceOp ρ)} {before : List ρ} {r : ρ}
    (hlog : replay held log = some before) (hr : r ∉ before) :
    replay held (log ++ [acquire r]) = some (r :: before) := by
  rw [replay_append hlog]
  show (if r ∈ before then none else some (r :: before)).bind (fun held => replay held []) = _
  rw [if_neg hr]
  rfl

/-- What is held is released. -/
theorem replay_release {log : List (ResourceOp ρ)} {r : ρ} (hr : r ∈ held) :
    replay held (release r :: log) = replay (held.erase r) log := by
  show (if r ∈ held then some (held.erase r) else none).bind (fun held => replay held log) = _
  rw [if_pos hr]
  rfl

/-- What is not held cannot be released. -/
theorem replay_release_of_notMem {log : List (ResourceOp ρ)} {r : ρ} (hr : r ∉ held) :
    replay held (release r :: log) = none := by
  show (if r ∈ held then some (held.erase r) else none).bind (fun held => replay held log) = _
  rw [if_neg hr]
  rfl

/-- What has not been acquired cannot be released. -/
theorem replay_eq_none_of_release {log : List (ResourceOp ρ)} {r : ρ} (hr : r ∉ held)
    (hacquire : acquire r ∉ log) (hrelease : release r ∈ log) : replay held log = none := by
  induction log generalizing held with
  | nil => cases hrelease
  | cons op log ih =>
      have hrest : acquire r ∉ log := fun hmem => hacquire (List.mem_cons_of_mem _ hmem)
      rcases List.mem_cons.mp hrelease with rfl | hlater
      · exact replay_release_of_notMem hr
      · cases happly : apply held op with
        | none => simp [replay, happly]
        | some next =>
            -- no entry but an acquisition of `r` itself adds `r`
            have hnext : r ∉ next := by
              cases op with
              | acquire r' =>
                  have hne : r ≠ r' := by
                    rintro rfl
                    exact hacquire List.mem_cons_self
                  simp only [apply] at happly
                  split at happly <;> cases happly
                  simp [hne, hr]
              | release r' =>
                  simp only [apply] at happly
                  split at happly <;> cases happly
                  exact fun hmem => hr (List.mem_of_mem_erase hmem)
            simp only [replay, happly, Option.bind_some]
            exact ih hnext hrest hlater

/-- After this log these are held, in some order. -/
def Holds (log : List (ResourceOp ρ)) (rs : List ρ) : Prop :=
  ∃ held, replay [] log = some held ∧ held.Perm rs

variable {log : List (ResourceOp ρ)} {rs rest : List ρ} {r : ρ}

/-- Nothing is held, and there is one order for nothing. -/
theorem holds_nil_iff : Holds log [] ↔ replay [] log = some [] := by
  constructor
  · rintro ⟨held, hlog, hperm⟩
    rw [hlog, hperm.eq_nil]
  · intro hlog
    exact ⟨[], hlog, .refl _⟩

theorem Holds.perm (h : Holds log rs) (hperm : rs.Perm rest) : Holds log rest := by
  obtain ⟨held, hlog, hheld⟩ := h
  exact ⟨held, hlog, hheld.trans hperm⟩

theorem Holds.acquire (h : Holds log rs) (hr : r ∉ rs) : Holds (log ++ [acquire r]) (r :: rs) := by
  obtain ⟨held, hlog, hheld⟩ := h
  exact ⟨r :: held, replay_acquire hlog (fun hmem => hr (hheld.subset hmem)), hheld.cons r⟩

theorem Holds.release (h : Holds log (r :: rs)) : Holds (log ++ [release r]) rs := by
  obtain ⟨held, hlog, hheld⟩ := h
  have hmem : r ∈ held := hheld.symm.subset List.mem_cons_self
  refine ⟨held.erase r, ?_, ?_⟩
  · rw [replay_append hlog, replay_release hmem]
    rfl
  · simpa using hheld.erase r

theorem Holds.release_middle {xs ys : List ρ} (h : Holds log (xs ++ r :: ys)) :
    Holds (log ++ [ResourceOp.release r]) (xs ++ ys) :=
  (h.perm List.perm_middle).release

/-- A release of something that is not held cannot be made good. -/
theorem Holds.not_release (h : Holds log rs) (hr : r ∉ rs) (log' : List (ResourceOp ρ)) :
    replay [] (log ++ ResourceOp.release r :: log') = none := by
  obtain ⟨held, hlog, hheld⟩ := h
  rw [replay_append hlog]
  exact replay_release_of_notMem (fun hmem => hr (hheld.subset hmem))

end ResourceOp

end Ldd3
