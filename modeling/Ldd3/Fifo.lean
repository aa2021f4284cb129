import Mathlib.Data.List.Basic

/-!
# Bounded first-in first-out queues

The specification of a bounded queue as a machine that reads what its clients see: a step
takes a prefix of the queue and appends to its end, and is refused when the queue would
exceed its capacity. `taken_append_queue` is what acceptance of a whole history means: the
elements taken so far, followed by the queue, are the elements put in so far.
-/

namespace Ldd3.Fifo

variable {α ε : Type*} [DecidableEq α]

/-- Take `took` from the front and append `put`, if the queue starts with the one and has room
for the other. -/
def step (cap : Nat) (queue took put : List α) : Option (List α) :=
  if took <+: queue ∧ queue.length + put.length ≤ cap + took.length then
    some (queue.drop took.length ++ put)
  else none

/-- An accepted step, seen from the queue before and after. -/
theorem step_eq_some {cap : Nat} {queue took put next : List α}
    (h : step cap queue took put = some next) :
    took ++ next = queue ++ put ∧ next.length ≤ cap := by
  unfold step at h
  split at h
  · rename_i hok
    obtain ⟨⟨rest, rfl⟩, hroom⟩ := hok
    cases h
    simp only [List.length_append] at hroom
    simp only [List.drop_left, List.append_assoc, List.length_append, true_and]
    omega
  · cases h

/-- A step that obeys the queue discipline is accepted. -/
theorem step_of_append {cap : Nat} {queue took put next : List α}
    (h : took ++ next = queue ++ put) (htook : took <+: queue) (hcap : next.length ≤ cap) :
    step cap queue took put = some next := by
  obtain ⟨rest, rfl⟩ := htook
  have hnext : next = rest ++ put := by simpa using h
  subst hnext
  unfold step
  rw [if_pos]
  · simp
  · simp only [List.prefix_append, true_and, List.length_append] at hcap ⊢
    omega

/-- The history of an accepted run: what was taken, followed by what is queued, is the initial
queue followed by what was put in. -/
theorem taken_append_queue {cap : Nat} {took put : ε → List α} {history : List ε}
    {queue final : List α}
    (h : history.foldlM (fun q e => step cap q (took e) (put e)) queue = some final) :
    history.flatMap took ++ final = queue ++ history.flatMap put := by
  induction history generalizing queue with
  | nil =>
      cases h
      simp
  | cons e rest ih =>
      simp only [List.foldlM_cons, bind, Option.bind_eq_some_iff] at h
      obtain ⟨middle, hfirst, hrest⟩ := h
      have hhead := (step_eq_some hfirst).1
      have htail := ih hrest
      calc (e :: rest).flatMap took ++ final
          = took e ++ (rest.flatMap took ++ final) := by simp
        _ = (took e ++ middle) ++ rest.flatMap put := by rw [htail, List.append_assoc]
        _ = queue ++ (e :: rest).flatMap put := by rw [hhead]; simp

end Ldd3.Fifo
