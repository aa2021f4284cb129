import Mathlib.Data.List.Basic

/-!
# Waiting on a queue

The life of a task between the moment it decides to wait and the moment it goes on, as the
kernel's wait queues prescribe it: it joins the queue, tests its condition once more and
only then calls the scheduler. A wake-up of the queue marks every task on it as runnable,
also one that has not yet called the scheduler, whose call then returns at once.

`waitEvent` is the loop of `wait_event_interruptible` and `waitOnce` is a single round of
`prepare_to_wait`, `schedule` and `finish_wait`. `sleep_of_wait_event` and `sleep_of_wait_once`
say the one thing every lost-wake-up argument rests on: a task falls asleep only in the step
in which it finds its condition false.
-/

namespace Ldd3

/-- Where a waiting task is. A task is on the queue at `test` and `sched`; the flag tells
whether a wake-up has reached it there. -/
inductive Wait where
  /-- about to evaluate the condition for the first time, not on the queue -/
  | cond
  /-- about to join the queue -/
  | prepare
  /-- on the queue, about to evaluate the condition -/
  | test (woken : Bool)
  /-- on the queue, in the call of the scheduler -/
  | sched (woken : Bool)
  /-- off the queue, about to take the lock again -/
  | relock
  deriving DecidableEq, Repr

/-- The outcome of one step of a waiting task. -/
inductive Waited where
  /-- the task sleeps and cannot move by itself -/
  | blocked
  /-- a signal ended the wait -/
  | interrupted
  | next (phase : Wait)
  deriving DecidableEq, Repr

namespace Wait

/-- A wake-up of the queue reaches the tasks that are on it. -/
def wake : Wait → Wait
  | test _ => test true
  | sched _ => sched true
  | phase => phase

/-- The task sleeps: it is in the scheduler and no wake-up has reached it. -/
def asleep : Wait → Bool
  | sched false => true
  | _ => false

@[simp] theorem asleep_wake (phase : Wait) : phase.wake.asleep = false := by
  cases phase <;> rfl

/-- One step of `wait_event_interruptible`. A signal is noticed when the task joins the
queue, after one more look at the condition, and it ends a sleep. -/
def waitEvent (cond signal : Bool) : Wait → Waited
  | .cond => .next (if cond then relock else prepare)
  | prepare =>
      if signal then (if cond then .next relock else .interrupted) else .next (test false)
  | test woken => .next (if cond then relock else sched woken)
  | sched woken => if woken || signal then .next prepare else .blocked
  | relock => .blocked

/-- One step of a single round of `prepare_to_wait`, condition test, `schedule` and
`finish_wait`. A signal ends a sleep and is left to the caller to notice. -/
def waitOnce (cond signal : Bool) : Wait → Waited
  | prepare => .next (test false)
  | test woken => .next (if cond then relock else sched woken)
  | sched woken => if woken || signal then .next relock else .blocked
  | relock => .blocked
  | .cond => .blocked

/-- A task falls asleep in `wait_event_interruptible` only when it finds its condition
false. -/
theorem sleep_of_wait_event {cond signal : Bool} {phase next : Wait}
    (h : waitEvent cond signal phase = .next next) (hsleep : next.asleep = true) :
    cond = false := by
  cases cond with
  | false => rfl
  | true =>
      cases phase with
      | cond | test _ =>
          cases h
          cases hsleep
      | prepare | sched _ =>
          simp only [waitEvent] at h
          split at h <;> cases h
          all_goals cases hsleep
      | relock => cases h

/-- Only a signal interrupts `wait_event_interruptible`. -/
theorem signal_of_wait_event {cond signal : Bool} {phase : Wait}
    (h : waitEvent cond signal phase = .interrupted) : signal = true := by
  cases phase with
  | cond | test _ | relock => cases h
  | prepare =>
      cases signal with
      | true => rfl
      | false => cases h
  | sched _ =>
      simp only [waitEvent] at h
      split at h <;> cases h

/-- `wait_event_interruptible` ends without a signal only when it finds its condition true. -/
theorem cond_of_wait_event {cond signal : Bool} {phase : Wait}
    (h : waitEvent cond signal phase = .next .relock) : cond = true := by
  cases cond with
  | true => rfl
  | false =>
      cases phase with
      | cond | test _ | relock => cases h
      | prepare | sched _ =>
          simp only [waitEvent] at h
          split at h <;> cases h

/-- A task falls asleep in a single round only when it finds its condition false. -/
theorem sleep_of_wait_once {cond signal : Bool} {phase next : Wait}
    (h : waitOnce cond signal phase = .next next) (hsleep : next.asleep = true) :
    cond = false := by
  cases cond with
  | false => rfl
  | true =>
      cases phase with
      | prepare | test _ =>
          cases h
          cases hsleep
      | sched _ =>
          simp only [waitOnce] at h
          split at h <;> cases h
          cases hsleep
      | relock | cond => cases h

/-- A single round is never interrupted; its caller looks for signals. -/
theorem wait_once_ne_interrupted (cond signal : Bool) (phase : Wait) :
    waitOnce cond signal phase ≠ .interrupted := by
  intro h
  cases phase with
  | sched _ =>
      simp only [waitOnce] at h
      split at h <;> cases h
  | cond | prepare | test _ | relock => cases h

end Wait

/-- No wake-up is lost on a queue: if a task sleeps while its condition holds, a wake-up of the
queue has still to be executed. -/
def NoneStranded (asleep cond pending : Prop) : Prop :=
  asleep → cond → pending

/-- What a step may do to a queue: tasks fall asleep while the condition is false, a pending
wake-up is executed on every sleeper, and the condition becomes true together with a pending
wake-up. -/
structure QueueStep (asleep cond pending asleep' cond' pending' : Prop) : Prop where
  sleeps : asleep' → asleep ∨ ¬ cond
  wakes : pending → pending' ∨ ¬ asleep'
  makes : cond' → cond ∨ pending'

variable {asleep cond pending asleep' cond' pending' : Prop}

/-- Such steps lose no wake-up. -/
theorem QueueStep.none_stranded (h : QueueStep asleep cond pending asleep' cond' pending')
    (hold : NoneStranded asleep cond pending) : NoneStranded asleep' cond' pending' := by
  intro hasleep hcond
  rcases h.makes hcond with hbefore | hnew
  · rcases h.sleeps hasleep with hsleeper | hfalse
    · exact (h.wakes (hold hsleeper hbefore)).resolve_right (fun hawake => hawake hasleep)
    · exact absurd hbefore hfalse
  · exact hnew

section TaskLists

/-! How the usual changes of a list of tasks act on a queue. `p` tells the sleepers of the queue
and `q` the tasks that are about to wake it. -/

variable {T : Type*} {p q : T → Bool} {tasks : List T}

/-- The tasks stay as they are, and the condition does not become true. -/
theorem QueueStep.same (hcond : cond' → cond) :
    QueueStep (tasks.any p = true) cond (tasks.any q = true) (tasks.any p = true) cond'
      (tasks.any q = true) :=
  ⟨.inl, .inl, fun h => .inl (hcond h)⟩

/-- A task joins that does not sleep; if it makes the condition true it is about to wake. -/
theorem QueueStep.add {new : T} (hnew : p new = false) (hcond : cond' → cond ∨ q new = true) :
    QueueStep (tasks.any p = true) cond (tasks.any q = true) ((tasks ++ [new]).any p = true) cond'
      ((tasks ++ [new]).any q = true) := by
  simp only [List.any_append, List.any_cons, List.any_nil, hnew, Bool.or_false, Bool.or_eq_true]
  refine ⟨.inl, fun h => .inl (.inl h), fun h => ?_⟩
  rcases hcond h with hbefore | hwakes
  · exact .inl hbefore
  · exact .inr (.inr hwakes)

/-- A task found after one task has moved on was there before or is the one that moved. -/
theorem any_of_any_set {t : Nat} {new : T} (h : (tasks.set t new).any p = true) :
    tasks.any p = true ∨ p new = true := by
  obtain ⟨task, hmem, hp⟩ := List.any_eq_true.mp h
  rcases List.mem_or_eq_of_mem_set hmem with hmem | rfl
  · exact .inl (List.any_eq_true.mpr ⟨task, hmem, hp⟩)
  · exact .inr hp

/-- A task that is not about to wake moves on; it falls asleep only while the condition is false,
and if it makes the condition true it is about to wake. -/
theorem QueueStep.set {t : Nat} {old new : T} (htask : tasks[t]? = some old)
    (hold : q old = false) (hnew : p new = true → ¬ cond) (hcond : cond' → cond ∨ q new = true) :
    QueueStep (tasks.any p = true) cond (tasks.any q = true) ((tasks.set t new).any p = true) cond'
      ((tasks.set t new).any q = true) := by
  have hlt := (List.getElem?_eq_some_iff.mp htask).1
  refine ⟨fun h => (any_of_any_set h).imp_right hnew, fun h => .inl ?_, fun h => ?_⟩
  · obtain ⟨task, hmem, hq⟩ := List.any_eq_true.mp h
    obtain ⟨i, hi⟩ := List.mem_iff_getElem?.mp hmem
    have hne : t ≠ i := by
      rintro rfl
      cases htask.symm.trans hi
      simp [hold] at hq
    refine List.any_eq_true.mpr ⟨task, List.mem_iff_getElem?.mpr ⟨i, ?_⟩, hq⟩
    rw [List.getElem?_set_ne hne, hi]
  · rcases hcond h with hbefore | hwakes
    · exact .inl hbefore
    · exact .inr (List.any_eq_true.mpr ⟨new, List.mem_set hlt new, hwakes⟩)

/-- A wake-up of another queue changes neither the sleepers nor those about to wake. -/
theorem any_map_of_same {r : T → Bool} {wake : T → T} (h : ∀ task, r (wake task) = r task) :
    (tasks.map wake).any r = tasks.any r := by
  rw [List.any_map]
  exact congrArg tasks.any (funext h)

/-- A wake-up of the queue itself leaves no sleeper. -/
theorem QueueStep.woken {wake : T → T} (hp : ∀ task, p (wake task) = false)
    (hcond : cond' → cond) :
    QueueStep asleep cond pending ((tasks.map wake).any p = true) cond' pending' := by
  have hnone : ¬ (tasks.map wake).any p = true := by
    simp [List.any_map, Function.comp_def, hp]
  exact ⟨fun h => absurd h hnone, fun _ => .inr hnone, fun h => .inl (hcond h)⟩

end TaskLists

end Ldd3
