import Ldd3.Edu.Report
import Ldd3.Edu.Waiter

/-!
# The timer of the interrupt test

Two functions start the timer: `qedu_set_waiting_irq` with `add_timer`, which must not find it
pending, and the callback itself with `mod_timer`. The handlers delete it, and the removal deletes
it and waits for the callback. `TimerStep` says what a step does to the timer, to its callback and
to the removal.

Nobody looks at the timer when a call clears `IRQ_WAIT`. It is still pending there if the call found
a result that another call left behind, if the callback has started it again after the handler
deleted it, or if only the removal ended the wait. `timer_added_once` says that `add_timer` never
finds the timer pending in the runs without these three. `timer_quiet_after_removal` says that the
timer never runs again once `del_timer_sync` has returned, in all runs.
-/

namespace Ldd3.Edu

/-- The sections that depend on what has become of the timer. -/
def Critical.timed : Critical → Bool
  | testIrq _ .report | handle _ (.setOk _) | timeout _ => true
  | _ => false

namespace EduState

/-- The callback is about to start the timer again: it finds no interrupt raised, and the device
busy with one. -/
inductive Rearms (s : EduState) : Action → Prop where
  | mk {status dmaStatus} (hlock : s.lock = some (.timeout .decide))
      (hraised : qeduIsIrqRaised s.intrStatus = false)
      (hbusy : (qeduIsIrqSet status dmaStatus && qeduIsBusyIrq status dmaStatus) = true) :
      Rearms s (.locked status dmaStatus)

/-- A call is about to leave the wait loop for the shutdown alone, with no result. -/
inductive LeavesForShutdown (s : EduState) : Action → Prop where
  | mk {c status dmaStatus} (hlock : s.lock = some (.testIrq c .loop))
      (hshutdown : s.bits.shutdown = true) (hok : s.bits.irqOk = false)
      (htimedout : s.bits.irqTimedout = false) : LeavesForShutdown s (.locked status dmaStatus)

/-- What a step does to the timer, to its callback and to the removal before its
`del_timer_sync`. -/
inductive TimerStep (s : EduState) : Action → EduState → Prop where
  | other {a t} (htimer : t.timer = s.timer) (htimeout : t.timeout = s.timeout)
      (hremove : t.remove = .delTimer → s.remove = .delTimer)
      (hlock : ∀ sec, t.lock = some sec → sec.timed = true → s.lock = some sec) : TimerStep s a t
  | arms {a t c} (hlock : s.lock = some (.testIrq c .raised))
      (hlock' : t.lock = some (.testIrq c .loop)) (htimeout : t.timeout = s.timeout)
      (hremove : t.remove = s.remove) : TimerStep s a t
  | leaves {status dmaStatus t c} (hlock : s.lock = some (.testIrq c .loop))
      (hdone : s.bits.qeduIsIrqDone = true) (hlock' : t.lock = some (.testIrq c .report))
      (htimer : t.timer = s.timer) (htimeout : t.timeout = s.timeout)
      (hremove : t.remove = s.remove) : TimerStep s (.locked status dmaStatus) t
  | deletes {a t k seen} (hlock' : t.lock = some (.handle k (.setOk seen)))
      (htimer : t.timer = false) (htimeout : t.timeout = s.timeout)
      (hremove : t.remove = s.remove) : TimerStep s a t
  | expires {a t} (hpending : s.timer = true) (hlock : t.lock = s.lock) (htimer : t.timer = false)
      (htimeout : t.timeout = .spin) (hremove : t.remove = s.remove) : TimerStep s a t
  | starts {a t} (hspin : s.timeout = .spin) (hlock' : t.lock = some (.timeout .decide))
      (htimer : t.timer = s.timer) (htimeout : t.timeout = .inside)
      (hremove : t.remove = s.remove) : TimerStep s a t
  | runs {a t at_ next} (hlock : s.lock = some (.timeout at_))
      (hlock' : t.lock = some (.timeout next)) (htimer : t.timer = s.timer)
      (htimeout : t.timeout = s.timeout) (hremove : t.remove = s.remove) : TimerStep s a t
  | rearms {a t} (hrearms : Rearms s a) (hlock' : t.lock = some (.timeout .unlock))
      (htimeout : t.timeout = s.timeout) (hremove : t.remove = s.remove) : TimerStep s a t
  | ends {a t} (hlock' : t.lock = none) (htimer : t.timer = s.timer)
      (htimeout : t.timeout = .idle) (hremove : t.remove = s.remove) : TimerStep s a t
  | announces {a t} (hlock' : t.lock = none) (hshutdown : t.bits.shutdown = true)
      (htimer : t.timer = s.timer) (htimeout : t.timeout = s.timeout) : TimerStep s a t
  | synced {a t} (hidle : s.timeout = .idle) (hlock : t.lock = s.lock) (htimer : t.timer = false)
      (htimeout : t.timeout = s.timeout) (hremove : t.remove = .relock) : TimerStep s a t

variable {s t : EduState} {a : Action} {e : Event}

/-- What `test_irq_show` does under the lock. -/
theorem test_irq_show_timer (status dmaStatus : BitVec 32) {c : Nat} {at_ : ShowSection}
    (hlock : s.lock = some (.testIrq c at_)) :
    TimerStep s (.locked status dmaStatus) (s.testIrqShow c at_).1 := by
  cases at_ with
  | check =>
      simp only [testIrqShow]
      split
      · exact .other rfl rfl id (by rintro _ ⟨⟩)
      · split
        · exact .other rfl rfl id (by rintro _ ⟨⟩)
        · exact .other rfl rfl id (by rintro _ ⟨⟩ ⟨⟩)
  | raised => exact .arms hlock rfl rfl rfl
  | loop =>
      simp only [testIrqShow]
      split
      · rename_i hdone
        exact .leaves hlock hdone rfl rfl rfl rfl
      · exact .other rfl rfl id (by rintro _ ⟨⟩)
  | report => exact .other rfl rfl id (by rintro _ ⟨⟩)

/-- What `__qedu_handle_irq` does under the lock. -/
theorem qedu_handle_irq_timer (k : Irq) (at_ : HandleSection) :
    TimerStep s a (s.qeduHandleIrq k at_).1 := by
  cases at_ with
  | delTimer status => exact .deletes rfl rfl rfl rfl
  | setOk status | ack status | wake => exact .other rfl rfl id (by rintro _ ⟨⟩ ⟨⟩)
  | unlock => exact .other rfl rfl id (by rintro _ ⟨⟩)

/-- What `qedu_timeout` does under the lock. -/
theorem qedu_timeout_timer (status dmaStatus : BitVec 32) {at_ : TimeoutSection}
    (hlock : s.lock = some (.timeout at_)) :
    TimerStep s (.locked status dmaStatus) (s.qeduTimeout status dmaStatus at_).1 := by
  cases at_ with
  | decide =>
      simp only [qeduTimeout]
      split
      · exact .runs hlock rfl rfl rfl rfl
      · split
        · rename_i hraised hbusy
          exact .rearms (.mk hlock (Bool.eq_false_iff.mpr hraised) hbusy) rfl rfl rfl
        · exact .runs hlock rfl rfl rfl rfl
  | wake => exact .runs hlock rfl rfl rfl rfl
  | unlock => exact .ends rfl rfl rfl rfl

/-- What `__qedu_remove` does under the lock. -/
theorem qedu_remove_timer {at_ : RemoveSection} (h : s.qeduRemove at_ = some t) :
    TimerStep s a t := by
  cases at_ with
  | setShutdown =>
      cases h
      exact .announces rfl rfl rfl rfl
  | drain =>
      simp only [qeduRemove] at h
      split at h <;> cases h
      · exact .other rfl rfl (by rintro ⟨⟩) (by rintro _ ⟨⟩)
      · exact .other rfl rfl id (by rintro _ ⟨⟩ ⟨⟩)
  | release =>
      simp only [qeduRemove] at h
      split at h <;> cases h
      exact .other rfl rfl (by rintro ⟨⟩) (by rintro _ ⟨⟩)

/-- What a step of the section that holds the lock does. -/
theorem locked_step_timer {status dmaStatus : BitVec 32}
    (h : s.lockedStep status dmaStatus = some (t, e)) :
    TimerStep s (.locked status dmaStatus) t := by
  unfold lockedStep at h
  split at h
  · rename_i c at_ hlock
    simpa only [Option.some.inj h] using test_irq_show_timer status dmaStatus hlock
  · rename_i k at_ hlock
    have hstep : TimerStep s (.locked status dmaStatus) _ := qedu_handle_irq_timer k at_
    simpa only [Option.some.inj h] using hstep
  · rename_i at_ hlock
    simpa only [Option.some.inj h] using qedu_timeout_timer status dmaStatus hlock
  · obtain ⟨t', ht, heq⟩ := Option.map_eq_some_iff.mp h
    cases heq
    exact qedu_remove_timer ht
  · cases h

/-- A call does nothing to the timer outside the lock. -/
theorem caller_step_timer {c : Nat} {signal : Bool} (h : s.callerStep c signal = some (t, e)) :
    TimerStep s a t := by
  unfold callerStep at h
  split at h
  · split at h <;> cases h
    exact .other rfl rfl id (by rintro _ ⟨⟩ ⟨⟩)
  · split at h
    · cases h
      exact .other rfl rfl id (fun _ hlock _ => hlock)
    · split at h <;> cases h
      exact .other rfl rfl id (by rintro _ ⟨⟩ ⟨⟩)
  · split at h <;> cases h
    exact .other rfl rfl id (fun _ hlock _ => hlock)
  · cases h

/-- A handler does nothing to the timer outside the lock. -/
theorem irq_step_timer {k : Irq} (h : s.irqStep k = some t) : TimerStep s a t := by
  unfold irqStep at h
  split at h
  · cases k with
    | hard | thread =>
        simp only at h
        split at h <;> cases h
        exact .other rfl rfl id (fun _ hlock _ => hlock)
  · split at h <;> cases h <;> exact .other rfl rfl id (fun _ hlock _ => hlock)
  · split at h
    · cases h
      exact .other rfl rfl id (by rintro _ ⟨⟩ ⟨⟩)
    · split at h <;> cases h
      exact .other rfl rfl id (fun _ hlock _ => hlock)
  · cases h

/-- What the timer callback does outside the lock. -/
theorem timeout_step_timer (h : s.timeoutStep = some t) : TimerStep s a t := by
  unfold timeoutStep at h
  split at h <;> cases h
  rename_i hspin
  exact .starts hspin.1 rfl rfl rfl rfl

/-- What the removal does outside the lock. -/
theorem remove_step_timer (h : s.removeStep = some t) : TimerStep s a t := by
  unfold removeStep at h
  split at h
  · cases h
    exact .other rfl rfl nofun (fun _ hlock _ => hlock)
  · split at h <;> cases h
    exact .other rfl rfl nofun (by rintro _ ⟨⟩ ⟨⟩)
  · split at h <;> cases h
    rename_i hidle
    exact .synced hidle rfl rfl rfl rfl
  · split at h <;> cases h
    exact .other rfl rfl nofun (by rintro _ ⟨⟩ ⟨⟩)
  · cases h
    exact .other rfl rfl nofun (fun _ hlock _ => hlock)
  · split at h <;> cases h
    exact .other rfl rfl nofun (by rintro _ ⟨⟩ ⟨⟩)
  all_goals cases h

/-- Every step does one of these to the timer. -/
theorem timer_step_sound (h : s.step a = some (t, e)) : TimerStep s a t := by
  unfold step at h
  split at h
  · cases h
  · cases a with
    | call =>
        cases h
        exact .other rfl rfl id (fun _ hlock _ => hlock)
    | caller c signal => exact caller_step_timer h
    | irq k =>
        obtain ⟨t', ht, heq⟩ := Option.map_eq_some_iff.mp h
        cases heq
        exact irq_step_timer ht
    | expire =>
        simp only at h
        split at h <;> cases h
        rename_i hpending
        exact .expires hpending.1 rfl rfl rfl rfl
    | timeout =>
        obtain ⟨t', ht, heq⟩ := Option.map_eq_some_iff.mp h
        cases heq
        exact timeout_step_timer ht
    | remove =>
        obtain ⟨t', ht, heq⟩ := Option.map_eq_some_iff.mp h
        cases heq
        exact remove_step_timer ht
    | locked status dmaStatus => exact locked_step_timer h

section Removal

/-! The removal announces the shutdown before it deletes the timer, and no call arms the timer once
the shutdown is announced. -/

/-- The callback runs while its section holds the lock, the shutdown is announced before the timer
is deleted, and a call that is about to arm the timer has found it not announced. -/
structure Announced (s : EduState) : Prop where
  running : ∀ at_, s.lock = some (.timeout at_) → s.timeout ≠ .idle
  announced : s.remove = .delTimer → s.bits.shutdown = true
  arming : ∀ c, s.lock = some (.testIrq c .raised) → s.bits.shutdown = false

theorem announced_init (intrStatus : BitVec 32) : Announced (init intrStatus) where
  running _ hlock := by cases hlock
  announced hremove := by cases hremove
  arming _ hlock := by cases hlock

/-- The shutdown is not taken back. -/
theorem DeviceStep.keeps_shutdown (h : DeviceStep s a e t) (hshutdown : s.bits.shutdown = true) :
    t.bits.shutdown = true := by
  cases h.bits_step with
  | same hbits | arms _ hbits | clears _ _ hbits | ok _ hbits | timedout _ hbits
  | shutdown _ hbits => simp [hbits, hshutdown, StateBits.qeduClearWaitingIrq]

theorem Announced.step (hs : Announced s) (h : s.step a = some (t, e)) : Announced t where
  running at_ hlock := by
    cases timer_step_sound h with
    | other _ htimeout _ hkept =>
        rw [htimeout]
        exact hs.running at_ (hkept _ hlock rfl)
    | runs hbefore _ _ htimeout =>
        rw [htimeout]
        exact hs.running _ hbefore
    | rearms hrearms _ htimeout =>
        cases hrearms with
        | mk hbefore =>
            rw [htimeout]
            exact hs.running _ hbefore
    | expires _ _ _ htimeout | starts _ _ _ htimeout => simp [htimeout]
    | synced _ hsame _ htimeout =>
        rw [htimeout]
        exact hs.running at_ (hsame ▸ hlock)
    | arms _ hlock' | leaves _ _ hlock' | deletes hlock' | ends hlock' | announces hlock' =>
        cases hlock'.symm.trans hlock
  announced hremove := by
    have hkeep := (device_step_sound h).keeps_shutdown
    cases timer_step_sound h with
    | other _ _ hbefore => exact hkeep (hs.announced (hbefore hremove))
    | announces _ hshutdown => exact hshutdown
    | synced _ _ _ _ hnext => cases hremove.symm.trans hnext
    | arms _ _ _ hsame | leaves _ _ _ _ _ hsame | deletes _ _ _ hsame | expires _ _ _ _ hsame
    | starts _ _ _ _ hsame | runs _ _ _ _ hsame | rearms _ _ _ hsame | ends _ _ _ hsame =>
        exact hkeep (hs.announced (hsame ▸ hremove))
  arming c hlock := by
    cases (device_step_sound h).lock_step hlock rfl with
    | kept hbefore hsame => rw [hsame.bits, hs.arming c hbefore]
    | raised _ hbits =>
        cases show_step h rfl with
        | raised _ hshutdown => rw [hbits, hshutdown]

/-- The timer is neither pending nor running and can no more be armed. -/
structure Quiet (s : EduState) : Prop where
  timer : s.timer = false
  timeout : s.timeout = .idle
  shutdown : s.bits.shutdown = true

/-- A quiet timer stays quiet. -/
theorem Quiet.step (hq : Quiet s) (hs : Announced s) (h : s.step a = some (t, e)) : Quiet t where
  timer := by
    cases timer_step_sound h with
    | arms hlock => cases (hs.arming _ hlock).symm.trans hq.shutdown
    | rearms hrearms =>
        cases hrearms with
        | mk hlock => exact absurd hq.timeout (hs.running _ hlock)
    | other htimer | leaves _ _ _ htimer | starts _ _ htimer | runs _ _ htimer | ends _ htimer
    | announces _ _ htimer => rw [htimer, hq.timer]
    | deletes _ htimer | expires _ _ htimer | synced _ _ htimer => exact htimer
  timeout := by
    cases timer_step_sound h with
    | expires hpending => cases hq.timer.symm.trans hpending
    | starts hspin => cases hq.timeout.symm.trans hspin
    | ends _ _ htimeout => exact htimeout
    | other _ htimeout | arms _ _ htimeout | leaves _ _ _ _ htimeout | deletes _ _ htimeout
    | runs _ _ _ htimeout | rearms _ _ htimeout | announces _ _ _ htimeout
    | synced _ _ _ htimeout => rw [htimeout, hq.timeout]
  shutdown := (device_step_sound h).keeps_shutdown hq.shutdown

/-- When `del_timer_sync` returns the timer is quiet. -/
theorem Announced.quiet_of_del_timer_sync (hs : Announced s) (hremove : s.remove = .delTimer)
    (h : s.step .remove = some (t, e)) : Quiet t := by
  have hshutdown := hs.announced hremove
  unfold EduState.step at h
  split at h
  · cases h
  · obtain ⟨t', ht, heq⟩ := Option.map_eq_some_iff.mp h
    cases heq
    simp only [removeStep, hremove] at ht
    split at ht <;> cases ht
    rename_i hidle
    exact ⟨rfl, hidle, hshutdown⟩

/-- Whatever the agents do before and after: once the `del_timer_sync` of the removal has returned,
the timer is not pending, its callback does not run, and the timer cannot expire. -/
theorem timer_quiet_after_removal (intrStatus : BitVec 32) (actions later : List Action)
    (s t u : EduState) (e : Event)
    (hdelete : Machine.Takes step (init intrStatus) actions s .remove e t)
    (hremove : s.remove = .delTimer) (hlater : Machine.Visits step t later u) :
    u.timer = false ∧ u.timeout = .idle ∧ u.step .expire = none := by
  have hs : Announced s := hdelete.source.invariant (fun _ _ _ _ hs hstep => hs.step hstep)
    (announced_init intrStatus)
  have hu : Announced u ∧ Quiet u := by
    refine hlater.invariant (I := fun u => Announced u ∧ Quiet u) ?_
      ⟨hs.step hdelete.step_eq, hs.quiet_of_del_timer_sync hremove hdelete.step_eq⟩
    rintro u a e u' ⟨hu, hquiet⟩ hstep
    exact ⟨hu.step hstep, hquiet.step hu hstep⟩
  refine ⟨hu.2.timer, hu.2.timeout, ?_⟩
  simp [EduState.step, hu.2.timer]

/-- A call sleeps with its timer pending when the removal announces the shutdown. -/
def removedTest : List Action := sleepingCall ++ [.remove, .remove, .locked 0 0]

/-- The removal has deleted the timer, and the call goes on. -/
theorem timer_quiet_after_removal_sleeping :
    ∃ s t u e, Machine.Takes step (init 0) (removedTest ++ [.remove]) s .remove e t ∧
      s.timer = true ∧ Machine.Visits step t [.caller 0 true] u ∧ u.timer = false ∧
      u.timeout = .idle ∧ u.step .expire = none := by
  have hrun : ∃ s t u es, Machine.run step (init 0) removedTest = some (s, es) ∧
      s.step .remove = some (t, .quiet) ∧ s.timer = true ∧ s.remove = .delTimer ∧
      t.step (.caller 0 true) = some (u, .quiet) := ⟨_, _, _, _, rfl, rfl, rfl, rfl, rfl⟩
  obtain ⟨s, t, u, es, hrun, hstep, htimer, hremove, hnext⟩ := hrun
  have htakes := Machine.takes_of_run hrun hstep
  have hvisits : Machine.Visits step t [.caller 0 true] u := .later hnext (.here _ _)
  exact ⟨s, t, u, _, htakes, htimer, hvisits,
    timer_quiet_after_removal 0 _ _ s t u _ htakes hremove hvisits⟩

end Removal

section Armed

/-! A pending timer belongs to the call in the region, and that call has no result yet. -/

/-- The conditions on a step under which a call that reports leaves no timer behind. -/
structure TimerGuard (s : EduState) (a : Action) : Prop where
  /-- a result is set for a test that is going on -/
  sets : SetsResult s a → s.bits.irqWait = true
  /-- the callback starts the timer again only when a signal has ended the call it runs for -/
  rearms : Rearms s a → s.bits.irqWait = true ∧ ∀ c, ¬ InRegion s c
  /-- a call that only the shutdown ends has no pending timer -/
  leaves : LeavesForShutdown s a → s.timer = false

/-- A pending timer is that of the call in the region, which has no result yet. -/
structure TimerOwned (s : EduState) : Prop where
  answered : Answered s
  results : ∃ events, OwnResults s events
  pending : s.timer = true → s.bits.irqWait = true
  unanswered : ∀ c, InRegion s c → s.timer = true →
    s.bits.irqOk = false ∧ s.bits.irqTimedout = false
  reporting : ∀ c, s.lock = some (.testIrq c .report) → s.timer = false
  deleted : ∀ k seen, s.lock = some (.handle k (.setOk seen)) → s.timer = false

theorem timer_owned_init (intrStatus : BitVec 32) : TimerOwned (init intrStatus) where
  answered := answered_init intrStatus
  results := ⟨[], own_results_init intrStatus⟩
  pending htimer := by cases htimer
  unanswered c hc := absurd hc (not_in_region_init intrStatus c)
  reporting _ hlock := by cases hlock
  deleted _ _ hlock := by cases hlock

/-- A step that leaves the timer pending found it so, or arms it or starts it again. -/
theorem TimerStep.pending (h : TimerStep s a t) (htimer : t.timer = true) :
    s.timer = true ∨ (∃ c, s.lock = some (.testIrq c .raised) ∧ t.lock = some (.testIrq c .loop)) ∨
      Rearms s a := by
  cases h with
  | other hsame | leaves _ _ _ hsame | starts _ _ hsame | runs _ _ hsame | ends _ hsame
  | announces _ _ hsame => exact .inl (hsame ▸ htimer)
  | arms hlock hlock' => exact .inr (.inl ⟨_, hlock, hlock'⟩)
  | rearms hrearms => exact .inr (.inr hrearms)
  | deletes _ hoff | expires _ _ hoff | synced _ _ hoff => cases hoff.symm.trans htimer

/-- A call that leaves its wait loop leaves no timer pending. -/
theorem TimerOwned.leaves (hs : TimerOwned s) (hguard : TimerGuard s a) {c : Nat}
    {status dmaStatus : BitVec 32} (ha : a = .locked status dmaStatus)
    (hlock : s.lock = some (.testIrq c .loop)) (hdone : s.bits.qeduIsIrqDone = true) :
    s.timer = false := by
  subst ha
  cases htimer : s.timer with
  | false => rfl
  | true =>
      obtain ⟨hok, htimedout⟩ := hs.unanswered c (.inr (.inl hlock)) htimer
      simp only [StateBits.qeduIsIrqDone, hok, htimedout, Bool.false_or] at hdone
      cases htimer.symm.trans (hguard.leaves (.mk hlock hdone hok htimedout))

/-- Neither handler nor callback sets a result while a call waits for its pending timer. -/
theorem TimerOwned.not_sets (hs : TimerOwned s) (hsets : SetsResult s a) {c : Nat}
    (hc : InRegion s c) : s.timer = false := by
  cases hsets with
  | ok hlock => exact hs.deleted _ _ hlock
  | timedout hlock hraised =>
      cases htimer : s.timer with
      | false => rfl
      | true =>
          -- the interrupt of `c` is not raised any more, so a handler has set `IRQ_OK`
          rcases hs.answered.answered c hc with hbit | hok
          · cases hraised.symm.trans (qedu_is_irq_raised_of_bit hbit)
          · cases hok.symm.trans (hs.unanswered c hc htimer).1

/-- Without a step that sets a result there is none. -/
theorem DeviceStep.keeps_no_result (h : DeviceStep s a e t) (hsets : ¬ SetsResult s a)
    (hnone : s.bits.irqOk = false ∧ s.bits.irqTimedout = false) :
    t.bits.irqOk = false ∧ t.bits.irqTimedout = false := by
  cases h.bits_step with
  | same hbits | arms _ hbits | shutdown _ hbits =>
      rw [hbits]
      exact hnone
  | clears _ _ hbits =>
      rw [hbits]
      exact ⟨rfl, rfl⟩
  | ok hsets' | timedout hsets' => exact absurd hsets' hsets

/-- `IRQ_WAIT` stays set unless a call reports. -/
theorem DeviceStep.keeps_wait (h : DeviceStep s a e t) (hwait : s.bits.irqWait = true)
    (hreport : ∀ c, s.lock ≠ some (.testIrq c .report)) : t.bits.irqWait = true := by
  cases h.bits_step with
  | arms _ hbits => rw [hbits]
  | clears hlock => exact absurd hlock (hreport _)
  | same hbits | ok _ hbits | timedout _ hbits | shutdown _ hbits => rw [hbits, hwait]

/-- A pending timer is one of a test that is going on. -/
theorem TimerOwned.pending_step (hs : TimerOwned s) (h : s.step a = some (t, e))
    (hguard : TimerGuard s a) (htimer : t.timer = true) : t.bits.irqWait = true := by
  have hdevice := device_step_sound h
  rcases (timer_step_sound h).pending htimer with hbefore | ⟨c, _, hlock⟩ | hrearms
  · refine hdevice.keeps_wait (hs.pending hbefore) fun c hlock => ?_
    cases hbefore.symm.trans (hs.reporting c hlock)
  · exact (hdevice.exclusive hs.answered.exclusive).waits c (.inr (.inl hlock))
  · refine hdevice.keeps_wait (hguard.rearms hrearms).1 fun c hlock => ?_
    cases hrearms with
    | mk hdecide => cases hdecide.symm.trans hlock

/-- A call whose timer is pending has no result. -/
theorem TimerOwned.unanswered_step (hs : TimerOwned s) (h : s.step a = some (t, e))
    (hguard : TimerGuard s a) {c : Nat} (hc : InRegion t c) (htimer : t.timer = true) :
    t.bits.irqOk = false ∧ t.bits.irqTimedout = false := by
  have hdevice := device_step_sound h
  have hexclusive := hs.answered.exclusive
  rcases (timer_step_sound h).pending htimer with hbefore | ⟨d, hraised, _⟩ | hrearms
  · rcases hdevice.region hc with hin | ⟨hraised, _⟩
    · refine hdevice.keeps_no_result (fun hsets => ?_) (hs.unanswered c hin hbefore)
      cases hbefore.symm.trans (hs.not_sets hsets hin)
    · cases (hs.pending hbefore).symm.trans (hexclusive.fresh c hraised)
  · obtain ⟨events, hevents⟩ := hs.results
    refine hdevice.keeps_no_result (fun hsets => ?_)
      (hevents.clean (hexclusive.fresh d hraised))
    cases hsets with
    | ok hlock | timedout hlock => cases hlock.symm.trans hraised
  · rcases hdevice.region hc with hin | ⟨hraised, _⟩
    · exact absurd hin ((hguard.rearms hrearms).2 c)
    · cases hrearms with
      | mk hdecide => cases hdecide.symm.trans hraised

/-- A step that meets the conditions leaves the timer with its call. -/
theorem TimerOwned.step (hs : TimerOwned s) (h : s.step a = some (t, e))
    (hguard : TimerGuard s a) : TimerOwned t where
  answered := (device_step_sound h).answered hs.answered
  results := by
    obtain ⟨events, hevents⟩ := hs.results
    exact ⟨_, (device_step_sound h).own_results hevents hguard.sets⟩
  pending htimer := hs.pending_step h hguard htimer
  unanswered c hc htimer := hs.unanswered_step h hguard hc htimer
  reporting c hlock := by
    cases timer_step_sound h with
    | other htimer _ _ hkept =>
        rw [htimer]
        exact hs.reporting c (hkept _ hlock rfl)
    | leaves hloop hdone _ htimer =>
        rw [htimer]
        exact hs.leaves hguard rfl hloop hdone
    | expires _ _ htimer | synced _ _ htimer => exact htimer
    | arms _ hlock' | deletes hlock' | starts _ hlock' | runs _ hlock' | rearms _ hlock'
    | ends hlock' | announces hlock' => cases hlock'.symm.trans hlock
  deleted k seen hlock := by
    cases timer_step_sound h with
    | other htimer _ _ hkept =>
        rw [htimer]
        exact hs.deleted k seen (hkept _ hlock rfl)
    | deletes _ htimer | expires _ _ htimer | synced _ _ htimer => exact htimer
    | arms _ hlock' | leaves _ _ hlock' | starts _ hlock' | runs _ hlock' | rearms _ hlock'
    | ends hlock' | announces hlock' => cases hlock'.symm.trans hlock

/-- In every run whose steps meet `TimerGuard`, `add_timer` never finds the timer pending, and no
call clears `IRQ_WAIT` with the timer pending. -/
theorem timer_added_once (intrStatus : BitVec 32) (actions : List Action)
    (hguard : ∀ t a e t', Machine.Takes step (init intrStatus) actions t a e t' →
      TimerGuard t a)
    (t : EduState) (h : Machine.Visits step (init intrStatus) actions t) (c : Nat) :
    (t.lock = some (.testIrq c .raised) → t.timer = false) ∧
      (t.lock = some (.testIrq c .report) → t.timer = false) := by
  have ht : TimerOwned t := h.invariant_of_guard (G := fun t a _ _ => TimerGuard t a)
    (fun _ _ _ _ hs hguard hstep => hs.step hstep hguard) (timer_owned_init intrStatus) hguard
  refine ⟨fun hlock => ?_, ht.reporting c⟩
  cases htimer : t.timer with
  | false => rfl
  | true => cases (ht.pending htimer).symm.trans (ht.answered.exclusive.fresh c hlock)

/-- The conditions hold where no callback decides, the device is not shutting down and a handler
sets `IRQ_OK` for a test that is going on. -/
theorem timer_guard_of_lock (hdecide : s.lock ≠ some (.timeout .decide))
    (hset : ∀ k seen, s.lock = some (.handle k (.setOk seen)) → s.bits.irqWait = true)
    (hshutdown : s.bits.shutdown = false) : TimerGuard s a where
  sets hsets := by
    cases hsets with
    | ok hlock => exact hset _ _ hlock
    | timedout hlock => exact absurd hlock hdecide
  rearms hrearms := by
    cases hrearms with
    | mk hlock => exact absurd hlock hdecide
  leaves hleaves := by
    cases hleaves with
    | mk _ hset => cases hset.symm.trans hshutdown

/-- A call is woken by the handler and takes the lock to report. -/
def reportingTest : List Action :=
  [.call, .caller 0 false, .locked 0 0, .locked 0 0, .locked 0 0, .caller 0 false, .irq .hard,
    .irq .hard, .irq .hard, .locked 0 0, .locked 0 0, .locked 0 0, .locked 0 0, .locked 0 0,
    .caller 0 false, .caller 0 false, .locked 0 0]

/-- The handler has deleted the timer that the call armed. -/
theorem timer_added_once_reporting :
    ∃ t, Machine.Visits step (init 0) reportingTest t ∧ t.lock = some (.testIrq 0 .report) ∧
      t.timer = false := by
  have hrun : ∃ t es, Machine.run step (init 0) reportingTest = some (t, es) ∧
      t.lock = some (.testIrq 0 .report) := ⟨_, _, rfl, rfl⟩
  obtain ⟨t, es, hrun, hlock⟩ := hrun
  have hvisits := Machine.visits_of_run hrun
  have hguard : ∀ t a e t', Machine.Takes step (init 0) reportingTest t a e t' →
      TimerGuard t a := by
    iterate 17
      refine Machine.forall_takes_cons rfl
        (timer_guard_of_lock (by rintro ⟨⟩) (by rintro _ _ ⟨⟩ <;> rfl) rfl) ?_
    exact Machine.forall_takes_nil
  exact ⟨t, hvisits, hlock, (timer_added_once 0 reportingTest hguard t hvisits 0).2 hlock⟩

/-- The callback of call 0 sets `IRQ_TIMEDOUT` when call 0 has returned, and call 1 reports at once
with the timer it has armed pending. Call 2 is about to arm it again. -/
theorem timer_added_twice :
    (∃ t, Machine.Visits step (init 0) (lateTimeout ++ nextCall) t ∧
      t.lock = some (.testIrq 1 .report) ∧ t.timer = true) ∧
    ∃ t t', Machine.Takes step (init 0)
      ((lateTimeout ++ nextCall ++ [.locked 0 0, .call, .caller 2 false, .locked 0 0]) ++
        [.locked 0 0]) t (.locked 0 0) .quiet t' ∧
      t.lock = some (.testIrq 2 .raised) ∧ t.timer = true ∧ t'.bug = true :=
  ⟨⟨_, Machine.visits_of_run rfl, rfl, rfl⟩, ⟨_, _, Machine.takes_of_run rfl rfl, rfl, rfl, rfl⟩⟩

end Armed

end EduState

end Ldd3.Edu
