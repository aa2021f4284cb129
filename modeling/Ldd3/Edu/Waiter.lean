import Ldd3.Edu.Region

/-!
# No stranded waiter in the interrupt test

A call that sleeps in the wait loop of `test_irq_show` has to be woken by a handler or by the timer
callback. The handlers delete the timer before they set `IRQ_OK`, the callback gives up when it
finds an interrupt raised, and the thread acts on a status it has read earlier. What carries the
argument is that the interrupt the call raised stays raised until a handler acknowledges it, and
that a handler acknowledges only after it has set `IRQ_OK` and before it wakes. So the call is
never left to the timer alone; `interrupt_or_wake_up` says so, and `no_stranded_waiter` follows.
-/

namespace Ldd3.Edu

/-- The call sleeps on `irq_q`. -/
def ShowPc.asleep : ShowPc → Bool
  | wait phase => phase.asleep
  | _ => false

/-- A call that a wake-up of `irq_q` reaches does not sleep. -/
theorem ShowPc.asleep_wake (pc : ShowPc) : pc.wake.asleep = false := by
  cases pc with
  | wait phase => exact phase.asleep_wake
  | entry | inside | returned => rfl

/-- A status with bit 1 set is one of a raised interrupt. -/
theorem qedu_is_irq_raised_of_bit {intrStatus : BitVec 32} (h : intrStatus[1] = true) :
    qeduIsIrqRaised intrStatus = true := by
  have hne : intrStatus &&& 7 ≠ 0 := by
    intro hzero
    have hbit := congrArg (fun x => x.getLsbD 1) hzero
    simp [h] at hbit
  simpa [qeduIsIrqRaised] using hne

/-- A plain section owes no wake-up. -/
theorem Critical.wakes_of_plain {sec : Critical} (h : sec.plain = true) : sec.wakes = false := by
  cases sec with
  | testIrq => rfl
  | handle | timeout | remove => simpa [plain] using h

namespace EduState

variable {s t : EduState} {a : Action} {e : Event}

/-- The section that holds the lock has set a result bit and has still to wake `irq_q`. -/
def WakePending (s : EduState) : Prop := s.lock.any Critical.wakes = true

/-- One of the two result bits is set. -/
def HasResult (s : EduState) : Prop := s.bits.irqOk = true ∨ s.bits.irqTimedout = true

/-- Some call sleeps in the wait loop. -/
def SomeAsleep (s : EduState) : Prop := s.callers.any ShowPc.asleep = true

/-- The timer is pending, or its callback has still to take its decision. -/
def TimerDue (s : EduState) : Prop :=
  s.timer = true ∨ s.timeout = .spin ∨ s.lock = some (.timeout .decide)

/-- A wake-up of `irq_q` leaves no call asleep. -/
theorem not_some_asleep_wake (lock : Option Critical) :
    ¬ SomeAsleep { s with callers := s.callers.map ShowPc.wake, lock := lock } := by
  simp [SomeAsleep, List.any_map, Function.comp_def, ShowPc.asleep_wake]

/-- A call falls asleep only while there is no result. -/
theorem DeviceStep.sleeps (h : DeviceStep s a e t) (hasleep : SomeAsleep t) :
    SomeAsleep s ∨ ¬ HasResult s := by
  cases h with
  | outside _ hcallers _ | acquire _ _ _ _ hcallers | moves _ _ _ _ hcallers
  | shutsDown _ _ _ _ hcallers => exact .inl (by rwa [SomeAsleep, hcallers] at hasleep)
  | raises | arms | done | setsOk | acks | timesOut => exact .inl hasleep
  | call => exact .inl (by simpa [SomeAsleep, ShowPc.asleep] using hasleep)
  | waits signal hpc hwait =>
      refine (any_of_any_set hasleep).imp_right fun hsleep => ?_
      have hdone := Wait.sleep_of_wait_once hwait hsleep
      rintro (hok | htimedout)
      · simp [StateBits.qeduIsIrqDone, hok] at hdone
      · simp [StateBits.qeduIsIrqDone, htimedout] at hdone
  | signalled | enter | relock | refused | reports | unlocks =>
      refine (any_of_any_set hasleep).imp_right fun hsleep => ?_
      cases hsleep
  | wakes => exact absurd hasleep (not_some_asleep_wake _)

/-- A pending wake-up stays pending until it is executed, and then nobody sleeps. -/
theorem DeviceStep.wakes_up (h : DeviceStep s a e t) (hpending : WakePending s) :
    WakePending t ∨ ¬ SomeAsleep t := by
  cases h with
  | outside _ _ hlock => exact .inl (by rwa [WakePending, hlock])
  | call | waits | signalled => exact .inl hpending
  | acks => exact .inl rfl
  | wakes => exact .inr (not_some_asleep_wake _)
  | moves hlock hsec =>
      rw [WakePending, hlock, Option.any_some, Critical.wakes_of_plain hsec] at hpending
      cases hpending
  | enter hlock | relock hlock | acquire hlock | refused _ hlock | raises hlock | arms hlock
  | done hlock | unlocks hlock | reports hlock | setsOk hlock | timesOut hlock
  | shutsDown hlock =>
      rw [WakePending, hlock] at hpending
      cases hpending

/-- A result comes with a pending wake-up. -/
theorem DeviceStep.makes (h : DeviceStep s a e t) (hresult : HasResult t) :
    HasResult s ∨ WakePending t := by
  cases h with
  | outside hsame | acquire _ _ _ hsame | moves _ _ _ hsame =>
      exact .inl (by rwa [HasResult, hsame.bits] at hresult)
  | shutsDown _ hbits => exact .inl (by rwa [HasResult, hbits] at hresult)
  | call | waits | signalled | enter | relock | refused | raises | arms | done | unlocks | acks
  | wakes => exact .inl hresult
  | reports => rcases hresult with hresult | hresult <;> cases hresult
  | setsOk | timesOut => exact .inr rfl

/-- A step loses no wake-up of `irq_q`. -/
theorem DeviceStep.queue_step (h : DeviceStep s a e t) :
    QueueStep (SomeAsleep s) (HasResult s) (WakePending s) (SomeAsleep t) (HasResult t)
      (WakePending t) :=
  ⟨h.sleeps, h.wakes_up, h.makes⟩

/-- Only an acknowledgement takes the interrupt back. -/
theorem DeviceStep.keeps_interrupt (h : DeviceStep s a e t) (hbit : s.intrStatus[1] = true) :
    t.intrStatus[1] = true ∨
      t.bits = s.bits ∧ ∃ k status, s.lock = some (.handle k (.ack status)) := by
  cases h with
  | outside hsame | acquire _ _ _ hsame | moves _ _ _ hsame =>
      exact .inl (by rw [hsame.intrStatus, hbit])
  | shutsDown _ _ hintr => exact .inl (by rw [hintr, hbit])
  | raises => exact .inl (by simp)
  | @acks _ k status hlock => exact .inr ⟨rfl, k, status, hlock⟩
  | call | waits | signalled | enter | relock | refused | arms | done | unlocks | reports
  | setsOk | timesOut | wakes => exact .inl hbit

/-- The interrupt of the call in the region is raised or has been handled, and no wake-up is
lost. -/
structure Answered (s : EduState) : Prop where
  exclusive : Exclusive s
  /-- the call that is about to enter has raised its interrupt -/
  raised : ∀ c, s.lock = some (.testIrq c .raised) → s.intrStatus[1] = true
  /-- a handler acknowledges after it has set the bit -/
  acked : ∀ k status, s.lock = some (.handle k (.ack status)) → s.bits.irqOk = true
  answered : ∀ c, InRegion s c → s.intrStatus[1] = true ∨ s.bits.irqOk = true
  woken : NoneStranded (SomeAsleep s) (HasResult s) (WakePending s)

theorem answered_init (intrStatus : BitVec 32) : Answered (init intrStatus) where
  exclusive := exclusive_init intrStatus
  raised _ hlock := by cases hlock
  acked _ _ hlock := by cases hlock
  answered c hc := by
    have hset := (exclusive_init intrStatus).waits c hc
    cases hset
  woken hasleep := by cases hasleep

/-- `IRQ_OK` stays set as long as a call is in the region. -/
theorem Exclusive.keeps_ok (hs : Exclusive s) (h : DeviceStep s a e t) {c : Nat}
    (hc : InRegion t c) (hok : s.bits.irqOk = true) : t.bits.irqOk = true := by
  cases h.bits_step with
  | clears hlock hleft => exact absurd hc (hs.not_in_region_of_clears h hlock hleft c)
  | ok _ hbits => rw [hbits]
  | same hbits | arms _ hbits | timedout _ hbits | shutdown _ hbits => rw [hbits, hok]

/-- A step keeps the interrupt of the call in the region answered. -/
theorem DeviceStep.answered (h : DeviceStep s a e t) (hs : Answered s) : Answered t where
  exclusive := h.exclusive hs.exclusive
  raised c hc := by
    cases h.lock_step hc rfl with
    | kept hlock hsame => rw [hsame.intrStatus, hs.raised c hlock]
    | raised _ _ hintr => simp [hintr]
  acked k status hlock := by
    cases h.lock_step hlock rfl with
    | kept hbefore hsame => rw [hsame.bits, hs.acked k status hbefore]
    | setOk hok => exact hok
  answered c hc := by
    -- the interrupt of `c` is still raised, or the handler that takes it back has set `IRQ_OK`
    have hbefore : s.intrStatus[1] = true ∨ s.bits.irqOk = true := by
      rcases h.region hc with hin | ⟨hlock, _⟩
      · exact hs.answered c hin
      · exact .inl (hs.raised c hlock)
    rcases hbefore with hbit | hok
    · refine (h.keeps_interrupt hbit).imp_right ?_
      rintro ⟨hbits, k, status, hlock⟩
      rw [hbits, hs.acked k status hlock]
    · exact .inr (hs.exclusive.keeps_ok h hc hok)
  woken := h.queue_step.none_stranded hs.woken

/-- Whatever the agents do, the interrupt of the call in the region stays answered. -/
theorem answered_of_visits {intrStatus : BitVec 32} {actions : List Action} {t : EduState}
    (h : Machine.Visits step (init intrStatus) actions t) : Answered t :=
  h.invariant (fun _ _ _ _ hs hstep => (device_step_sound hstep).answered hs)
    (answered_init intrStatus)

/-- A call that sleeps is in the region. -/
theorem in_region_of_asleep {c : Nat} {pc : ShowPc} (hpc : s.callers[c]? = some pc)
    (hasleep : pc.asleep = true) : InRegion s c := by
  cases pc with
  | wait phase => exact .inl ⟨phase, hpc⟩
  | entry | inside | returned => cases hasleep

/-- A call that sleeps is never left to the timer: its interrupt is raised and not acknowledged,
or a handler has set `IRQ_OK` and is about to wake it. -/
theorem Answered.interrupt_or_wake_up (ht : Answered t) {c : Nat} {pc : ShowPc}
    (hpc : t.callers[c]? = some pc) (hasleep : pc.asleep = true) :
    qeduIsIrqRaised t.intrStatus = true ∨ HasResult t ∧ WakePending t := by
  have hsome : SomeAsleep t := List.any_eq_true.mpr ⟨pc, List.mem_of_getElem? hpc, hasleep⟩
  rcases ht.answered c (in_region_of_asleep hpc hasleep) with hbit | hok
  · exact .inl (qedu_is_irq_raised_of_bit hbit)
  · exact .inr ⟨.inl hok, ht.woken hsome (.inl hok)⟩

/-- Whenever a call sleeps in the wait loop of `test_irq_show`, the timer is pending or its
callback has still to decide, or an interrupt is raised and not acknowledged, or a result bit is
set and the wake-up after it has still to be executed. -/
theorem no_stranded_waiter (intrStatus : BitVec 32) (actions : List Action) (t : EduState)
    (h : Machine.Visits step (init intrStatus) actions t) (c : Nat) (pc : ShowPc)
    (hpc : t.callers[c]? = some pc) (hasleep : pc.asleep = true) :
    TimerDue t ∨ qeduIsIrqRaised t.intrStatus = true ∨ HasResult t ∧ WakePending t :=
  .inr ((answered_of_visits h).interrupt_or_wake_up hpc hasleep)

/-- A call raises the interrupt, arms the timer and goes to sleep. -/
def sleepingCall : List Action :=
  [.call, .caller 0 false, .locked 0 0, .locked 0 0, .locked 0 0, .caller 0 false, .caller 0 false]

/-- The timer of a sleeping call expires, and the callback finds the interrupt raised; the hard
handler has set `IRQ_OK` and acknowledged, and has still to wake the call. -/
def handledCall : List Action :=
  sleepingCall ++ [.expire, .timeout, .locked 0 0, .locked 0 0, .irq .hard, .irq .hard, .irq .hard,
    .locked 0 0, .locked 0 0, .locked 0 0]

/-- Neither the timer nor the interrupt is left to wake this call, and the handler is. -/
theorem no_stranded_waiter_handled :
    ∃ t, Machine.Visits step (init 0) handledCall t ∧
      t.callers[0]? = some (.wait (.sched false)) ∧ qeduIsIrqRaised t.intrStatus = false ∧
      t.timer = false ∧
      (TimerDue t ∨ qeduIsIrqRaised t.intrStatus = true ∨ HasResult t ∧ WakePending t) := by
  have hrun : ∃ t es, Machine.run step (init 0) handledCall = some (t, es) ∧
      t.callers[0]? = some (.wait (.sched false)) ∧ qeduIsIrqRaised t.intrStatus = false ∧
      t.timer = false := ⟨_, _, rfl, rfl, rfl, rfl⟩
  obtain ⟨t, es, hrun, hpc, hraised, htimer⟩ := hrun
  have hvisits := Machine.visits_of_run hrun
  exact ⟨t, hvisits, hpc, hraised, htimer,
    no_stranded_waiter 0 handledCall t hvisits 0 _ hpc rfl⟩

end EduState

end Ldd3.Edu
