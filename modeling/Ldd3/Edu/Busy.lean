import Ldd3.Edu.Region

/-!
# A test that stays busy

`IRQ_WAIT` is set by the call that enters the wait region and cleared by its report. A call that a
signal ends leaves the region without a report, and then the bit is set for good: every later call
is answered with `-EBUSY`. Without such an exit the bit is set only while a call is in the region,
and `irq_test_not_left_busy` follows.
-/

namespace Ldd3.Edu.EduState

/-- The step is the exit of a call that finds a signal pending after its sleep. -/
inductive EndsBySignal (s : EduState) : Action → Prop where
  | mk {c} (hpc : s.callers[c]? = some (.wait .relock)) : EndsBySignal s (.caller c true)

variable {s t : EduState} {a : Action} {e : Event}

/-- The call that holds the lock is at its critical section. -/
def HolderInside (s : EduState) : Prop :=
  ∀ c at_, s.lock = some (.testIrq c at_) → s.callers[c]? = some .inside

theorem holder_inside_init (intrStatus : BitVec 32) : HolderInside (init intrStatus) := by
  intro c at_ hlock
  cases hlock

/-- A call that is in the wait loop does not hold the lock. -/
theorem HolderInside.ne_of_wait (hs : HolderInside s) {c d : Nat} {at_ : ShowSection} {phase : Wait}
    (hlock : s.lock = some (.testIrq c at_)) (hpc : s.callers[d]? = some (.wait phase)) :
    d ≠ c := by
  rintro rfl
  cases (hs d at_ hlock).symm.trans hpc

/-- A step keeps the holder of the lock at its critical section. -/
theorem DeviceStep.holder_inside (h : DeviceStep s a e t) (hs : HolderInside s) :
    HolderInside t := by
  intro c at_ hlock
  cases h with
  | outside _ hcallers hsame =>
      rw [hsame] at hlock
      rw [hcallers]
      exact hs c at_ hlock
  | call =>
      have hpc := hs c at_ hlock
      exact (List.getElem?_append_left (List.getElem?_eq_some_iff.mp hpc).1).trans hpc
  | waits _ hpc | signalled hpc =>
      rw [← hs c at_ hlock]
      exact List.getElem?_set_ne (hs.ne_of_wait hlock hpc)
  | enter _ hpc | relock _ hpc =>
      cases hlock
      exact List.getElem?_set_self (List.getElem?_eq_some_iff.mp hpc).1
  | raises hbefore | arms hbefore | done hbefore =>
      cases hlock
      exact hs _ _ hbefore
  | refused | unlocks | reports | setsOk | acks | timesOut => cases hlock
  | shutsDown _ _ _ hnone => cases hnone.symm.trans hlock
  | acquire _ hnew hsec =>
      cases hnew.symm.trans hlock
      cases hsec
  | moves _ _ hsec => cases hsec _ hlock
  | wakes _ _ hsec =>
      cases hlock
      cases hsec

/-- A call leaves the wait loop by taking the lock or by a signal. -/
theorem DeviceStep.stays_waiting (h : DeviceStep s a e t) (hs : HolderInside s) {d : Nat}
    {phase : Wait} (hwait : s.callers[d]? = some (.wait phase)) :
    InRegion t d ∨ e = .returned d (.failed .ERESTARTSYS) := by
  have hset : ∀ {c pc}, c ≠ d → (s.callers.set c pc)[d]? = some (.wait phase) := by
    intro c pc hne
    rw [List.getElem?_set_ne hne, hwait]
  have hlt := (List.getElem?_eq_some_iff.mp hwait).1
  cases h with
  | outside _ hcallers | acquire _ _ _ _ hcallers | moves _ _ _ _ hcallers
  | shutsDown _ _ _ _ hcallers => exact .inl (.inl ⟨phase, by rw [hcallers, hwait]⟩)
  | raises | arms | done | setsOk | acks | timesOut => exact .inl (.inl ⟨phase, hwait⟩)
  | call => exact .inl (.inl ⟨phase, (List.getElem?_append_left hlt).trans hwait⟩)
  | @waits _ c _ next =>
      by_cases hcd : c = d
      · subst hcd
        exact .inl (.inl ⟨next, List.getElem?_set_self hlt⟩)
      · exact .inl (.inl ⟨phase, hset hcd⟩)
  | @signalled _ c =>
      by_cases hcd : c = d
      · subst hcd
        exact .inr rfl
      · exact .inl (.inl ⟨phase, hset hcd⟩)
  | enter _ hpc =>
      refine .inl (.inl ⟨phase, hset ?_⟩)
      rintro rfl
      cases hpc.symm.trans hwait
  | @relock _ c =>
      by_cases hcd : c = d
      · subst hcd
        exact .inl (.inr (.inl rfl))
      · exact .inl (.inl ⟨phase, hset hcd⟩)
  | refused _ hlock | unlocks hlock | reports hlock =>
      exact .inl (.inl ⟨phase, hset (hs.ne_of_wait hlock hwait).symm⟩)
  | wakes =>
      refine .inl (.inl ⟨phase.wake, ?_⟩)
      simp [hwait, ShowPc.wake]

/-- A call in the region that holds the lock gives it back to wait, or reports. -/
theorem DeviceStep.stays_locked (h : DeviceStep s a e t) (hs : HolderInside s) {d : Nat}
    (hd : s.lock = some (.testIrq d .loop) ∨ s.lock = some (.testIrq d .report)) :
    InRegion t d ∨ t.bits.irqWait = false := by
  cases h with
  | outside _ _ hsame => exact .inl (.inr (by rwa [hsame]))
  | call | waits | signalled => exact .inl (.inr hd)
  | done hlock =>
      rcases hd with hd | hd <;> cases hlock.symm.trans hd
      exact .inl (.inr (.inr rfl))
  | unlocks hlock =>
      rcases hd with hd | hd <;> cases hlock.symm.trans hd
      have hlt := (List.getElem?_eq_some_iff.mp (hs _ _ hlock)).1
      exact .inl (.inl ⟨.prepare, List.getElem?_set_self hlt⟩)
  | reports => exact .inr rfl
  | enter hlock | relock hlock | acquire hlock | refused _ hlock | raises hlock | arms hlock
  | setsOk hlock | acks hlock | timesOut hlock | shutsDown hlock =>
      rcases hd with hd | hd <;> cases hlock.symm.trans hd
  | moves hlock hsec | wakes hlock hsec =>
      rcases hd with hd | hd <;> cases hlock.symm.trans hd <;> cases hsec

/-- A call stays in the region until it reports or a signal ends it. -/
theorem DeviceStep.stays (h : DeviceStep s a e t) (hs : HolderInside s) {d : Nat}
    (hd : InRegion s d) :
    InRegion t d ∨ t.bits.irqWait = false ∨ e = .returned d (.failed .ERESTARTSYS) := by
  rcases hd with ⟨phase, hwait⟩ | hlock
  · exact (h.stays_waiting hs hwait).imp_right .inr
  · exact (h.stays_locked hs hlock).imp_right .inl

/-- `IRQ_WAIT` is set only while a call is in the region. -/
structure Owned (s : EduState) : Prop where
  inside : HolderInside s
  owner : s.bits.irqWait = true → ∃ c, InRegion s c

theorem owned_init (intrStatus : BitVec 32) : Owned (init intrStatus) where
  inside := holder_inside_init intrStatus
  owner hwait := by cases hwait

/-- A call that sets `IRQ_WAIT` is in the region by that. -/
theorem DeviceStep.sets_wait (h : DeviceStep s a e t) (hclear : s.bits.irqWait = false)
    (hset : t.bits.irqWait = true) : ∃ c, InRegion t c := by
  cases h with
  | arms => exact ⟨_, .inr (.inl rfl)⟩
  | outside hsame | acquire _ _ _ hsame | moves _ _ _ hsame =>
      rw [hsame.bits] at hset
      cases hclear.symm.trans hset
  | shutsDown _ hbits =>
      rw [hbits] at hset
      cases hclear.symm.trans hset
  | reports => cases hset
  | call | waits | signalled | enter | relock | refused | raises | done | unlocks | setsOk | acks
  | timesOut | wakes => cases hclear.symm.trans hset

/-- A step other than an exit by signal leaves `IRQ_WAIT` with its call. -/
theorem Owned.step (hs : Owned s) (h : s.step a = some (t, e)) (hguard : ¬ EndsBySignal s a) :
    Owned t := by
  have hdevice := device_step_sound h
  refine ⟨hdevice.holder_inside hs.inside, fun hwait => ?_⟩
  cases hbefore : s.bits.irqWait with
  | false => exact hdevice.sets_wait hbefore hwait
  | true =>
      obtain ⟨c, hc⟩ := hs.owner hbefore
      rcases hdevice.stays hs.inside hc with hin | hclear | rfl
      · exact ⟨c, hin⟩
      · cases hwait.symm.trans hclear
      · cases show_step h rfl with
        | signalled hpc => exact absurd (.mk hpc) hguard
        | reported _ hret => split at hret <;> cases hret

/-- Some call of `test_irq_show` has not returned. -/
def InProgress (s : EduState) : Prop := ∃ pc ∈ s.callers, pc ≠ .returned

/-- A call in the region has not returned. -/
theorem Owned.in_progress (hs : Owned s) {c : Nat} (hc : InRegion s c) : InProgress s := by
  have hpc : ∃ pc, s.callers[c]? = some pc ∧ pc ≠ .returned := by
    rcases hc with ⟨phase, hwait⟩ | hlock | hlock
    · exact ⟨_, hwait, by simp⟩
    · exact ⟨_, hs.inside c _ hlock, by simp⟩
    · exact ⟨_, hs.inside c _ hlock, by simp⟩
  obtain ⟨pc, hpc, hne⟩ := hpc
  exact ⟨pc, List.mem_of_getElem? hpc, hne⟩

/-- The test is not left busy. In every run in which no call ends by a signal, `IRQ_WAIT` is clear
whenever no call is in progress, and a call is answered with `-EBUSY` only while another one is in
the wait region. -/
theorem irq_test_not_left_busy (intrStatus : BitVec 32) (actions : List Action)
    (hsignal : ∀ t a e t', Machine.Takes step (init intrStatus) actions t a e t' →
      ¬ EndsBySignal t a) :
    (∀ t, Machine.Visits step (init intrStatus) actions t → ¬ InProgress t →
        t.bits.irqWait = false) ∧
      ∀ t a c t', Machine.Takes step (init intrStatus) actions t a
        (.returned c (.failed .EBUSY)) t' → ∃ d, d ≠ c ∧ InRegion t d := by
  have howned : ∀ t, Machine.Visits step (init intrStatus) actions t → Owned t := by
    intro t ht
    exact ht.invariant_of_guard (G := fun t a _ _ => ¬ EndsBySignal t a)
      (fun _ _ _ _ hs hguard hstep => hs.step hstep hguard) (owned_init intrStatus) hsignal
  refine ⟨fun t ht hidle => ?_, fun t a c t' htake => ?_⟩
  · cases hwait : t.bits.irqWait with
    | false => rfl
    | true =>
        obtain ⟨c, hc⟩ := (howned t ht).owner hwait
        exact absurd ((howned t ht).in_progress hc) hidle
  · have hs := howned t htake.source
    cases show_step htake.step_eq rfl with
    | busy hlock hwait =>
        obtain ⟨d, hd⟩ := hs.owner hwait
        refine ⟨d, ?_, hd⟩
        rintro rfl
        rcases hd with ⟨phase, hpc⟩ | hd | hd
        · exact hs.inside.ne_of_wait hlock hpc rfl
        · cases hlock.symm.trans hd
        · cases hlock.symm.trans hd
    | reported _ hret => split at hret <;> cases hret

/-- A call sleeps, the handler wakes it, and it reports. -/
def handledTest : List Action :=
  [.call, .caller 0 false, .locked 0 0, .locked 0 0, .locked 0 0, .caller 0 false, .irq .hard,
    .irq .hard, .irq .hard, .locked 0 0, .locked 0 0, .locked 0 0, .locked 0 0, .locked 0 0,
    .caller 0 false, .caller 0 false, .locked 0 0, .locked 0 0]

/-- The call has returned, and `IRQ_WAIT` is clear. -/
theorem irq_test_not_left_busy_handled :
    ∃ t, Machine.Visits step (init 0) handledTest t ∧ t.callers = [.returned] ∧
      t.bits.irqWait = false := by
  have hrun : ∃ t es, Machine.run step (init 0) handledTest = some (t, es) ∧
      t.callers = [.returned] := ⟨_, _, rfl, rfl⟩
  obtain ⟨t, es, hrun, hcallers⟩ := hrun
  have hvisits := Machine.visits_of_run hrun
  have hidle : ¬ InProgress t := by simp [InProgress, hcallers]
  have hsignal : ∀ t a e t', Machine.Takes step (init 0) handledTest t a e t' →
      ¬ EndsBySignal t a := by
    rintro t a e t' htake ⟨-⟩
    have hmem := htake.action_mem
    simp [handledTest] at hmem
  obtain ⟨hclear, -⟩ := irq_test_not_left_busy 0 handledTest hsignal
  exact ⟨t, hvisits, hcallers, hclear t hvisits hidle⟩

/-- A signal ends the sleep of call 0, and the call returns `-ERESTARTSYS`. -/
def signalledTest : List Action :=
  [.call, .caller 0 false, .locked 0 0, .locked 0 0, .locked 0 0, .caller 0 false, .caller 0 false,
    .caller 0 true, .caller 0 true]

/-- No call is in progress, the device is not shutting down and `IRQ_WAIT` is set. The next call
is answered with `-EBUSY`, though no call is in the wait region. -/
theorem irq_test_left_busy :
    (∃ t, Machine.Visits step (init 0) signalledTest t ∧ ¬ InProgress t ∧
      t.bits.shutdown = false ∧ t.bits.irqWait = true) ∧
    ∃ t t', Machine.Takes step (init 0) ((signalledTest ++ [.call, .caller 1 false]) ++
      [.locked 0 0]) t (.locked 0 0) (.returned 1 (.failed .EBUSY)) t' ∧ ∀ d, ¬ InRegion t d := by
  refine ⟨⟨_, Machine.visits_of_run rfl, ?_, rfl, rfl⟩, ⟨_, _, Machine.takes_of_run rfl rfl, ?_⟩⟩
  · rintro ⟨pc, hmem, hne⟩
    exact hne (List.mem_singleton.mp hmem)
  · rintro d (⟨phase, hwait⟩ | hlock | hlock)
    · have hmem : ShowPc.wait phase ∈ [ShowPc.returned, ShowPc.inside] :=
        List.mem_of_getElem? hwait
      simp at hmem
    · cases hlock
    · cases hlock

end Ldd3.Edu.EduState
