import Ldd3.Edu.Irq

/-!
# The wait region of the interrupt test

A call of `test_irq_show` is in the wait region from the moment it has armed the timer until it
returns. It enters with `IRQ_WAIT` clear and sets it, which keeps every other call out; only its
own report clears the bit again. A call that a signal ends leaves the bit set.

`DeviceStep.lock_step` says how the sections come to hold the lock, `DeviceStep.region` how a call
comes into the region, and `DeviceStep.bits_step` what a step does to the bits. `Exclusive` follows
from the three.
-/

namespace Ldd3.Edu

/-- Moving one call on puts no other call into the wait loop. -/
theorem wait_of_set {callers : List ShowPc} {c d : Nat} {pc : ShowPc} {phase : Wait}
    (h : (callers.set c pc)[d]? = some (.wait phase)) :
    callers[d]? = some (.wait phase) ∨ c = d ∧ pc = .wait phase := by
  by_cases hcd : c = d
  · subst hcd
    rw [List.getElem?_set] at h
    split at h
    · split at h <;> cases h
      exact .inr ⟨rfl, rfl⟩
    · exact .inl h
  · rw [List.getElem?_set_ne hcd] at h
    exact .inl h

/-- A new call is not in the wait loop. -/
theorem wait_of_append {callers : List ShowPc} {d : Nat} {phase : Wait}
    (h : (callers ++ [.entry])[d]? = some (.wait phase)) :
    callers[d]? = some (.wait phase) := by
  rw [List.getElem?_append] at h
  split at h
  · exact h
  · obtain ⟨_, hentry⟩ := List.getElem?_eq_some_iff.mp h
    simp at hentry

/-- A wake-up puts no call into the wait loop. -/
theorem wait_of_wake {callers : List ShowPc} {d : Nat} {phase : Wait}
    (h : (callers.map ShowPc.wake)[d]? = some (.wait phase)) :
    ∃ before, callers[d]? = some (.wait before) := by
  rw [List.getElem?_map] at h
  obtain ⟨pc, hpc, hwake⟩ := Option.map_eq_some_iff.mp h
  cases pc with
  | wait before => exact ⟨before, hpc⟩
  | entry | inside | returned => cases hwake

/-- The event is one of a call of `test_irq_show`. -/
def Event.byShow : Event → Bool
  | raised _ | returned _ _ => true
  | quiet | setOk | setTimedout => false

namespace EduState

/-- Call `c` has armed the timer and has not returned. -/
def InRegion (s : EduState) (c : Nat) : Prop :=
  (∃ phase, s.callers[c]? = some (.wait phase)) ∨
    s.lock = some (.testIrq c .loop) ∨ s.lock = some (.testIrq c .report)

/-- The step sets a result bit: a handler is about to set `IRQ_OK`, or the timer callback is about
to decide and finds no interrupt raised and the device not busy with one. -/
inductive SetsResult (s : EduState) : Action → Prop where
  | ok {k seen status dmaStatus} (hlock : s.lock = some (.handle k (.setOk seen))) :
      SetsResult s (.locked status dmaStatus)
  | timedout {status dmaStatus} (hlock : s.lock = some (.timeout .decide))
      (hraised : qeduIsIrqRaised s.intrStatus = false)
      (hbusy : (qeduIsIrqSet status dmaStatus && qeduIsBusyIrq status dmaStatus) = false) :
      SetsResult s (.locked status dmaStatus)

/-- What a step does to the bits. -/
inductive BitsStep (s : EduState) : Action → Event → EduState → Prop where
  | same {a e t} (hbits : t.bits = s.bits) : BitsStep s a e t
  | arms {a e t c} (hlock : s.lock = some (.testIrq c .raised))
      (hbits : t.bits = { s.bits with irqWait := true }) : BitsStep s a e t
  | clears {a e t c} (hlock : s.lock = some (.testIrq c .report)) (hleft : ¬ InRegion t c)
      (hbits : t.bits = s.bits.qeduClearWaitingIrq) : BitsStep s a e t
  | ok {a t} (hsets : SetsResult s a) (hbits : t.bits = { s.bits with irqOk := true }) :
      BitsStep s a .setOk t
  | timedout {a t} (hsets : SetsResult s a)
      (hbits : t.bits = { s.bits with irqTimedout := true }) : BitsStep s a .setTimedout t
  | shutdown {a e t} (hlock : s.lock = some (.remove .setShutdown))
      (hbits : t.bits = { s.bits with shutdown := true }) : BitsStep s a e t

/-- How a section of `test_irq_show`, or one that owes a wake-up, comes to hold the lock. -/
inductive LockStep (s : EduState) : Event → EduState → Critical → Prop where
  | kept {e t sec} (hlock : s.lock = some sec) (hsame : SameDevice s t) : LockStep s e t sec
  | entered {e t c} : LockStep s e t (.testIrq c .check)
  | relocked {e t c} (hpc : s.callers[c]? = some (.wait .relock)) :
      LockStep s e t (.testIrq c .loop)
  | raised {t c} (hwait : s.bits.irqWait = false) (hbits : t.bits = s.bits)
      (hintr : t.intrStatus = s.intrStatus ||| 2) : LockStep s (.raised c) t (.testIrq c .raised)
  | armed {e t c} (hlock : s.lock = some (.testIrq c .raised))
      (hbits : t.bits = { s.bits with irqWait := true }) : LockStep s e t (.testIrq c .loop)
  | done {e t c} (hlock : s.lock = some (.testIrq c .loop)) (hdone : s.bits.qeduIsIrqDone = true)
      (hbits : t.bits = s.bits) : LockStep s e t (.testIrq c .report)
  | setOk {e t k seen} (hok : t.bits.irqOk = true) : LockStep s e t (.handle k (.ack seen))
  | acked {e t k} : LockStep s e t (.handle k .wake)
  | timedout {e t} : LockStep s e t (.timeout .wake)

/-- How a call comes to write `INTR_RAISE` or to return. -/
inductive ShowStep (s : EduState) : Action → Event → Prop where
  | cancelled {a c} (hlock : s.lock = some (.testIrq c .check)) :
      ShowStep s a (.returned c (.failed .ECANCELED))
  | busy {a c} (hlock : s.lock = some (.testIrq c .check)) (hwait : s.bits.irqWait = true) :
      ShowStep s a (.returned c (.failed .EBUSY))
  | raised {a c} (hlock : s.lock = some (.testIrq c .check))
      (hshutdown : s.bits.shutdown = false) : ShowStep s a (.raised c)
  | signalled {c} (hpc : s.callers[c]? = some (.wait .relock)) :
      ShowStep s (.caller c true) (.returned c (.failed .ERESTARTSYS))
  | reported {a c ret} (hlock : s.lock = some (.testIrq c .report))
      (hret : ret = if s.bits.irqOk then .irqOk else .irqFail s.bits) :
      ShowStep s a (.returned c ret)

variable {s t : EduState} {a : Action} {e : Event}

/-- A call that shows something outside the lock has been signalled. -/
theorem caller_step_shows {d : Nat} {signal : Bool} (h : s.callerStep d signal = some (t, e))
    (he : e.byShow = true) : ShowStep s (.caller d signal) e := by
  unfold callerStep at h
  split at h
  · split at h <;> cases h
    cases he
  · rename_i hpc
    split at h
    · rename_i hsignal
      cases h
      rw [hsignal]
      exact .signalled hpc
    · split at h <;> cases h
      cases he
  · split at h <;> cases h
    cases he
  · cases h

/-- What a call that has the lock shows. -/
theorem test_irq_show_shows {d : Nat} {at_ : ShowSection} (hlock : s.lock = some (.testIrq d at_))
    (he : (s.testIrqShow d at_).2.byShow = true) : ShowStep s a (s.testIrqShow d at_).2 := by
  cases at_ with
  | check =>
      simp only [testIrqShow]
      split
      · exact .cancelled hlock
      · rename_i hshutdown
        split
        · rename_i hwait
          exact .busy hlock hwait
        · exact .raised hlock (Bool.eq_false_iff.mpr hshutdown)
  | raised => cases he
  | loop =>
      simp only [testIrqShow] at he
      split at he <;> cases he
  | report => exact .reported hlock rfl

/-- The handlers show nothing of a call. -/
theorem qedu_handle_irq_shows (k : Irq) (at_ : HandleSection) :
    (s.qeduHandleIrq k at_).2.byShow = false := by
  cases at_ <;> rfl

/-- The timer callback shows nothing of a call. -/
theorem qedu_timeout_shows (status dmaStatus : BitVec 32) (at_ : TimeoutSection) :
    (s.qeduTimeout status dmaStatus at_).2.byShow = false := by
  cases at_ with
  | decide =>
      simp only [qeduTimeout]
      split
      · rfl
      · split <;> rfl
  | wake | unlock => rfl

/-- Every event of a call is one of these. -/
theorem show_step (h : s.step a = some (t, e)) (he : e.byShow = true) : ShowStep s a e := by
  unfold step at h
  split at h
  · cases h
  · cases a with
    | call =>
        cases h
        cases he
    | caller d signal => exact caller_step_shows h he
    | expire =>
        simp only at h
        split at h <;> cases h
        cases he
    | irq | timeout | remove =>
        obtain ⟨_, _, heq⟩ := Option.map_eq_some_iff.mp h
        cases heq
        cases he
    | locked status dmaStatus =>
        simp only [lockedStep] at h
        split at h
        · rename_i d at_ hlock
          obtain rfl : (s.testIrqShow d at_).2 = e := congrArg Prod.snd (Option.some.inj h)
          exact test_irq_show_shows hlock he
        · rename_i k at_ _
          obtain rfl : (s.qeduHandleIrq k at_).2 = e := congrArg Prod.snd (Option.some.inj h)
          cases (qedu_handle_irq_shows k at_).symm.trans he
        · rename_i at_ _
          obtain rfl : (s.qeduTimeout status dmaStatus at_).2 = e :=
            congrArg Prod.snd (Option.some.inj h)
          cases (qedu_timeout_shows status dmaStatus at_).symm.trans he
        · obtain ⟨_, _, heq⟩ := Option.map_eq_some_iff.mp h
          cases heq
          cases he
        · cases h

/-- Every other step leaves the lock free or in a plain section. -/
theorem DeviceStep.lock_step (h : DeviceStep s a e t) {sec : Critical} (hlock : t.lock = some sec)
    (hsec : sec.plain = false) : LockStep s e t sec := by
  have hplain : ∀ sec' : Critical, t.lock = some sec' → sec'.plain ≠ true := by
    intro sec' hlock' htrue
    cases hlock.symm.trans hlock'
    rw [hsec] at htrue
    cases htrue
  cases h with
  | outside hsame _ hlock' => exact .kept (hlock' ▸ hlock) hsame
  | call | waits | signalled => exact .kept hlock ⟨rfl, rfl⟩
  | enter =>
      cases hlock
      exact .entered
  | relock _ hpc =>
      cases hlock
      exact .relocked hpc
  | raises _ hwait =>
      cases hlock
      exact .raised hwait rfl rfl
  | arms hraised =>
      cases hlock
      exact .armed hraised rfl
  | done hloop hdone =>
      cases hlock
      exact .done hloop hdone rfl
  | setsOk =>
      cases hlock
      exact .setOk rfl
  | acks =>
      cases hlock
      exact .acked
  | timesOut =>
      cases hlock
      exact .timedout
  | refused | unlocks | reports => cases hlock
  | shutsDown _ _ _ hnone => cases hnone.symm.trans hlock
  | acquire _ hnew htrue => exact absurd htrue (hplain _ hnew)
  | moves _ _ htrue => exact absurd (htrue sec hlock) (hplain sec hlock)
  | wakes _ _ htrue => exact absurd htrue (hplain _ rfl)

/-- A call that a step puts into the wait loop was in the region before. -/
theorem DeviceStep.waiting (h : DeviceStep s a e t) {d : Nat} {phase : Wait}
    (hwait : t.callers[d]? = some (.wait phase)) : InRegion s d := by
  cases h with
  | outside _ hcallers _ | acquire _ _ _ _ hcallers | moves _ _ _ _ hcallers
  | shutsDown _ _ _ _ hcallers =>
      rw [hcallers] at hwait
      exact .inl ⟨phase, hwait⟩
  | raises | arms | done | setsOk | acks | timesOut => exact .inl ⟨phase, hwait⟩
  | call => exact .inl ⟨phase, wait_of_append hwait⟩
  | @waits _ c before _ _ hpc _ =>
      rcases wait_of_set hwait with hsame | ⟨rfl, _⟩
      · exact .inl ⟨phase, hsame⟩
      · exact .inl ⟨before, hpc⟩
  | signalled | enter | relock | refused | reports =>
      rcases wait_of_set hwait with hsame | ⟨_, hpc⟩
      · exact .inl ⟨phase, hsame⟩
      · cases hpc
  | unlocks hlock =>
      rcases wait_of_set hwait with hsame | ⟨rfl, _⟩
      · exact .inl ⟨phase, hsame⟩
      · exact .inr (.inl hlock)
  | wakes => exact .inl (wait_of_wake hwait)

/-- A call comes into the region only by arming the timer. -/
theorem DeviceStep.region (h : DeviceStep s a e t) {d : Nat} (hd : InRegion t d) :
    InRegion s d ∨
      s.lock = some (.testIrq d .raised) ∧ t.bits = { s.bits with irqWait := true } := by
  rcases hd with ⟨phase, hwait⟩ | hlock | hlock
  · exact .inl (h.waiting hwait)
  · cases h.lock_step hlock rfl with
    | kept hloop => exact .inl (.inr (.inl hloop))
    | relocked hpc => exact .inl (.inl ⟨_, hpc⟩)
    | armed hraised hbits => exact .inr ⟨hraised, hbits⟩
  · cases h.lock_step hlock rfl with
    | kept hreport => exact .inl (.inr (.inr hreport))
    | done hloop => exact .inl (.inr (.inl hloop))

/-- A call that has left the lock for good is not in the region. -/
theorem not_in_region_leave (s : EduState) (c : Nat) (bits : StateBits) :
    ¬ InRegion { s.leave c .returned with bits := bits } c := by
  rintro (⟨phase, hwait⟩ | hlock | hlock)
  · rcases List.getElem?_eq_some_iff.mp hwait with ⟨hlt, hget⟩
    simp [leave] at hget
  · cases hlock
  · cases hlock

/-- Every step does one of these to the bits. -/
theorem DeviceStep.bits_step (h : DeviceStep s a e t) : BitsStep s a e t := by
  cases h with
  | outside hsame | acquire _ _ _ hsame | moves _ _ _ hsame => exact .same hsame.bits
  | call | waits | signalled | enter | relock | refused | raises | done | unlocks | acks
  | wakes => exact .same rfl
  | arms hlock => exact .arms hlock rfl
  | reports hlock => exact .clears hlock (not_in_region_leave s _ _) rfl
  | setsOk hlock => exact .ok (.ok hlock) rfl
  | timesOut hlock hraised hbusy => exact .timedout (.timedout hlock hraised hbusy) rfl
  | shutsDown hlock hbits => exact .shutdown hlock hbits

/-- At most one call is in the region, and as long as one is there `IRQ_WAIT` is set. A call that
is about to enter finds it clear. -/
structure Exclusive (s : EduState) : Prop where
  waits : ∀ c, InRegion s c → s.bits.irqWait = true
  unique : ∀ c d, InRegion s c → InRegion s d → c = d
  fresh : ∀ c, s.lock = some (.testIrq c .raised) → s.bits.irqWait = false

theorem not_in_region_init (intrStatus : BitVec 32) (c : Nat) : ¬ InRegion (init intrStatus) c := by
  rintro (⟨phase, hwait⟩ | hlock | hlock)
  · cases hwait
  · cases hlock
  · cases hlock

theorem exclusive_init (intrStatus : BitVec 32) : Exclusive (init intrStatus) where
  waits c hc := absurd hc (not_in_region_init intrStatus c)
  unique c _ hc := absurd hc (not_in_region_init intrStatus c)
  fresh _ _ := rfl

/-- No call is in the region while another is about to enter. -/
theorem Exclusive.not_in_region (hs : Exclusive s) {c : Nat}
    (hlock : s.lock = some (.testIrq c .raised)) (d : Nat) : ¬ InRegion s d := by
  intro hd
  have hset := hs.waits d hd
  rw [hs.fresh c hlock] at hset
  cases hset

/-- The call that clears the bits is the only one in the region, and leaves it. -/
theorem Exclusive.not_in_region_of_clears (hs : Exclusive s) (h : DeviceStep s a e t) {c : Nat}
    (hlock : s.lock = some (.testIrq c .report)) (hleft : ¬ InRegion t c) (d : Nat) :
    ¬ InRegion t d := by
  intro hd
  rcases h.region hd with hbefore | ⟨hraised, _⟩
  · rw [hs.unique d c hbefore (.inr (.inr hlock))] at hd
    exact hleft hd
  · rw [hlock] at hraised
    cases hraised

/-- A step keeps the calls apart. -/
theorem DeviceStep.exclusive (h : DeviceStep s a e t) (hs : Exclusive s) : Exclusive t where
  waits c hc := by
    rcases h.region hc with hbefore | ⟨_, hbits⟩
    · have hset := hs.waits c hbefore
      cases h.bits_step with
      | clears hlock hleft => exact absurd hc (hs.not_in_region_of_clears h hlock hleft c)
      | arms _ hbits => rw [hbits]
      | same hbits | ok _ hbits | timedout _ hbits | shutdown _ hbits => rw [hbits, hset]
    · rw [hbits]
  unique c d hc hd := by
    rcases h.region hc with hc | ⟨hc, _⟩ <;> rcases h.region hd with hd | ⟨hd, _⟩
    · exact hs.unique c d hc hd
    · exact absurd hc (hs.not_in_region hd c)
    · exact absurd hd (hs.not_in_region hc d)
    · cases hc.symm.trans hd
      rfl
  fresh c hc := by
    cases h.lock_step hc rfl with
    | kept hlock hsame => rw [hsame.bits, hs.fresh c hlock]
    | raised hwait hbits => rw [hbits, hwait]

/-- Whatever the agents do, the calls stay apart. -/
theorem exclusive_of_visits {intrStatus : BitVec 32} {actions : List Action} {t : EduState}
    (h : Machine.Visits step (init intrStatus) actions t) : Exclusive t :=
  h.invariant (fun _ _ _ _ hs hstep => (device_step_sound hstep).exclusive hs)
    (exclusive_init intrStatus)

/-- While a call is in the region, another call that has the lock is still to look at the bits. -/
theorem Exclusive.other_checks (hs : Exclusive s) {c d : Nat} {at_ : ShowSection}
    (hc : InRegion s c) (hne : d ≠ c) (hlock : s.lock = some (.testIrq d at_)) : at_ = .check := by
  cases at_ with
  | check => rfl
  | raised => exact absurd hc (hs.not_in_region hlock c)
  | loop => exact absurd (hs.unique d c (.inr (.inl hlock)) hc) hne
  | report => exact absurd (hs.unique d c (.inr (.inr hlock)) hc) hne

/-- A call that looks at the bits while `IRQ_WAIT` is set gives the lock back and returns. -/
theorem test_irq_show_refused {d : Nat} (status dmaStatus : BitVec 32) (hrun : s.bug = false)
    (hlock : s.lock = some (.testIrq d .check)) (hwait : s.bits.irqWait = true) :
    s.step (.locked status dmaStatus) = some (s.leave d .returned,
      .returned d (.failed (if s.bits.shutdown then .ECANCELED else .EBUSY))) := by
  simp only [step, hrun, lockedStep, hlock, testIrqShow, hwait, if_true]
  cases s.bits.shutdown with
  | true => rfl
  | false => rfl

/-- A result bit that a step clears is cleared by the report of the call in the region. -/
theorem DeviceStep.clears_result (h : DeviceStep s a e t)
    (hlost : s.bits.irqOk = true ∧ t.bits.irqOk = false ∨
      s.bits.irqTimedout = true ∧ t.bits.irqTimedout = false) :
    ∃ c, s.lock = some (.testIrq c .report) ∧ ¬ InRegion t c := by
  cases h.bits_step with
  | clears hlock hleft => exact ⟨_, hlock, hleft⟩
  | same hbits | arms _ hbits | ok _ hbits | timedout _ hbits | shutdown _ hbits =>
      rw [hbits] at hlost
      rcases hlost with ⟨hset, hclear⟩ | ⟨hset, hclear⟩
      · simp [hset] at hclear
      · simp [hset] at hclear

/-- Mutual exclusion of the interrupt test. In every reachable state at most one call is between
its `qedu_set_waiting_irq` and its exit, and as long as one is there `IRQ_WAIT` is set. Another
call that has taken the lock then returns `-EBUSY` or `-ECANCELED` and changes nothing else, and a
step that takes a result bit back is the report of a call that is there. -/
theorem irq_test_exclusive (intrStatus : BitVec 32) (actions : List Action) (t : EduState)
    (h : Machine.Visits step (init intrStatus) actions t) :
    (∀ c d, InRegion t c → InRegion t d → c = d) ∧
      (∀ c, InRegion t c → t.bits.irqWait = true) ∧
      (∀ c d at_, InRegion t c → d ≠ c → t.lock = some (.testIrq d at_) → t.bug = false →
        ∀ status dmaStatus, t.step (.locked status dmaStatus) = some (t.leave d .returned,
          .returned d (.failed (if t.bits.shutdown then .ECANCELED else .EBUSY)))) ∧
      ∀ a e t', t.step a = some (t', e) →
        (t.bits.irqOk = true ∧ t'.bits.irqOk = false ∨
          t.bits.irqTimedout = true ∧ t'.bits.irqTimedout = false) →
        ∃ c, InRegion t c ∧ t.lock = some (.testIrq c .report) ∧ ¬ InRegion t' c := by
  have ht := exclusive_of_visits h
  refine ⟨ht.unique, ht.waits, ?_, ?_⟩
  · intro c d at_ hc hne hlock hrun status dmaStatus
    cases ht.other_checks hc hne hlock
    exact test_irq_show_refused status dmaStatus hrun hlock (ht.waits c hc)
  · intro a e t' hstep hlost
    obtain ⟨c, hlock, hleft⟩ := (device_step_sound hstep).clears_result hlost
    exact ⟨c, .inr (.inr hlock), hlock, hleft⟩

/-- Call 0 waits for its interrupt, and call 1 takes the lock. -/
def secondCall : List Action :=
  [.call, .call, .caller 0 false, .locked 0 0, .locked 0 0, .locked 0 0, .caller 1 false]

/-- Call 1 is answered with `-EBUSY`. -/
theorem irq_test_exclusive_busy :
    ∃ t, Machine.Visits step (init 0) secondCall t ∧ InRegion t 0 ∧
      t.step (.locked 0 0) = some (t.leave 1 .returned, .returned 1 (.failed .EBUSY)) := by
  have hrun : ∃ t es, Machine.run step (init 0) secondCall = some (t, es) ∧
      t.callers[0]? = some (.wait .prepare) ∧ t.lock = some (.testIrq 1 .check) ∧
      t.bug = false ∧ t.bits.shutdown = false := ⟨_, _, rfl, rfl, rfl, rfl, rfl⟩
  obtain ⟨t, es, hrun, hpc, hlock, hbug, hshutdown⟩ := hrun
  have hvisits := Machine.visits_of_run hrun
  have hin : InRegion t 0 := .inl ⟨_, hpc⟩
  obtain ⟨-, -, hother, -⟩ := irq_test_exclusive 0 secondCall t hvisits
  have hstep := hother 0 1 .check hin (by decide) hlock hbug 0 0
  rw [hshutdown] at hstep
  exact ⟨t, hvisits, hin, hstep⟩

end EduState

end Ldd3.Edu
