import Mathlib.Logic.Function.Basic
import Ldd3.Kernel
import Ldd3.Machine
import Ldd3.WaitQueue

/-!
# The interrupt test of the edu driver

The agents around one `qedu_device`: any number of calls of `test_irq_show`, the hard and the
threaded interrupt handler, the timer with its callback and the removal of the device. What runs
under the spin lock of the device is a `Critical` section, and the lock itself records the
section and how far it has got, so that two sections never overlap. Everything else an agent does
is a step outside the lock. A hard handler whose `spin_trylock` fails leaves the work to the
thread.

`add_timer` on a pending timer is a kernel bug, and a run stops there. The device registers other
than `INTR_STATUS` are read by the timer callback only and take any value. The removal starts at
`__qedu_remove` and finds the calls at any point of their execution; that `driver_remove_file`
first waits for them leaves fewer runs.

`DeviceStep` says what a step does to the state bits, to `INTR_STATUS`, to the lock and to the
calls, and every invariant of these is derived from it.
-/

namespace Ldd3.Edu

/-- The bits of `state`. -/
structure StateBits where
  irqWait : Bool
  irqOk : Bool
  irqTimedout : Bool
  shutdown : Bool
  deriving DecidableEq, Repr

/-- `__qedu_is_irq_done`. -/
def StateBits.qeduIsIrqDone (bits : StateBits) : Bool :=
  bits.irqOk || bits.irqTimedout || bits.shutdown

/-- `qedu_clear_waiting_irq`. -/
def StateBits.qeduClearWaitingIrq (bits : StateBits) : StateBits :=
  { bits with irqWait := false, irqOk := false, irqTimedout := false }

/-- `__qedu_is_irq_raised`. -/
def qeduIsIrqRaised (intrStatus : BitVec 32) : Bool := intrStatus &&& 7 != 0

/-- `__qedu_is_irq_set`: `QEDU_STATUS_REG_IRQ_REQ` or `QEDU_DMA_CMD_IRQ_REQ`. -/
def qeduIsIrqSet (status dmaStatus : BitVec 32) : Bool :=
  status &&& 0x80 != 0 || dmaStatus &&& 0x04 != 0

/-- `__qedu_is_busy_irq`: `QEDU_STATUS_REG_BUSY` or `QEDU_DMA_CMD_IN_TRANSFER`. -/
def qeduIsBusyIrq (status dmaStatus : BitVec 32) : Bool :=
  status &&& 0x01 != 0 || dmaStatus &&& 0x01 != 0

/-- The two parts of the interrupt handler, `qedu_handle_irq` and `qedu_thr_handle_irq`. -/
inductive Irq where
  | hard
  | thread
  deriving DecidableEq, Repr

/-- `test_irq_show` under the lock. -/
inductive ShowSection where
  /-- about to look at `SHUTDOWN` and `IRQ_WAIT` and to write `INTR_RAISE` -/
  | check
  /-- about to call `qedu_set_waiting_irq` -/
  | raised
  /-- about to evaluate the condition of the while loop -/
  | loop
  /-- past the loop, about to look at the result and to clear the bits -/
  | report
  deriving DecidableEq, Repr

/-- `__qedu_handle_irq`, with the status its caller has read. -/
inductive HandleSection where
  | delTimer (status : BitVec 32)
  | setOk (status : BitVec 32)
  | ack (status : BitVec 32)
  | wake
  | unlock
  deriving DecidableEq, Repr

/-- `qedu_timeout` under the lock. -/
inductive TimeoutSection where
  | decide
  | wake
  | unlock
  deriving DecidableEq, Repr

/-- `__qedu_remove` under the lock. -/
inductive RemoveSection where
  | setShutdown
  | drain
  | release
  deriving DecidableEq, Repr

/-- The section that holds the lock. -/
inductive Critical where
  | testIrq (c : Nat) (at_ : ShowSection)
  | handle (k : Irq) (at_ : HandleSection)
  | timeout (at_ : TimeoutSection)
  | remove (at_ : RemoveSection)
  deriving DecidableEq, Repr

/-- A call of `test_irq_show`. -/
inductive ShowPc where
  | entry
  /-- in its critical section -/
  | inside
  /-- in the wait loop, without the lock -/
  | wait (phase : Wait)
  | returned
  deriving DecidableEq, Repr

/-- An interrupt handler. -/
inductive HandlerPc where
  | idle
  /-- about to read `INTR_STATUS` -/
  | read
  /-- about to take the lock, or to try to -/
  | spin (status : BitVec 32)
  | inside
  deriving DecidableEq, Repr

/-- The callback of the timer. -/
inductive TimeoutPc where
  | idle
  | spin
  | inside
  deriving DecidableEq, Repr

/-- `qedu_remove`, from `__qedu_remove` on. -/
inductive RemovePc where
  | idle
  | lock
  | delTimer
  | relock
  | sleep
  | lockAgain
  | inside
  | gone
  deriving DecidableEq, Repr

/-- The result of `test_irq_show`: one of the two texts, with the state bits the second one
prints, or an error. -/
inductive ShowRet where
  | irqOk
  | irqFail (bits : StateBits)
  | failed (err : Errno)
  deriving DecidableEq, Repr

/-- What a step shows. -/
inductive Event where
  | quiet
  /-- call `c` has written `INTR_RAISE` -/
  | raised (c : Nat)
  | setOk
  | setTimedout
  | returned (c : Nat) (ret : ShowRet)
  deriving DecidableEq, Repr

/-- The device and its agents. -/
structure EduState where
  bits : StateBits
  intrStatus : BitVec 32
  /-- the timer is pending -/
  timer : Bool
  lock : Option Critical
  callers : List ShowPc
  handlers : Irq → HandlerPc
  /-- the thread has been woken for another round -/
  runThread : Bool
  timeout : TimeoutPc
  remove : RemovePc
  /-- `add_timer` has found the timer pending -/
  bug : Bool

/-- One step of an agent outside the lock, or of the section that holds it. -/
inductive Action where
  | call
  | caller (c : Nat) (signal : Bool)
  | irq (k : Irq)
  | expire
  | timeout
  | remove
  | locked (status dmaStatus : BitVec 32)
  deriving DecidableEq, Repr

/-- A wake-up of `irq_q` reaches the waiting calls. -/
def ShowPc.wake : ShowPc → ShowPc
  | wait phase => wait phase.wake
  | pc => pc

namespace EduState

/-- The device after a successful probe, with whatever interrupt status it has. -/
def init (intrStatus : BitVec 32) : EduState :=
  ⟨⟨false, false, false, false⟩, intrStatus, false, none, [], fun _ => .idle, false, .idle, .idle,
    false⟩

/-- Call `c` takes the lock. -/
def enter (s : EduState) (c : Nat) (at_ : ShowSection) : EduState :=
  { s with lock := some (.testIrq c at_), callers := s.callers.set c .inside }

/-- Call `c` gives the lock back. -/
def leave (s : EduState) (c : Nat) (pc : ShowPc) : EduState :=
  { s with lock := none, callers := s.callers.set c pc }

/-- One step of `test_irq_show` under the lock. -/
def testIrqShow (s : EduState) (c : Nat) : ShowSection → EduState × Event
  | .check =>
      if s.bits.shutdown then (s.leave c .returned, .returned c (.failed .ECANCELED))
      else if s.bits.irqWait then (s.leave c .returned, .returned c (.failed .EBUSY))
      else
        ({ s with intrStatus := s.intrStatus ||| 2, lock := some (.testIrq c .raised) }, .raised c)
  | .raised =>
      -- `set_bit`, then `add_timer`
      ({ s with
          bits := { s.bits with irqWait := true }
          timer := true
          lock := some (.testIrq c .loop)
          bug := s.timer }, .quiet)
  | .loop =>
      if s.bits.qeduIsIrqDone then ({ s with lock := some (.testIrq c .report) }, .quiet)
      else (s.leave c (.wait .prepare), .quiet)
  | .report =>
      ({ s.leave c .returned with bits := s.bits.qeduClearWaitingIrq },
        .returned c (if s.bits.irqOk then .irqOk else .irqFail s.bits))

/-- One step of `__qedu_handle_irq` and of the unlock after it. -/
def qeduHandleIrq (s : EduState) (k : Irq) : HandleSection → EduState × Event
  | .delTimer status =>
      ({ s with timer := false, lock := some (.handle k (.setOk status)) }, .quiet)
  | .setOk status =>
      ({ s with
          bits := { s.bits with irqOk := true }
          lock := some (.handle k (.ack status)) }, .setOk)
  | .ack status =>
      ({ s with intrStatus := s.intrStatus &&& ~~~ status, lock := some (.handle k .wake) }, .quiet)
  | .wake =>
      ({ s with callers := s.callers.map ShowPc.wake, lock := some (.handle k .unlock) }, .quiet)
  | .unlock => ({ s with lock := none, handlers := Function.update s.handlers k .idle }, .quiet)

/-- One step of `qedu_timeout` under the lock. -/
def qeduTimeout (s : EduState) (status dmaStatus : BitVec 32) :
    TimeoutSection → EduState × Event
  | .decide =>
      if qeduIsIrqRaised s.intrStatus then ({ s with lock := some (.timeout .unlock) }, .quiet)
      else if qeduIsIrqSet status dmaStatus && qeduIsBusyIrq status dmaStatus then
        -- `mod_timer`, which does not mind a pending timer
        ({ s with timer := true, lock := some (.timeout .unlock) }, .quiet)
      else
        ({ s with
            bits := { s.bits with irqTimedout := true }
            lock := some (.timeout .wake) }, .setTimedout)
  | .wake =>
      ({ s with callers := s.callers.map ShowPc.wake, lock := some (.timeout .unlock) }, .quiet)
  | .unlock => ({ s with lock := none, timeout := .idle }, .quiet)

/-- One step of `__qedu_remove` under the lock. `free_irq` waits for the handlers. -/
def qeduRemove (s : EduState) : RemoveSection → Option EduState
  | .setShutdown =>
      some { s with bits := { s.bits with shutdown := true }, lock := none, remove := .delTimer }
  | .drain =>
      if s.bits.irqWait then some { s with lock := none, remove := .sleep }
      else some { s with lock := some (.remove .release) }
  | .release =>
      if s.handlers .hard = .idle ∧ s.handlers .thread = .idle ∧ s.runThread = false then
        some { s with lock := none, remove := .gone }
      else none

/-- One step of the section that holds the lock. -/
def lockedStep (s : EduState) (status dmaStatus : BitVec 32) : Option (EduState × Event) :=
  match s.lock with
  | some (.testIrq c at_) => some (s.testIrqShow c at_)
  | some (.handle k at_) => some (s.qeduHandleIrq k at_)
  | some (.timeout at_) => some (s.qeduTimeout status dmaStatus at_)
  | some (.remove at_) => (s.qeduRemove at_).map fun t => (t, .quiet)
  | none => none

/-- One step of call `c` outside the lock. -/
def callerStep (s : EduState) (c : Nat) (signal : Bool) : Option (EduState × Event) :=
  match s.callers[c]? with
  | some .entry => if s.lock = none then some (s.enter c .check, .quiet) else none
  | some (.wait .relock) =>
      if signal then
        -- the return does not clear `IRQ_WAIT`
        some ({ s with callers := s.callers.set c .returned },
          .returned c (.failed .ERESTARTSYS))
      else if s.lock = none then some (s.enter c .loop, .quiet)
      else none
  | some (.wait phase) =>
      match Wait.waitOnce s.bits.qeduIsIrqDone signal phase with
      | .next phase => some ({ s with callers := s.callers.set c (.wait phase) }, .quiet)
      | _ => none
  | _ => none

/-- One step of an interrupt handler outside the lock. The hard handler runs for any interrupt on
the line until `free_irq`; the thread runs when the hard handler has woken it. -/
def irqStep (s : EduState) (k : Irq) : Option EduState :=
  match s.handlers k with
  | .idle =>
      match k with
      | .hard =>
          if s.remove = .gone then none
          else some { s with handlers := Function.update s.handlers .hard .read }
      | .thread =>
          if s.runThread then
            some { s with handlers := Function.update s.handlers .thread .read, runThread := false }
          else none
  | .read =>
      -- only the hard handler looks whether the interrupt is one of this device
      if k = .hard ∧ qeduIsIrqRaised s.intrStatus = false then
        some { s with handlers := Function.update s.handlers k .idle }
      else some { s with handlers := Function.update s.handlers k (.spin s.intrStatus) }
  | .spin status =>
      if s.lock = none then
        some { s with
          lock := some (.handle k (.delTimer status))
          handlers := Function.update s.handlers k .inside }
      else if k = .hard then
        -- `spin_trylock` has failed: `IRQ_WAKE_THREAD`
        some { s with handlers := Function.update s.handlers .hard .idle, runThread := true }
      else none
  | .inside => none

/-- One step of the timer callback outside the lock. -/
def timeoutStep (s : EduState) : Option EduState :=
  if s.timeout = .spin ∧ s.lock = none then
    some { s with lock := some (.timeout .decide), timeout := .inside }
  else none

/-- One step of the removal outside the lock. `del_timer_sync` waits for the callback. -/
def removeStep (s : EduState) : Option EduState :=
  match s.remove with
  | .idle => some { s with remove := .lock }
  | .lock =>
      if s.lock = none then some { s with lock := some (.remove .setShutdown), remove := .inside }
      else none
  | .delTimer =>
      if s.timeout = .idle then some { s with timer := false, remove := .relock } else none
  | .relock =>
      if s.lock = none then some { s with lock := some (.remove .drain), remove := .inside }
      else none
  -- `wait_event_interruptible_timeout` with a condition that is never true
  | .sleep => some { s with remove := .lockAgain }
  | .lockAgain =>
      if s.lock = none then some { s with lock := some (.remove .release), remove := .inside }
      else none
  | .inside | .gone => none

/-- One step of the system. -/
def step (s : EduState) (a : Action) : Option (EduState × Event) :=
  if s.bug then none
  else
    match a with
    | .call => some ({ s with callers := s.callers ++ [.entry] }, .quiet)
    | .caller c signal => s.callerStep c signal
    | .irq k => (s.irqStep k).map fun t => (t, .quiet)
    | .expire =>
        if s.timer ∧ s.timeout = .idle then
          some ({ s with timer := false, timeout := .spin }, .quiet)
        else none
    | .timeout => s.timeoutStep.map fun t => (t, .quiet)
    | .remove => s.removeStep.map fun t => (t, .quiet)
    | .locked status dmaStatus => s.lockedStep status dmaStatus

end EduState

/-- The section has set a result bit and has still to execute the wake-up of `irq_q`. -/
def Critical.wakes : Critical → Bool
  | handle _ (.ack _) | handle _ .wake | timeout .wake => true
  | _ => false

/-- The section is not one of `test_irq_show` and owes no wake-up. -/
def Critical.plain : Critical → Bool
  | testIrq _ _ => false
  | sec => !sec.wakes

namespace EduState

/-- A step leaves the bits and `INTR_STATUS` as they are. -/
structure SameDevice (s t : EduState) : Prop where
  bits : t.bits = s.bits
  intrStatus : t.intrStatus = s.intrStatus

/-- What a step does to the bits, to `INTR_STATUS`, to the lock and to the calls. -/
inductive DeviceStep (s : EduState) : Action → Event → EduState → Prop where
  | outside {a t} (hsame : SameDevice s t) (hcallers : t.callers = s.callers)
      (hlock : t.lock = s.lock) : DeviceStep s a .quiet t
  | call : DeviceStep s .call .quiet { s with callers := s.callers ++ [.entry] }
  | waits {a c phase next} (signal : Bool) (hpc : s.callers[c]? = some (.wait phase))
      (hwait : Wait.waitOnce s.bits.qeduIsIrqDone signal phase = .next next) :
      DeviceStep s a .quiet { s with callers := s.callers.set c (.wait next) }
  | signalled {a c} (hpc : s.callers[c]? = some (.wait .relock)) :
      DeviceStep s a (.returned c (.failed .ERESTARTSYS))
        { s with callers := s.callers.set c .returned }
  | enter {a c} (hfree : s.lock = none) (hpc : s.callers[c]? = some .entry) :
      DeviceStep s a .quiet (s.enter c .check)
  | relock {a c} (hfree : s.lock = none) (hpc : s.callers[c]? = some (.wait .relock)) :
      DeviceStep s a .quiet (s.enter c .loop)
  | acquire {a t sec} (hfree : s.lock = none) (hlock : t.lock = some sec) (hsec : sec.plain = true)
      (hsame : SameDevice s t) (hcallers : t.callers = s.callers) : DeviceStep s a .quiet t
  | refused {a c} (err : Errno) (hlock : s.lock = some (.testIrq c .check)) :
      DeviceStep s a (.returned c (.failed err)) (s.leave c .returned)
  | raises {a c} (hlock : s.lock = some (.testIrq c .check)) (hwait : s.bits.irqWait = false) :
      DeviceStep s a (.raised c)
        { s with intrStatus := s.intrStatus ||| 2, lock := some (.testIrq c .raised) }
  | arms {a c} (hlock : s.lock = some (.testIrq c .raised)) :
      DeviceStep s a .quiet
        { s with
          bits := { s.bits with irqWait := true }
          timer := true
          lock := some (.testIrq c .loop)
          bug := s.timer }
  | done {a c} (hlock : s.lock = some (.testIrq c .loop)) (hdone : s.bits.qeduIsIrqDone = true) :
      DeviceStep s a .quiet { s with lock := some (.testIrq c .report) }
  | unlocks {a c} (hlock : s.lock = some (.testIrq c .loop)) :
      DeviceStep s a .quiet (s.leave c (.wait .prepare))
  | reports {a c} (hlock : s.lock = some (.testIrq c .report)) :
      DeviceStep s a (.returned c (if s.bits.irqOk then .irqOk else .irqFail s.bits))
        { s.leave c .returned with bits := s.bits.qeduClearWaitingIrq }
  | moves {a t sec} (hlock : s.lock = some sec) (hsec : sec.plain = true)
      (hlock' : ∀ sec', t.lock = some sec' → sec'.plain = true) (hsame : SameDevice s t)
      (hcallers : t.callers = s.callers) : DeviceStep s a .quiet t
  | setsOk {k seen status dmaStatus} (hlock : s.lock = some (.handle k (.setOk seen))) :
      DeviceStep s (.locked status dmaStatus) .setOk
        { s with
          bits := { s.bits with irqOk := true }
          lock := some (.handle k (.ack seen)) }
  | acks {a k status} (hlock : s.lock = some (.handle k (.ack status))) :
      DeviceStep s a .quiet
        { s with intrStatus := s.intrStatus &&& ~~~ status, lock := some (.handle k .wake) }
  | timesOut {status dmaStatus} (hlock : s.lock = some (.timeout .decide))
      (hraised : qeduIsIrqRaised s.intrStatus = false)
      (hbusy : (qeduIsIrqSet status dmaStatus && qeduIsBusyIrq status dmaStatus) = false) :
      DeviceStep s (.locked status dmaStatus) .setTimedout
        { s with
          bits := { s.bits with irqTimedout := true }
          lock := some (.timeout .wake) }
  | wakes {a sec sec'} (hlock : s.lock = some sec) (hsec : sec.wakes = true)
      (hsec' : sec'.plain = true) :
      DeviceStep s a .quiet { s with callers := s.callers.map ShowPc.wake, lock := some sec' }
  | shutsDown {a t} (hlock : s.lock = some (.remove .setShutdown))
      (hbits : t.bits = { s.bits with shutdown := true }) (hintr : t.intrStatus = s.intrStatus)
      (hlock' : t.lock = none) (hcallers : t.callers = s.callers) : DeviceStep s a .quiet t

variable {s t : EduState} {a : Action} {e : Event}

/-- What `test_irq_show` does under the lock. -/
theorem test_irq_show_device {c : Nat} {at_ : ShowSection}
    (hlock : s.lock = some (.testIrq c at_)) :
    DeviceStep s a (s.testIrqShow c at_).2 (s.testIrqShow c at_).1 := by
  cases at_ with
  | check =>
      simp only [testIrqShow]
      split
      · exact .refused _ hlock
      · split
        · exact .refused _ hlock
        · rename_i hwait
          exact .raises hlock (Bool.eq_false_iff.mpr hwait)
  | raised => exact .arms hlock
  | loop =>
      simp only [testIrqShow]
      split
      · rename_i hdone
        exact .done hlock hdone
      · exact .unlocks hlock
  | report => exact .reports hlock

/-- What `__qedu_handle_irq` does under the lock. -/
theorem qedu_handle_irq_device (status dmaStatus : BitVec 32) {k : Irq} {at_ : HandleSection}
    (hlock : s.lock = some (.handle k at_)) :
    DeviceStep s (.locked status dmaStatus) (s.qeduHandleIrq k at_).2
      (s.qeduHandleIrq k at_).1 := by
  cases at_ with
  | delTimer status => exact .moves hlock rfl (by rintro _ ⟨⟩; rfl) ⟨rfl, rfl⟩ rfl
  | setOk status => exact .setsOk hlock
  | ack status => exact .acks hlock
  | wake => exact .wakes hlock rfl rfl
  | unlock => exact .moves hlock rfl (by rintro _ ⟨⟩) ⟨rfl, rfl⟩ rfl

/-- What `qedu_timeout` does under the lock. -/
theorem qedu_timeout_device (status dmaStatus : BitVec 32) {at_ : TimeoutSection}
    (hlock : s.lock = some (.timeout at_)) :
    DeviceStep s (.locked status dmaStatus) (s.qeduTimeout status dmaStatus at_).2
      (s.qeduTimeout status dmaStatus at_).1 := by
  cases at_ with
  | decide =>
      simp only [qeduTimeout]
      split
      · exact .moves hlock rfl (by rintro _ ⟨⟩; rfl) ⟨rfl, rfl⟩ rfl
      · split
        · exact .moves hlock rfl (by rintro _ ⟨⟩; rfl) ⟨rfl, rfl⟩ rfl
        · rename_i hraised hbusy
          exact .timesOut hlock (Bool.eq_false_iff.mpr hraised) (Bool.eq_false_iff.mpr hbusy)
  | wake => exact .wakes hlock rfl rfl
  | unlock => exact .moves hlock rfl (by rintro _ ⟨⟩) ⟨rfl, rfl⟩ rfl

/-- What `__qedu_remove` does under the lock. -/
theorem qedu_remove_device {at_ : RemoveSection} (hlock : s.lock = some (.remove at_))
    (h : s.qeduRemove at_ = some t) : DeviceStep s a .quiet t := by
  cases at_ with
  | setShutdown =>
      cases h
      exact .shutsDown hlock rfl rfl rfl rfl
  | drain =>
      simp only [qeduRemove] at h
      split at h <;> cases h
      · exact .moves hlock rfl (by rintro _ ⟨⟩) ⟨rfl, rfl⟩ rfl
      · exact .moves hlock rfl (by rintro _ ⟨⟩; rfl) ⟨rfl, rfl⟩ rfl
  | release =>
      simp only [qeduRemove] at h
      split at h <;> cases h
      exact .moves hlock rfl (by rintro _ ⟨⟩) ⟨rfl, rfl⟩ rfl

/-- What a step of the section that holds the lock does. -/
theorem locked_step_device {status dmaStatus : BitVec 32}
    (h : s.lockedStep status dmaStatus = some (t, e)) :
    DeviceStep s (.locked status dmaStatus) e t := by
  unfold lockedStep at h
  split at h
  · rename_i c at_ hlock
    simpa only [Option.some.inj h] using test_irq_show_device hlock
  · rename_i k at_ hlock
    simpa only [Option.some.inj h] using qedu_handle_irq_device status dmaStatus hlock
  · rename_i at_ hlock
    simpa only [Option.some.inj h] using qedu_timeout_device status dmaStatus hlock
  · rename_i at_ hlock
    obtain ⟨t', ht, heq⟩ := Option.map_eq_some_iff.mp h
    cases heq
    exact qedu_remove_device hlock ht
  · cases h

/-- What a call does outside the lock. -/
theorem caller_step_device {c : Nat} {signal : Bool} (h : s.callerStep c signal = some (t, e)) :
    DeviceStep s a e t := by
  unfold callerStep at h
  split at h
  · rename_i hpc
    split at h <;> cases h
    rename_i hfree
    exact .enter hfree hpc
  · rename_i hpc
    split at h
    · cases h
      exact .signalled hpc
    · split at h <;> cases h
      rename_i hfree
      exact .relock hfree hpc
  · rename_i phase _ hpc
    split at h <;> cases h
    rename_i hwait
    exact .waits signal hpc hwait
  · cases h

/-- What an interrupt handler does outside the lock. -/
theorem irq_step_device {k : Irq} (h : s.irqStep k = some t) : DeviceStep s a .quiet t := by
  unfold irqStep at h
  split at h
  · cases k with
    | hard | thread =>
        simp only at h
        split at h <;> cases h
        exact .outside ⟨rfl, rfl⟩ rfl rfl
  · split at h <;> cases h <;> exact .outside ⟨rfl, rfl⟩ rfl rfl
  · split at h
    · rename_i hfree
      cases h
      exact .acquire hfree rfl rfl ⟨rfl, rfl⟩ rfl
    · split at h <;> cases h
      exact .outside ⟨rfl, rfl⟩ rfl rfl
  · cases h

/-- What the timer callback does outside the lock. -/
theorem timeout_step_device (h : s.timeoutStep = some t) : DeviceStep s a .quiet t := by
  unfold timeoutStep at h
  split at h <;> cases h
  rename_i hspin
  exact .acquire hspin.2 rfl rfl ⟨rfl, rfl⟩ rfl

/-- What the removal does outside the lock. -/
theorem remove_step_device (h : s.removeStep = some t) : DeviceStep s a .quiet t := by
  unfold removeStep at h
  split at h
  · cases h
    exact .outside ⟨rfl, rfl⟩ rfl rfl
  · split at h <;> cases h
    rename_i hfree
    exact .acquire hfree rfl rfl ⟨rfl, rfl⟩ rfl
  · split at h <;> cases h
    exact .outside ⟨rfl, rfl⟩ rfl rfl
  · split at h <;> cases h
    rename_i hfree
    exact .acquire hfree rfl rfl ⟨rfl, rfl⟩ rfl
  · cases h
    exact .outside ⟨rfl, rfl⟩ rfl rfl
  · split at h <;> cases h
    rename_i hfree
    exact .acquire hfree rfl rfl ⟨rfl, rfl⟩ rfl
  all_goals cases h

/-- Every step does one of these. -/
theorem device_step_sound (h : s.step a = some (t, e)) : DeviceStep s a e t := by
  unfold step at h
  split at h
  · cases h
  · cases a with
    | call =>
        cases h
        exact .call
    | caller c signal => exact caller_step_device h
    | irq k =>
        obtain ⟨t', ht, heq⟩ := Option.map_eq_some_iff.mp h
        cases heq
        exact irq_step_device ht
    | expire =>
        simp only at h
        split at h <;> cases h
        exact .outside ⟨rfl, rfl⟩ rfl rfl
    | timeout =>
        obtain ⟨t', ht, heq⟩ := Option.map_eq_some_iff.mp h
        cases heq
        exact timeout_step_device ht
    | remove =>
        obtain ⟨t', ht, heq⟩ := Option.map_eq_some_iff.mp h
        cases heq
        exact remove_step_device ht
    | locked status dmaStatus => exact locked_step_device h

end EduState

end Ldd3.Edu
