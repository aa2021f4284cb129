import Ldd3.Components
import Ldd3.Kernel
import Ldd3.WaitQueue

/-!
# The timer and tasklet files of jit

A read of `jitimer`, `jitasklet` or `jitasklethi` is one call of a show function. It allocates a
`jit_data`, starts a callback that prints a line and starts itself again until it has done so five
times, sleeps until then and frees the object. The calls have nothing in common, so one of them
with its object and its callback is a component of the system.

The two show functions and the two callbacks differ in the queue the callback is put on. When the
kernel runs a queued callback is left open, and a callback does not overtake itself. `CallStep`
lists the steps of a call.
-/

namespace Ldd3.Jit

/-- `JIT_ASYNC_LOOPS`. -/
def asyncLoops : Nat := 5

/-- Where a callback is queued: `add_timer`, `tasklet_schedule` or `tasklet_hi_schedule`. -/
inductive Queue where
  | timer
  | tasklet
  | taskletHi
  deriving DecidableEq, Repr

/-- `struct jit_data`; its `seq_file` is that of the call it belongs to. -/
structure JitData where
  expires : BitVec 64
  hi : Bool
  prevJiffies : BitVec 64
  loops : Nat
  deriving DecidableEq, Repr

/-- The file that is read. -/
inductive File where
  | jitimer
  /-- `jitasklet` and `jitasklethi`, whose private data is `hi` -/
  | jitasklet (hi : Bool)
  deriving DecidableEq, Repr

/-- The callback, with the `jiffies` it has read. -/
inductive FnPc where
  | idle
  /-- about to print a line -/
  | print (j : BitVec 64)
  /-- about to count the loops down -/
  | decrement (j : BitVec 64)
  /-- about to start itself again -/
  | rearm (j : BitVec 64)
  /-- about to wake the reader -/
  | wake
  deriving DecidableEq, Repr

/-- The show function, from the registration of the callback on. -/
inductive ShowPc where
  | register
  | wait (phase : Wait)
  /-- about to look at `signal_pending` -/
  | check
  | kfree
  | leave (ret : Except Errno Unit)
  | returned
  deriving DecidableEq, Repr

/-- A wake-up of the queue of the object reaches its reader. -/
def ShowPc.wake : ShowPc → ShowPc
  | wait phase => wait phase.wake
  | pc => pc

/-- A call of a show function with its object and its callback. -/
structure Call where
  file : File
  data : JitData
  /-- the number of times the object has been freed -/
  frees : Nat
  queued : Option Queue
  fn : FnPc
  reader : ShowPc
  /-- a signal is pending for the reader -/
  signal : Bool
  deriving DecidableEq, Repr

/-- What a step shows. -/
inductive Event where
  | quiet
  /-- the callback prints the time and the time since the last line -/
  | line (j delta : BitVec 64)
  | returned (ret : Except Errno Unit)
  deriving DecidableEq, Repr

/-- A step of a call: of its reader, of the kernel that starts its callback at time `j`, of its
callback, or the arrival of a signal. -/
inductive CallAction where
  | reader
  | run (j : BitVec 64)
  | callback
  | signal
  deriving DecidableEq, Repr

namespace Call

/-- One step of a callback. The two callbacks differ in what they do to the object and where they
queue themselves. -/
def asyncFn (c : Call) (advance : JitData → JitData) (queue : JitData → Queue) :
    Option (Call × Event) :=
  match c.fn with
  | .idle => none
  | .print j => some ({ c with fn := .decrement j }, .line j (j - c.data.prevJiffies))
  | .decrement j =>
      let loops := sizeSub c.data.loops 1
      some ({ c with
        data := { c.data with loops := loops }
        fn := if loops ≠ 0 then .rearm j else .wake }, .quiet)
  | .rearm j =>
      let data := { advance c.data with prevJiffies := j }
      some ({ c with data := data, queued := some (queue data), fn := .idle }, .quiet)
  | .wake => some ({ c with reader := c.reader.wake, fn := .idle }, .quiet)

/-- `jit_timer_fn`. -/
def jitTimerFn (tdelay : BitVec 32) (c : Call) : Option (Call × Event) :=
  c.asyncFn (fun data => { data with expires := data.expires + tdelay.zeroExtend 64 })
    fun _ => .timer

/-- `jit_tasklet_fn`. -/
def jitTaskletFn (c : Call) : Option (Call × Event) :=
  c.asyncFn id fun data => if data.hi then .taskletHi else .tasklet

/-- One step of a show function from the registration of the callback in `queue` on. -/
def asyncShow (c : Call) (queue : JitData → Queue) : Option (Call × Event) :=
  match c.reader with
  | .register => some ({ c with queued := some (queue c.data), reader := .wait .cond }, .quiet)
  | .wait phase =>
      match Wait.waitEvent (c.data.loops == 0) c.signal phase with
      | .blocked => none
      -- the result of `wait_event_interruptible` is not looked at
      | .interrupted | .next .relock => some ({ c with reader := .check }, .quiet)
      | .next phase => some ({ c with reader := .wait phase }, .quiet)
  | .check =>
      if c.signal then some ({ c with reader := .leave (.error .ERESTARTSYS) }, .quiet)
      else some ({ c with reader := .kfree }, .quiet)
  | .kfree => some ({ c with frees := c.frees + 1, reader := .leave (.ok ()) }, .quiet)
  | .leave ret => some ({ c with reader := .returned }, .returned ret)
  | .returned => none

/-- `jit_timer_show` up to the registration of the timer: `kmalloc` succeeds as `ok` says, and `j`
is the time. -/
def jitTimerStart (tdelay : BitVec 32) (j : BitVec 64) (ok : Bool) : Option Call :=
  if ok then
    some ⟨.jitimer, ⟨j + tdelay.zeroExtend 64, false, j, asyncLoops⟩, 0, none, .idle, .register,
      false⟩
  else none

/-- `jit_tasklet_show` up to the registration of the tasklet. -/
def jitTaskletStart (hi : Bool) (j : BitVec 64) (ok : Bool) : Option Call :=
  if ok then
    some ⟨.jitasklet hi, ⟨0, hi, j, asyncLoops⟩, 0, none, .idle, .register, false⟩
  else none

/-- `jit_timer_show` from there on. -/
def jitTimerShow (c : Call) : Option (Call × Event) := c.asyncShow fun _ => .timer

/-- `jit_tasklet_show` from there on. -/
def jitTaskletShow (c : Call) : Option (Call × Event) :=
  c.asyncShow fun data => if data.hi then .taskletHi else .tasklet

/-- One step of a call. -/
def step (tdelay : BitVec 32) (c : Call) : CallAction → Option (Call × Event)
  | .reader =>
      match c.file with
      | .jitimer => c.jitTimerShow
      | .jitasklet _ => c.jitTaskletShow
  | .run j =>
      if c.queued.isSome ∧ c.fn = .idle then
        some ({ c with queued := none, fn := .print j }, .quiet)
      else none
  | .callback =>
      match c.file with
      | .jitimer => c.jitTimerFn tdelay
      | .jitasklet _ => c.jitTaskletFn
  | .signal => some ({ c with signal := true }, .quiet)

/-- The start of a call: the file, the time and the outcome of `kmalloc`. -/
def start (tdelay : BitVec 32) : File × BitVec 64 × Bool → Option Call
  | (.jitimer, j, ok) => jitTimerStart tdelay j ok
  | (.jitasklet hi, j, ok) => jitTaskletStart hi j ok

/-- The steps of `step`, one constructor for each kind. -/
inductive CallStep (c : Call) : CallAction → Call → Prop where
  | registers {queue} (hreader : c.reader = .register) :
      CallStep c .reader { c with queued := some queue, reader := .wait .cond }
  | waits {phase next} (hreader : c.reader = .wait phase) :
      CallStep c .reader { c with reader := .wait next }
  | wakesUp {phase} (hreader : c.reader = .wait phase)
      (hend : c.data.loops = 0 ∨ c.signal = true) : CallStep c .reader { c with reader := .check }
  | signalled (hreader : c.reader = .check) (hsignal : c.signal = true) :
      CallStep c .reader { c with reader := .leave (.error .ERESTARTSYS) }
  | passes (hreader : c.reader = .check) (hsignal : c.signal = false) :
      CallStep c .reader { c with reader := .kfree }
  | frees (hreader : c.reader = .kfree) :
      CallStep c .reader { c with frees := c.frees + 1, reader := .leave (.ok ()) }
  | returns {ret} (hreader : c.reader = .leave ret) :
      CallStep c .reader { c with reader := .returned }
  | runs {j} (hqueued : c.queued.isSome = true) (hidle : c.fn = .idle) :
      CallStep c (.run j) { c with queued := none, fn := .print j }
  | prints {j} (hfn : c.fn = .print j) : CallStep c .callback { c with fn := .decrement j }
  | counts {j loops} (hfn : c.fn = .decrement j) (hloops : loops = sizeSub c.data.loops 1) :
      CallStep c .callback
        { c with
          data := { c.data with loops := loops }
          fn := if loops ≠ 0 then .rearm j else .wake }
  | rearms {j data queue} (hfn : c.fn = .rearm j) (hloops : data.loops = c.data.loops) :
      CallStep c .callback { c with data := data, queued := some queue, fn := .idle }
  | wakes (hfn : c.fn = .wake) :
      CallStep c .callback { c with reader := c.reader.wake, fn := .idle }
  | signals : CallStep c .signal { c with signal := true }

variable {c d : Call} {a : CallAction} {e : Event}

/-- `wait_event_interruptible` ends with the condition or with a signal. -/
theorem wait_event_ends {cond signal : Bool} {phase : Wait}
    (h : Wait.waitEvent cond signal phase = .interrupted ∨
      Wait.waitEvent cond signal phase = .next .relock) : cond = true ∨ signal = true := by
  rcases h with h | h
  · exact .inr (Wait.signal_of_wait_event h)
  · cases cond with
    | true => exact .inl rfl
    | false =>
        cases phase with
        | cond | test _ | relock => cases h
        | prepare | sched _ =>
            simp only [Wait.waitEvent] at h
            split at h <;> cases h

/-- The steps of a show function. -/
theorem async_show_step {queue : JitData → Queue} (h : c.asyncShow queue = some (d, e)) :
    CallStep c .reader d := by
  unfold asyncShow at h
  split at h
  · rename_i hreader
    cases h
    exact .registers hreader
  · rename_i phase hreader
    have hends : Wait.waitEvent (c.data.loops == 0) c.signal phase = .interrupted ∨
        Wait.waitEvent (c.data.loops == 0) c.signal phase = .next .relock →
        c.data.loops = 0 ∨ c.signal = true := by
      intro hwait
      exact (wait_event_ends hwait).imp_left beq_iff_eq.mp
    split at h
    · cases h
    · rename_i hwait
      cases h
      exact .wakesUp hreader (hends (.inl hwait))
    · rename_i hwait
      cases h
      exact .wakesUp hreader (hends (.inr hwait))
    · cases h
      exact .waits hreader
  · rename_i hreader
    split at h
    · rename_i hsignal
      cases h
      exact .signalled hreader hsignal
    · rename_i hsignal
      cases h
      exact .passes hreader (Bool.eq_false_iff.mpr hsignal)
  · rename_i hreader
    cases h
    exact .frees hreader
  · rename_i hreader
    cases h
    exact .returns hreader
  · cases h

/-- The steps of a callback, which leaves the count of the loops alone when it starts itself
again. -/
theorem async_fn_step {advance : JitData → JitData} {queue : JitData → Queue}
    (h : c.asyncFn advance queue = some (d, e))
    (hadvance : ∀ data, (advance data).loops = data.loops) : CallStep c .callback d := by
  unfold asyncFn at h
  split at h
  · cases h
  · rename_i hfn
    cases h
    exact .prints hfn
  · rename_i hfn
    cases h
    exact .counts hfn rfl
  · rename_i hfn
    cases h
    exact .rearms hfn (hadvance c.data)
  · rename_i hfn
    cases h
    exact .wakes hfn

/-- Every step of a call is one of the listed kinds. -/
theorem call_step_sound {tdelay : BitVec 32} (h : c.step tdelay a = some (d, e)) :
    CallStep c a d := by
  cases a with
  | reader =>
      simp only [step] at h
      split at h <;> exact async_show_step h
  | run j =>
      simp only [step] at h
      split at h <;> cases h
      rename_i hrun
      exact .runs hrun.1 hrun.2
  | callback =>
      simp only [step, jitTimerFn, jitTaskletFn] at h
      split at h <;> exact async_fn_step h fun _ => rfl
  | signal =>
      cases h
      exact .signals

end Call

/-- The calls of the module. -/
def step (tdelay : BitVec 32) := Components.system (Call.start tdelay) (Call.step tdelay)

end Ldd3.Jit
