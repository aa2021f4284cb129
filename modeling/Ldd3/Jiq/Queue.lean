import Mathlib.Logic.Function.Basic
import Ldd3.Machine
import Ldd3.WaitQueue

/-!
# The files of jiq

Any number of calls of the four show functions share one `clientdata`, the queue `jiq_wait` and the
work, the delayed work, the tasklet and the timer in the `clientdata`. Every access to a field of
the `clientdata` and every call into the kernel is a step of its own.

Of a queued or running callback the machine remembers the show call that scheduled it; a callback
that schedules itself again passes it on. Scheduling what is already queued does nothing. A timer
that is set up or added while it is pending corrupts the kernel, and a run stops there. When the
kernel runs what is queued is left open, and no callback overtakes itself. A `seq_file` is named by
the show call it belongs to, and of what is printed only the length is kept.
-/

namespace Ldd3.Jiq

/-- The four files and their callbacks. -/
inductive Kind where
  | wq
  | wqDelayed
  | tasklet
  | timer
  deriving DecidableEq, Repr

/-- `struct seq_file`: the bytes in its buffer and the size of the buffer. -/
structure SeqFile where
  count : Nat
  size : Nat
  deriving DecidableEq, Repr

/-- `seq_printf` and `seq_puts` of `n` bytes; an overflow fills the buffer. -/
def SeqFile.print (m : SeqFile) (n : Nat) : SeqFile :=
  { m with count := if m.count + n < m.size then m.count + n else m.size }

/-- `struct clientdata`, without the work, the tasklet and the timer in it. -/
structure ClientData where
  m : Option Nat
  len : BitVec 32
  end_ : Bool
  jiffies : BitVec 64
  delay : BitVec 64
  deriving DecidableEq, Repr

/-- `LIMIT`, with pages of 4096 bytes. -/
def limit : BitVec 64 := 4096 - 128

/-- The length of the line of titles. -/
def titleLength : Nat := 42

/-- `jiq_print`, with the values it has read. -/
inductive PrintPc where
  | readLen
  | readM (len : BitVec 32)
  | test (len : BitVec 32) (m : Option Nat) (j : BitVec 64)
  | title (m : Option Nat) (j : BitVec 64)
  | line (m : Option Nat) (j : BitVec 64) (len : BitVec 32)
  | store (j : BitVec 64) (len : BitVec 32)
  | setEnd
  | wake
  | ret (again : Bool)
  deriving DecidableEq, Repr

/-- A callback: it calls `jiq_print`, and the one of the timer then ends the sleep of its reader. -/
inductive CallbackPc where
  | print (pc : PrintPc)
  | setEnd
  | wake
  deriving DecidableEq, Repr

/-- A show function. -/
inductive ShowPc where
  | setLen
  | setM
  | setRest
  /-- about to join `jiq_wait` -/
  | prepare
  /-- on `jiq_wait`, about to schedule the work -/
  | enqueue (woken : Bool)
  /-- in `jiq_print`, which the show function of the timer calls itself -/
  | print (pc : PrintPc)
  /-- about to schedule the tasklet or to add the timer -/
  | schedule
  | sleep (phase : Wait)
  | delTimer
  | leave
  | returned
  deriving DecidableEq, Repr

/-- A call of a show function. -/
structure ShowCall where
  kind : Kind
  pc : ShowPc
  signal : Bool
  deriving DecidableEq, Repr

/-- The module: `pending` and `running` give the show call that has scheduled a callback. -/
structure JiqState where
  data : ClientData
  calls : Nat → Option ShowCall
  files : Nat → SeqFile
  pending : Kind → Option Nat
  running : Kind → Option (Nat × CallbackPc)

/-- What a step shows: that a callback scheduled by call `c`, or call `c` itself, prints to the file
of call `m`. -/
inductive Event where
  | quiet
  | callbackPrints (c m : Nat)
  | showPrints (c m : Nat)
  deriving DecidableEq, Repr

/-- What a step finds outside of the module: the time and the length of the line it prints. -/
structure Env where
  j : BitVec 64
  n : Nat
  deriving DecidableEq, Repr

/-- A step of the system: call `c` starts, with a buffer of the given size, or goes on, the kernel
starts a callback, a callback goes on, or a signal arrives. -/
inductive Action where
  | start (c : Nat) (kind : Kind) (size : Nat)
  | call (c : Nat) (env : Env)
  | run (kind : Kind)
  | callback (kind : Kind) (env : Env)
  | signal (c : Nat)
  deriving DecidableEq, Repr

/-- A wake-up of `jiq_wait` reaches the calls on it. -/
def ShowPc.wake : ShowPc → ShowPc
  | enqueue _ => enqueue true
  | sleep phase => sleep phase.wake
  | pc => pc

/-- A call that a wake-up of `jiq_wait` may have reached. -/
def ShowCall.wake (call : ShowCall) : ShowCall := { call with pc := call.pc.wake }

namespace JiqState

/-- The module after `jiq_init`. -/
def init : JiqState :=
  ⟨⟨none, 0, false, 0, 0⟩, fun _ => none, fun _ => ⟨0, 0⟩, fun _ => none, fun _ => none⟩

/-- `wake_up_interruptible(&jiq_wait)`. -/
def wakeUp (s : JiqState) : JiqState :=
  { s with calls := fun c => (s.calls c).map ShowCall.wake }

/-- Print `n` bytes to a file; the result is `m->count`. -/
def seqPrint (s : JiqState) (m : Option Nat) (n : Nat) : Option (JiqState × Nat × Nat) :=
  m.map fun c =>
    let file := (s.files c).print n
    ({ s with files := Function.update s.files c file }, c, file.count)

/-- One step of `jiq_print`; the third component is the file it prints to. -/
def jiqPrint (s : JiqState) (env : Env) : PrintPc → Option (JiqState × PrintPc × Option Nat)
  | .readLen => some (s, .readM s.data.len, none)
  | .readM len => some (s, .test len s.data.m env.j, none)
  | .test len m j =>
      -- `len` is an `int`, and `LIMIT` is unsigned
      if limit < len.signExtend 64 then some (s, .setEnd, none)
      else if len = 0 then some (s, .title m j, none)
      else some (s, .line m j 0, none)
  | .title m j =>
      (s.seqPrint m titleLength).map fun (t, c, count) =>
        (t, .line m j (BitVec.ofNat 32 count), some c)
  | .line m j len =>
      (s.seqPrint m env.n).map fun (t, c, count) =>
        (t, .store j (len + BitVec.ofNat 32 count), some c)
  | .store j len =>
      some ({ s with data := { s.data with len := s.data.len + len, jiffies := j } }, .ret true,
        none)
  | .setEnd => some ({ s with data := { s.data with end_ := true } }, .wake, none)
  | .wake => some (s.wakeUp, .ret false, none)
  | .ret _ => none

/-- Call `c` goes on. -/
def go (s : JiqState) (c : Nat) (call : ShowCall) (pc : ShowPc) : JiqState :=
  { s with calls := Function.update s.calls c (some { call with pc := pc }) }

/-- `schedule_work`, `schedule_delayed_work`, `tasklet_schedule` or `add_timer` on behalf of call
`c`. -/
def schedule (s : JiqState) (k : Kind) (c : Nat) : JiqState :=
  { s with pending := Function.update s.pending k (some ((s.pending k).getD c)) }

/-- One step of a show function that waits for a work scheduled with the given delay, from the
`jiffies` on. -/
def workShow (s : JiqState) (c : Nat) (call : ShowCall) (delay : BitVec 64) (env : Env) :
    Option JiqState :=
  match call.pc with
  | .setRest =>
      some ({ s with data := { s.data with jiffies := env.j, delay := delay } }.go c call .prepare)
  | .prepare => some (s.go c call (.enqueue false))
  | .enqueue woken => some ((s.schedule call.kind c).go c call (.sleep (.sched woken)))
  | .sleep (.sched woken) => if woken || call.signal then some (s.go c call .leave) else none
  | _ => none

/-- One step of `jiq_read_wq_show`. -/
def jiqReadWqShow (s : JiqState) (c : Nat) (call : ShowCall) (env : Env) : Option JiqState :=
  s.workShow c call 0 env

/-- One step of `jiq_read_wq_delayed_show`; `delay` is the parameter of the module. -/
def jiqReadWqDelayedShow (delay : BitVec 64) (s : JiqState) (c : Nat) (call : ShowCall)
    (env : Env) : Option JiqState :=
  s.workShow c call delay env

/-- One step of the sleep of a reader that waits for `end`, and then goes on at `after`. -/
def waitEnd (s : JiqState) (c : Nat) (call : ShowCall) (after : ShowPc) (phase : Wait) :
    Option JiqState :=
  match Wait.waitEvent s.data.end_ call.signal phase with
  | .blocked => none
  | .interrupted | .next .relock => some (s.go c call after)
  | .next phase => some (s.go c call (.sleep phase))

/-- One step of `jiq_read_tasklet_show`, from the `jiffies` on. -/
def jiqReadTaskletShow (s : JiqState) (c : Nat) (call : ShowCall) (env : Env) : Option JiqState :=
  match call.pc with
  | .setRest =>
      some ({ s with data := { s.data with jiffies := env.j, end_ := false } }.go c call .schedule)
  | .schedule => some ((s.schedule .tasklet c).go c call (.sleep .cond))
  | .sleep phase => s.waitEnd c call .leave phase
  | _ => none

/-- One step of `jiq_read_run_timer_show`, from the `jiffies` on. -/
def jiqReadRunTimerShow (s : JiqState) (c : Nat) (call : ShowCall) (env : Env) :
    Option (JiqState × Event) :=
  match call.pc with
  | .setRest =>
      -- `timer_setup`
      if s.pending .timer = none then
        some ({ s with data := { s.data with jiffies := env.j, end_ := false } }.go c call
          (.print .readLen), .quiet)
      else none
  | .print (.ret _) => some (s.go c call .schedule, .quiet)
  | .print pc =>
      (s.jiqPrint env pc).map fun (t, pc', m) =>
        (t.go c call (.print pc'), m.elim .quiet (.showPrints c))
  | .schedule =>
      if s.pending .timer = none then
        some ((s.schedule .timer c).go c call (.sleep .cond), .quiet)
      else none
  | .sleep phase => (s.waitEnd c call .delTimer phase).map fun t => (t, .quiet)
  | .delTimer =>
      -- `del_timer_sync` waits for the callback
      if s.running .timer = none then
        some ({ s with pending := Function.update s.pending .timer none }.go c call .leave, .quiet)
      else none
  | _ => none

/-- One step of a call. The assignments to `len` and `m` and the return are the same in all of
them. -/
def showStep (delay : BitVec 64) (s : JiqState) (c : Nat) (call : ShowCall) (env : Env) :
    Option (JiqState × Event) :=
  match call.pc with
  | .setLen => some ({ s with data := { s.data with len := 0 } }.go c call .setM, .quiet)
  | .setM => some ({ s with data := { s.data with m := some c } }.go c call .setRest, .quiet)
  | .leave => some (s.go c call .returned, .quiet)
  | _ =>
      match call.kind with
      | .wq => (s.jiqReadWqShow c call env).map fun t => (t, .quiet)
      | .wqDelayed => (s.jiqReadWqDelayedShow delay c call env).map fun t => (t, .quiet)
      | .tasklet => (s.jiqReadTaskletShow c call env).map fun t => (t, .quiet)
      | .timer => s.jiqReadRunTimerShow c call env

/-- The callback of `k` goes on at `pc`. -/
def proceed (s : JiqState) (k : Kind) (c : Nat) (pc : CallbackPc) : JiqState :=
  { s with running := Function.update s.running k (some (c, pc)) }

/-- The callback of `k` ends. -/
def finish (s : JiqState) (k : Kind) : JiqState :=
  { s with running := Function.update s.running k none }

/-- One step of `jiq_print` in the callback of `k`. -/
def printStep (s : JiqState) (k : Kind) (c : Nat) (pc : PrintPc) (env : Env) :
    Option (JiqState × Event) :=
  (s.jiqPrint env pc).map fun (t, pc', m) =>
    (t.proceed k c (.print pc'), m.elim .quiet (.callbackPrints c))

/-- One step of a callback that is scheduled again if `jiq_print` says so. -/
def printAgain (s : JiqState) (k : Kind) (c : Nat) (pc : CallbackPc) (env : Env) :
    Option (JiqState × Event) :=
  match pc with
  | .print (.ret again) => some (if again then (s.schedule k c).finish k else s.finish k, .quiet)
  | .print pc => s.printStep k c pc env
  | .setEnd | .wake => none

/-- One step of `jiq_print_wq`. -/
def jiqPrintWq (s : JiqState) (c : Nat) (pc : CallbackPc) (env : Env) :
    Option (JiqState × Event) :=
  s.printAgain .wq c pc env

/-- One step of `jiq_print_wq_delayed`. -/
def jiqPrintWqDelayed (s : JiqState) (c : Nat) (pc : CallbackPc) (env : Env) :
    Option (JiqState × Event) :=
  s.printAgain .wqDelayed c pc env

/-- One step of `jiq_print_tasklet`. -/
def jiqPrintTasklet (s : JiqState) (c : Nat) (pc : CallbackPc) (env : Env) :
    Option (JiqState × Event) :=
  s.printAgain .tasklet c pc env

/-- One step of `jiq_timedout`, which does not look at the result of `jiq_print`. -/
def jiqTimedout (s : JiqState) (c : Nat) (pc : CallbackPc) (env : Env) :
    Option (JiqState × Event) :=
  match pc with
  | .print (.ret _) => some (s.proceed .timer c .setEnd, .quiet)
  | .print pc => s.printStep .timer c pc env
  | .setEnd => some ({ s with data := { s.data with end_ := true } }.proceed .timer c .wake, .quiet)
  | .wake => some (s.wakeUp.finish .timer, .quiet)

/-- One step of the callback of `k`. -/
def callbackStep (s : JiqState) (k : Kind) (env : Env) : Option (JiqState × Event) :=
  (s.running k).bind fun (c, pc) =>
    match k with
    | .wq => s.jiqPrintWq c pc env
    | .wqDelayed => s.jiqPrintWqDelayed c pc env
    | .tasklet => s.jiqPrintTasklet c pc env
    | .timer => s.jiqTimedout c pc env

/-- One step of the module; `delay` is its parameter. -/
def step (delay : BitVec 64) (s : JiqState) : Action → Option (JiqState × Event)
  | .start c kind size =>
      if s.calls c = none then
        some ({ s with
          calls := Function.update s.calls c (some ⟨kind, .setLen, false⟩)
          files := Function.update s.files c ⟨0, size⟩ }, .quiet)
      else none
  | .call c env => (s.calls c).bind fun call => showStep delay s c call env
  | .run k =>
      match s.pending k, s.running k with
      | some c, none =>
          some ({ s with pending := Function.update s.pending k none }.proceed k c
            (.print .readLen), .quiet)
      | _, _ => none
  | .callback k env => s.callbackStep k env
  | .signal c =>
      (s.calls c).map fun call =>
        ({ s with calls := Function.update s.calls c (some { call with signal := true }) }, .quiet)

end JiqState

end Ldd3.Jiq
