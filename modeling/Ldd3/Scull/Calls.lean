import Ldd3.LockProgram
import Ldd3.Scull.Memory
import Ldd3.Scull.Pipe

/-!
# The calls of scull and their locks

The functions of `scull/pipe.c`, `scull/main.c` and `scull/proc.c` that take `dev->lock`, as
programs with a lock. Whatever else they do is a step on the data of the call, and at any step at
which a call does not hold the lock the device may be found in any state. A call of a function that
asserts the lock starts with the assertion. The wake-ups and the texts that are printed are left
out.

`checked_pipe` and `checked_mem` run the checker. The one place it has to be told about is the wait
of a writer, where `scull_getwritespace` calls `spacefree` after it has dropped the lock;
`checked_wait` checks the wait with that one assertion set aside.

A pointer that reaches the end of the buffer is set to `dev->buf`, which is `NULL` after a release
has freed the buffer. Seen from the freed buffer `NULL` is at an offset that the environment names.
-/

namespace Ldd3.Scull.Calls

/-- The tests that are told apart. -/
inductive Site where
  | plain
  /-- `scull_getwritespace` has found no space and looks at `O_NONBLOCK` -/
  | noSpace
  deriving DecidableEq, Repr

/-! ## The pipe -/

/-- A call on a pipe: the pipe, `scull_p_len`, the file, the buffer of the user and the variables of
the call. -/
structure PipeCall where
  dev : ScullPipe
  pLen : Nat
  mode : AccMode
  nonblock : Bool
  buf : List UInt8
  count : Nat
  mask : Nat
  ret : Except Errno Nat

/-- What a step finds: the pipe as the others have left it, `scull_p_len`, and what the kernel
decides. -/
structure PipeEnv where
  dev : ScullPipe
  pLen : Nat
  ch : Choice

/-- A program of a call on a pipe. -/
abbrev PipeProg := Prog PipeCall PipeEnv Site

/-- The others change the pipe but not its index. -/
def pipeWorld : World PipeCall PipeEnv where
  others x c := { c with dev := { x.dev with idx := c.dev.idx }, pLen := x.pLen }
  interrupts x := x.ch.intr

/-- A step on the data of the call. -/
def set (f : PipeCall → PipeCall) : PipeProg := .exec fun c _ => some (f c)

/-- `return` of a number. -/
def done (value : PipeCall → Nat) : PipeProg := .ret true fun c _ => { c with ret := .ok (value c) }

/-- `return` of an error code. -/
def fail (err : Errno) : PipeProg := .ret false fun c _ => { c with ret := .error err }

/-- `if (c) p else q`. -/
def cond (c : PipeCall → Bool) (p q : PipeProg) : PipeProg := .ite .plain (fun call _ => c call) p q

/-- `if (__mutex_lock_interruptible_sparse(&dev->lock)) return (-ERESTARTSYS)`. -/
def mutexLockInterruptible : PipeProg := .tryLock (fail .ERESTARTSYS)

/-- `if (wait_event_interruptible(.., c)) return (-ERESTARTSYS)`: the condition is evaluated without
the lock, and any number of sleeps may go by. -/
def waitEventInterruptible (c : PipeCall → Bool) : PipeProg :=
  .loop .plain .skip (fun call _ => !c call)
    (.ite .plain (fun _ x => x.ch.intr) (fail .ERESTARTSYS) .skip)

/-- `dev->buf = kmalloc(scull_p_len, GFP_KERNEL)`. -/
def allocBuf : PipeProg :=
  .exec fun c x =>
    some { c with dev :=
      match kmalloc x.ch.alloc c.pLen with
      | some block => { c.dev with buf := some block, mem := x.ch.fresh }
      | none => { c.dev with buf := none } }

/-- The buffer set-up that both opens share. -/
def setupBufProg : PipeProg :=
  .block [
    cond (fun c => c.dev.buf.isNone)
      (.block [
        allocBuf,
        cond (fun c => c.dev.buf.isNone) (.block [.unlock, fail .ENOMEM]) .skip])
      .skip,
    set fun c =>
      { c with dev := { c.dev with bufLen := c.pLen, endp := c.pLen, rp := 0, wp := 0 } }]

/-- `scull_p_proper_open`. -/
def scullPProperOpen : PipeProg :=
  .block [
    mutexLockInterruptible,
    cond (fun c => c.mode.read)
      (.block [
        cond (fun c => c.nonblock && c.dev.writers == 0) (.block [.unlock, fail .EAGAIN]) .skip,
        set fun c => { c with dev.readers := c.dev.readers + 1 },
        .loop .plain .skip (fun c _ => c.dev.writers == 0)
          (.block [
            .unlock,
            waitEventInterruptible fun c => c.dev.writers != 0,
            mutexLockInterruptible])])
      (.block [
        set fun c => { c with dev.writers := c.dev.writers + 1 },
        setupBufProg]),
    .unlock,
    done fun _ => 0]

/-- `scull_p_open`. -/
def scullPOpen : PipeProg :=
  .block [
    cond (fun c => c.dev.idx == properFifoBehIdx) scullPProperOpen .skip,
    mutexLockInterruptible,
    setupBufProg,
    cond (fun c => c.mode.read)
      (set fun c => { c with dev.readers := c.dev.readers + 1 }) .skip,
    cond (fun c => c.mode.write)
      (set fun c => { c with dev.writers := c.dev.writers + 1 }) .skip,
    .unlock,
    done fun _ => 0]

/-- `scull_p_release`. -/
def scullPRelease : PipeProg :=
  .block [
    mutexLockInterruptible,
    set fun c => { c with dev := Scull.scullPRelease c.dev c.mode },
    .unlock,
    done fun _ => 0]

/-- `dev->buf`, as an offset. -/
def bufStart (c : PipeCall) (x : PipeEnv) : Nat := if c.dev.buf.isSome then 0 else x.ch.null

/-- `scull_p_read`. -/
def scullPRead : PipeProg :=
  .block [
    mutexLockInterruptible,
    cond (fun c => c.dev.idx == properFifoBehIdx)
      (cond (fun c => c.dev.rp == c.dev.wp && c.dev.writers == 0)
        (.block [.unlock, done fun _ => 0]) .skip)
      .skip,
    .loop .plain .skip (fun c _ => c.dev.rp == c.dev.wp)
      (.block [
        .unlock,
        cond (fun c => c.nonblock) (fail .EAGAIN) .skip,
        waitEventInterruptible fun c => c.dev.rp != c.dev.wp,
        mutexLockInterruptible]),
    set fun c => { c with count := readCount c.dev c.count },
    .ite .plain (fun _ x => x.ch.fault) (.block [.unlock, fail .EFAULT]) .skip,
    set fun c =>
      { c with buf := slice c.dev.mem c.dev.rp c.count, dev.rp := c.dev.rp + c.count },
    cond (fun c => c.dev.rp == c.dev.endp)
      (.exec fun c x => some { c with dev.rp := bufStart c x }) .skip,
    .unlock,
    done fun c => c.count]

/-- A call of `spacefree` up to its result: `assertion` is that the lock is held, and then there is
the division. -/
def callSpacefree (assertion : PipeProg) : PipeProg :=
  .block [assertion, .exec fun c _ => if c.dev.dividesByZero then none else some c]

/-- The body of `scull_getwritespace`, where `assertion` stands for the one that the call of
`spacefree` without the lock makes. -/
def getwritespace (assertion : PipeProg) : PipeProg :=
  .block [
    .assertHeld,
    -- the condition of the loop calls `spacefree`
    .loop .plain (callSpacefree .assertHeld) (fun c _ => spacefree c.dev == 0)
      (.block [
        .unlock,
        .ite .noSpace (fun c _ => c.nonblock) (fail .EAGAIN) .skip,
        -- the test after `prepare_to_wait` calls it again
        callSpacefree assertion,
        cond (fun c => spacefree c.dev == 0) .skip .skip,
        .ite .plain (fun _ x => x.ch.intr) (fail .ERESTARTSYS) .skip,
        mutexLockInterruptible]),
    done fun _ => 0]

/-- `scull_getwritespace`. -/
def scullGetwritespace : PipeProg := getwritespace .assertHeld

/-- `scull_p_write` with this body of `scull_getwritespace`. -/
def writeAfter (waits : PipeProg) : PipeProg :=
  .block [
    mutexLockInterruptible,
    -- it returns 0 with the lock and an error without it
    .call id waits (.ret false fun c _ => c),
    callSpacefree .assertHeld,
    set fun c => { c with count := writeCount c.dev c.count },
    .ite .plain (fun _ x => x.ch.fault)
      (.block [
        .exec fun c x => some
          { c with dev.mem := spoil c.dev.mem c.dev.wp c.count x.ch.spoilt },
        .unlock,
        fail .EFAULT])
      .skip,
    set fun c =>
      { c with
        dev.mem := store c.dev.mem c.dev.wp (c.buf.take c.count)
        dev.wp := c.dev.wp + c.count },
    cond (fun c => c.dev.wp == c.dev.endp)
      (.exec fun c x => some { c with dev.wp := bufStart c x }) .skip,
    .unlock,
    done fun c => c.count]

/-- `scull_p_write`. -/
def scullPWrite : PipeProg := writeAfter scullGetwritespace

/-- `scull_p_poll`. -/
def scullPPoll : PipeProg :=
  .block [
    set fun c => { c with mask := 0 },
    .lock,
    cond (fun c => c.dev.idx == properFifoBehIdx && c.dev.writers == 0)
      -- `POLLERR | POLLHUP`
      (.block [.unlock, done fun _ => 0x18]) .skip,
    -- `POLLIN | POLLRDNORM`
    cond (fun c => c.dev.rp != c.dev.wp) (set fun c => { c with mask := c.mask ||| 0x41 }) .skip,
    callSpacefree .assertHeld,
    -- `POLLOUT | POLLWRNORM`
    cond (fun c => spacefree c.dev != 0) (set fun c => { c with mask := c.mask ||| 0x104 }) .skip,
    .unlock,
    done fun c => c.mask]

/-- The calls on a pipe. -/
inductive PipeFn where
  | open_
  | release
  | read
  | write
  | poll
  deriving DecidableEq, Repr

/-- The program of a call on a pipe. -/
def PipeFn.prog : PipeFn → PipeProg
  | open_ => scullPOpen
  | release => scullPRelease
  | read => scullPRead
  | write => scullPWrite
  | poll => scullPPoll

/-- A writer that finds no space does not wait. -/
def dead (site : Site) (side : Bool) : Bool := site == .noSpace && !side

/-- The checker accepts the calls on a pipe, up to the wait of a writer. -/
theorem checked_pipe (f : PipeFn) :
    (f.prog.check dead (fun _ => false) none false).isSome = true := by
  cases f <;> rfl

/-- Without the one assertion that `spacefree` makes in the wait of a writer, the checker accepts
`scull_p_write` with its wait. -/
theorem checked_wait : ((writeAfter (getwritespace .skip)).check (fun _ _ => false) (fun _ => false)
    none false).isSome = true := rfl

/-! ## The memory device -/

section Memory

variable {β : Type}

/-- A call on a memory device: the device, the tunables, the number of allocations so far, the
access mode, the buffer of the user, the variables of the call, and the device as a dump has printed
it. -/
structure MemCall (β : Type) where
  dev : ScullDev β
  tun : Tunables
  next : Nat
  mode : AccMode
  buf : List β
  fPos : Nat
  count : Nat
  flw : ScullFollow
  ssret : Except Errno Nat
  shown : Option (ScullDev β)

/-- What a step finds: the device as the others have left it, and what the kernel decides. -/
structure MemEnv (β : Type) where
  dev : ScullDev β
  tun : Tunables
  next : Nat
  ch : MemChoice β

/-- A program of a call on a memory device. -/
abbrev MemProg (β : Type) := Prog (MemCall β) (MemEnv β) Site

/-- The others change the device, the tunables and the number of allocations. -/
def memWorld : World (MemCall β) (MemEnv β) where
  others x c := { c with dev := x.dev, tun := x.tun, next := x.next }
  interrupts x := x.ch.intr

/-- The node the call works on, if it exists. -/
def MemCall.node (c : MemCall β) : Option (ScullQset β) := c.dev.qset[c.flw.qsetP]?

/-- The pointer array of the node. -/
def MemCall.array (c : MemCall β) : Option (QuantumArray β) := c.node.bind ScullQset.data

/-- The quantum the call works on. -/
def MemCall.quantum (c : MemCall β) : Option (Quantum β) :=
  c.array.bind fun array => array.slots[c.flw.quantumP]?.join

/-- The device that a dump has printed, or its error. -/
def MemCall.dumped (c : MemCall β) : Option (Except Errno (ScullDev β)) :=
  match c.ssret with
  | .ok _ => c.shown.map .ok
  | .error err => some (.error err)

/-- `if (c) goto out`. -/
def gotoIf (c : MemCall β → Bool) : MemProg β := .ite .plain (fun call _ => c call) .goto .skip

/-- A step on the data of the call. -/
def update (f : MemCall β → MemCall β) : MemProg β := .exec fun c _ => some (f c)

/-- `if (__mutex_lock_interruptible_sparse(&dev->lock)) return (-ERESTARTSYS)`. -/
def lockOrRestart : MemProg β :=
  .tryLock (.ret false fun c _ => { c with ssret := .error .ERESTARTSYS })

/-- The label `out`. -/
def out : MemProg β := .block [.unlock, .ret true fun c _ => c]

/-- A call of `__scull_trim`. -/
def scullTrim : MemProg β :=
  .block [.assertHeld, update fun c => { c with dev := (Scull.scullTrim c.tun c.dev).1 }]

/-- A call of `__scull_follow`. A division by zero kills the caller. -/
def scullFollow : MemProg β :=
  .block [
    .exec fun c _ =>
      if c.dev.totalLen = 0 then none else some { c with flw := c.dev.position c.fPos },
    .assertHeld,
    .exec fun c x =>
      let (nodes, next) := Scull.scullFollow x.ch.alloc c.flw.qsetP c.dev.qset c.next
      some { c with dev.qset := nodes, next := next }]

/-- `scull_open`. -/
def scullOpen : MemProg β :=
  .block [
    .ite .plain (fun c _ => c.mode == .wronly) (.block [lockOrRestart, scullTrim, .unlock]) .skip,
    .ret true fun c _ => { c with ssret := .ok 0 }]

/-- `scull_read`. -/
def scullRead : MemProg β :=
  .block [
    update fun c => { c with ssret := .ok 0 },
    lockOrRestart,
    .scope true (.block [
      gotoIf fun c => decide (c.fPos ≥ c.dev.len),
      update fun c =>
        { c with count := if c.fPos + c.count > c.dev.len then c.dev.len - c.fPos else c.count },
      scullFollow,
      gotoIf fun c => c.quantum.isNone,
      update fun c => { c with count := min c.count (c.dev.quantumLen - c.flw.offsetP) },
      .ite .plain (fun _ x => x.ch.fault)
        (.block [update fun c => { c with ssret := .error .EFAULT }, .goto]) .skip,
      update fun c =>
        { c with
          buf := c.quantum.elim [] fun quantum => slice quantum.bytes c.flw.offsetP c.count
          fPos := c.fPos + c.count
          ssret := .ok c.count }]),
    out]

/-- `qset->data = kcalloc(..)`, if there is no array. -/
def allocDataProg : MemProg β :=
  .exec fun c x =>
    match c.node with
    | none => some c
    | some node =>
        match allocData x.ch.alloc c.dev.qsetLen node c.next with
        | (none, next) => some { c with next := next }
        | (some array, next) =>
            some { c with dev.qset := putData c.dev.qset c.flw.qsetP node array, next := next }

/-- `qset->data[flw.quantum_p] = kmem_cache_alloc(..)`, if there is no quantum. -/
def allocQuantumProg (stale : Nat → Nat → β) : MemProg β :=
  .exec fun c x =>
    match c.node, c.array with
    | some node, some array =>
        match allocQuantum stale x.ch.alloc array c.flw.quantumP c.next with
        | (none, next) => some { c with next := next }
        | (some quantum, next) =>
            some { c with
              dev.qset := putData c.dev.qset c.flw.qsetP node (array.put c.flw.quantumP quantum)
              next := next }
    | _, _ => some c

/-- The bytes of the quantum change. -/
def MemCall.setBytes (c : MemCall β) (f : (Nat → β) → Nat → β) : MemCall β :=
  match c.node, c.array, c.quantum with
  | some node, some array, some quantum =>
      { c with
        dev.qset := putData c.dev.qset c.flw.qsetP node
          (array.put c.flw.quantumP { quantum with bytes := f quantum.bytes }) }
  | _, _, _ => c

/-- `scull_write`. -/
def scullWrite (stale : Nat → Nat → β) : MemProg β :=
  .block [
    update fun c => { c with ssret := .error .ENOMEM },
    lockOrRestart,
    .scope true (.block [
      scullFollow,
      gotoIf fun c => c.node.isNone,
      allocDataProg,
      gotoIf fun c => c.array.isNone,
      allocQuantumProg stale,
      gotoIf fun c => c.quantum.isNone,
      update fun c => { c with count := min c.count (c.dev.quantumLen - c.flw.offsetP) },
      .ite .plain (fun _ x => x.ch.fault)
        (.block [
          .exec fun c x =>
            let c := c.setBytes fun bytes => spoil bytes c.flw.offsetP c.count x.ch.spoilt
            some { c with ssret := .error .EFAULT },
          .goto])
        .skip,
      update fun c =>
        let c := c.setBytes fun bytes => store bytes c.flw.offsetP (c.buf.take c.count)
        { c with fPos := c.fPos + c.count, ssret := .ok c.count },
      .ite .plain (fun c _ => decide (c.dev.len < c.fPos))
        (update fun c => { c with dev.len := c.fPos }) .skip]),
    out]

/-- `scull_seq_show`, which only prints. -/
def scullSeqShow : MemProg β :=
  .block [
    lockOrRestart,
    update fun c => { c with shown := some c.dev },
    .unlock,
    .ret true fun c _ => { c with ssret := .ok 0 }]

/-- The calls on a memory device. -/
inductive MemFn where
  | open_
  | read
  | write
  | seqShow
  deriving DecidableEq, Repr

/-- The program of a call on a memory device. -/
def MemFn.prog (stale : Nat → Nat → β) : MemFn → MemProg β
  | open_ => scullOpen
  | read => scullRead
  | write => scullWrite stale
  | seqShow => scullSeqShow

/-- The checker accepts the calls on a memory device. -/
theorem checked_mem (stale : Nat → Nat → β) (f : MemFn) :
    ((f.prog stale).check (fun _ _ => false) (fun _ => false) none false).isSome = true := by
  cases f <;> rfl

end Memory

/-- The lock discipline of scull. In every run of a call on a memory device, and in every run of a
call on a pipe in which a writer that finds no space does not wait: the lock is taken only by a call
that does not hold it, dropped and asserted only by one that does, and not held on return, and
`scull_getwritespace` leaves it held exactly if it returns 0. A writer that waits keeps to the same
rules, but for the assertion of `spacefree` in its wait. -/
theorem lock_discipline {β : Type} (stale : Nat → Nat → β) :
    (∀ (f : PipeFn) (c : PipeCall) (xs : List PipeEnv),
      (∀ s x e t, Machine.Takes (Config.step pipeWorld) (.start f.prog c) xs s x e t →
        s.live dead pipeWorld x = true) →
      ∀ s x e t, Machine.Takes (Config.step pipeWorld) (.start f.prog c) xs s x e t →
        e.Allowed s.held) ∧
    (∀ (f : MemFn) (c : MemCall β) (xs : List (MemEnv β)) s x e t,
      Machine.Takes (Config.step memWorld) (.start (f.prog stale) c) xs s x e t →
        e.Allowed s.held) ∧
    ∀ (c : PipeCall) (xs : List PipeEnv) s x e t,
      Machine.Takes (Config.step pipeWorld) (.start (writeAfter (getwritespace .skip)) c) xs
        s x e t → e.Allowed s.held := by
  refine ⟨fun f c xs hlive s x e t htake => ?_, fun f c xs s x e t htake => ?_,
    fun c xs s x e t htake => ?_⟩
  · exact Prog.check_sound (checked_pipe f) hlive htake
  · exact Prog.check_sound_everywhere (checked_mem stale f) htake
  · exact Prog.check_sound_everywhere checked_wait htake

section Runs

/-! Runs of a writer on a pipe of two bytes, which is full when it holds one. -/

/-- A pipe that is full. -/
def fullPipe : ScullPipe :=
  ⟨0, some ⟨2, by decide⟩, fun _ => 0, 2, 2, 0, 1, 1, 1⟩

/-- A write of one byte. -/
def writeByte (nonblock : Bool) : PipeCall := ⟨fullPipe, 2, .wronly, nonblock, [7], 1, 0, .ok 0⟩

/-- The pipe stays full, and nothing fails. -/
def staysFull : PipeEnv := ⟨fullPipe, 2, {}⟩

/-- A non-blocking writer returns without the lock. -/
theorem lock_discipline_nonblocking : ∃ s t, Machine.Takes (Config.step pipeWorld)
    (.start PipeFn.write.prog (writeByte true)) (List.replicate 19 staysFull ++ [staysFull])
    s staysFull .returns t ∧ s.held = false := by
  have hrun : ((Machine.run (Config.step pipeWorld) (.start PipeFn.write.prog (writeByte true))
      (List.replicate 19 staysFull)).bind fun r =>
        (r.1.step pipeWorld staysFull).map fun q => (r.1.held, q.2)) = some (false, .returns) := by
    decide +kernel
  have hlive : Machine.admits (Config.step pipeWorld) (fun s x => s.live dead pipeWorld x)
      (.start PipeFn.write.prog (writeByte true)) (List.replicate 19 staysFull ++ [staysFull]) =
      true := by
    decide +kernel
  obtain ⟨s, t, htake, -⟩ := Machine.takes_of_observed hrun
  exact ⟨s, t, htake, (lock_discipline fun _ _ => (0 : UInt8)).1 .write (writeByte true) _
    (Machine.guard_of_admits hlive) s staysFull .returns t htake⟩

/-- A blocking writer finds the pipe full, drops the lock and calls `spacefree`, which asserts that
the lock is held. -/
theorem spacefree_without_lock : ∃ s t, Machine.Takes (Config.step pipeWorld)
    (.start PipeFn.write.prog (writeByte false)) (List.replicate 21 staysFull ++ [staysFull])
    s staysFull .asserts t ∧ s.held = false := by
  have hrun : ((Machine.run (Config.step pipeWorld) (.start PipeFn.write.prog (writeByte false))
      (List.replicate 21 staysFull)).bind fun r =>
        (r.1.step pipeWorld staysFull).map fun q => (r.1.held, q.2)) = some (false, .asserts) := by
    decide +kernel
  exact Machine.takes_of_observed hrun

end Runs

end Ldd3.Scull.Calls
