import Ldd3.Kernel
import Ldd3.Ring
import Ldd3.WaitQueue
import Ldd3.Scull.Ioctl

/-!
# The scull pipe

The data of `struct scull_pipe` and the functions of `scull/pipe.c`, cut at the points where
the lock is dropped. The pointers `rp`, `wp` and `end` are offsets from the buffer they were
last set up with; `buf` is `NULL` or the block `kmalloc` returned. The buffer's bytes are kept
apart from the block, because the code follows its pointers without asking how large the block
is. The counters `readers` and `writers` are integers, so that a decrement below zero shows as
a negative value; the code only tests them and their sum against zero.

The code sets a pointer that has reached `end` to `dev->buf`. Here it is set to offset zero, which
is the same while there is a buffer. Where a release has freed the buffer under an open file of the
proper FIFO the code stores `NULL` instead, and from then on the offsets mean nothing; `HasBuffer`
in `PipeHandles` is the condition that a run does not get there, and `Calls` has `NULL`.
-/

namespace Ldd3.Scull

/-- `PROPER_FIFO_BEH_IDX`: the pipe that blocks its readers' opens and reports end of file. -/
def properFifoBehIdx : Nat := 3

/-- `struct scull_pipe`, without its lock, its queues and the character device. -/
structure ScullPipe where
  idx : Nat
  buf : Option Block
  mem : Nat → UInt8
  bufLen : Nat
  endp : Nat
  rp : Nat
  wp : Nat
  readers : Int
  writers : Int

/-- A pipe as `scull_p_init` leaves it: all zero but for the index. -/
def ScullPipe.init (idx : Nat) : ScullPipe :=
  ⟨idx, none, fun _ => 0, 0, 0, 0, 0, 0, 0⟩

/-- An open file of the pipe. `live` is cleared when its release has been called. -/
structure File where
  mode : AccMode
  nonblock : Bool
  live : Bool
  deriving DecidableEq, Repr

/-- A call in progress, at a point where it does not hold the lock. -/
inductive Task where
  /-- `scull_p_read` in its wait loop -/
  | readWait (file count : Nat) (phase : Wait)
  /-- `scull_p_read` past its critical section, about to wake `outq` -/
  | readWake (file count : Nat)
  /-- `scull_p_write` in the loop of `scull_getwritespace` -/
  | writeWait (file : Nat) (data : List UInt8) (phase : Wait)
  /-- `scull_p_write` past its critical section, about to wake `inq` -/
  | writeWake (file count : Nat)
  /-- `scull_p_proper_open` waiting for a writer -/
  | openWait (mode : AccMode) (nonblock : Bool) (phase : Wait)
  | returned
  deriving DecidableEq, Repr

/-- What a call returned. -/
inductive Ret where
  | opened
  | openFailed (err : Errno)
  | released
  | releaseFailed (err : Errno)
  | transferred (count : Nat)
  | failed (err : Errno)
  | ioctl (ret : Except Errno Int)

/-- What a step shows: the range of buffer offsets handed to the user copy, the bytes a
successful read took out of the pipe, those a successful write put in, and a result. -/
structure Effect where
  copy : Option (Nat × Nat) := none
  took : List UInt8 := []
  put : List UInt8 := []
  ret : Option Ret := none

/-- What the environment decides in a step: whether a signal interrupts it, whether the
allocator gives memory and with which contents, and whether the user copy faults. A faulting
`copy_from_user` may have stored any bytes anywhere in its destination range. `null` is where `NULL`
lies, as an offset from a buffer that has been freed. -/
structure Choice where
  intr : Bool := false
  alloc : Bool := true
  fresh : Nat → UInt8 := fun _ => 0
  fault : Bool := false
  spoilt : Nat → Option UInt8 := fun _ => none
  null : Nat := 0

/-- `spacefree`. -/
def spacefree (dev : ScullPipe) : Nat :=
  if dev.rp = dev.wp then sizeSub dev.bufLen 1
  else sizeSub (sizeSub (dev.rp + dev.bufLen) dev.wp % dev.bufLen) 1

/-- `spacefree` divides by a `buf_len` of zero, which kills the caller. -/
def ScullPipe.dividesByZero (dev : ScullPipe) : Bool := dev.rp != dev.wp && dev.bufLen == 0

/-- Once `wp` has wrapped the free space is between the pointers, if the buffer is no longer than
half of the address space. -/
theorem spacefree_wrapped {dev : ScullPipe} (hlt : dev.wp < dev.rp) (hrp : dev.rp < dev.bufLen)
    (hlen : dev.bufLen ≤ 2 ^ 63) : spacefree dev = dev.rp - dev.wp - 1 := by
  have hsub : sizeSub (dev.rp + dev.bufLen) dev.wp = dev.rp + dev.bufLen - dev.wp :=
    size_sub_of_sub_lt (by omega) (by omega)
  have hmod : (dev.rp + dev.bufLen - dev.wp) % dev.bufLen = dev.rp - dev.wp := by
    rw [show dev.rp + dev.bufLen - dev.wp = dev.rp - dev.wp + dev.bufLen by omega,
      Nat.add_mod_right, Nat.mod_eq_of_lt (by omega)]
  unfold spacefree
  rw [if_neg (by omega), hsub, hmod, size_sub_of_le (by omega) (by omega)]

/-- The number of bytes a read of `count` bytes copies. -/
def readCount (dev : ScullPipe) (count : Nat) : Nat :=
  if dev.wp > dev.rp then min count (dev.wp - dev.rp)
  else min count (dev.endp - dev.rp)

/-- The number of bytes a write of `count` bytes copies. -/
def writeCount (dev : ScullPipe) (count : Nat) : Nat :=
  let count := min count (spacefree dev)
  if dev.wp ≥ dev.rp then min count (dev.endp - dev.wp)
  else min count (dev.rp - dev.wp - 1)

/-- `scull_p_read` with the lock held, from the test of its while loop to the release of the
lock. -/
def scullPRead (dev : ScullPipe) (nonblock : Bool) (file count : Nat) (ch : Choice) :
    ScullPipe × Task × Effect :=
  if dev.rp = dev.wp then
    if nonblock then (dev, .returned, { ret := some (.failed .EAGAIN) })
    else (dev, .readWait file count .cond, {})
  else
    let n := readCount dev count
    if ch.fault then
      (dev, .returned, { copy := some (dev.rp, n), ret := some (.failed .EFAULT) })
    else
      ({ dev with rp := if dev.rp + n = dev.endp then 0 else dev.rp + n }, .readWake file n,
        { copy := some (dev.rp, n), took := slice dev.mem dev.rp n })

/-- The entry of `scull_p_read`, with the lock held: only here does a reader of the proper FIFO
look for end of file. -/
def scullPReadEntry (dev : ScullPipe) (nonblock : Bool) (file count : Nat) (ch : Choice) :
    ScullPipe × Task × Effect :=
  if dev.idx = properFifoBehIdx ∧ dev.rp = dev.wp ∧ dev.writers = 0 then
    (dev, .returned, { ret := some (.transferred 0) })
  else scullPRead dev nonblock file count ch

/-- `scull_p_write` with the lock held, from the test in `scull_getwritespace` to the release
of the lock. -/
def scullPWrite (dev : ScullPipe) (nonblock : Bool) (file : Nat) (data : List UInt8)
    (ch : Choice) : ScullPipe × Task × Effect :=
  if spacefree dev = 0 then
    if nonblock then (dev, .returned, { ret := some (.failed .EAGAIN) })
    else (dev, .writeWait file data .prepare, {})
  else
    let n := writeCount dev data.length
    if ch.fault then
      ({ dev with mem := spoil dev.mem dev.wp n ch.spoilt }, .returned,
        { copy := some (dev.wp, n), ret := some (.failed .EFAULT) })
    else
      ({ dev with
          mem := store dev.mem dev.wp (data.take n)
          wp := if dev.wp + n = dev.endp then 0 else dev.wp + n }, .writeWake file n,
        { copy := some (dev.wp, n), put := data.take n })

/-- The buffer set-up that both opens share: a missing buffer is allocated, and the length and
the pointers are set from `scull_p_len` in any case. `none` is `-ENOMEM`. -/
def setupBuf (dev : ScullPipe) (pLen : Nat) (ch : Choice) : Option ScullPipe :=
  match dev.buf with
  -- the old block stays, whatever length it was asked for with
  | some _ => some { dev with bufLen := pLen, endp := pLen, rp := 0, wp := 0 }
  | none =>
      match kmalloc ch.alloc pLen with
      | some block =>
          some { dev with
            buf := some block, mem := ch.fresh
            bufLen := pLen, endp := pLen, rp := 0, wp := 0 }
      | none => none

/-- The outcome of a locked section of an open: it failed, it has to wait for a writer, or a
file was opened, with or without a wake-up of `openq`. -/
inductive Opening where
  | failed (err : Errno)
  | waiting
  | opened (wakeOpenq : Bool)

/-- `scull_p_open` of an ordinary pipe, with the lock held. -/
def scullPOpen (dev : ScullPipe) (pLen : Nat) (mode : AccMode) (ch : Choice) :
    ScullPipe × Opening :=
  match setupBuf dev pLen ch with
  | none => (dev, .failed .ENOMEM)
  | some dev =>
      ({ dev with
          readers := dev.readers + (if mode.read then 1 else 0)
          writers := dev.writers + (if mode.write then 1 else 0) }, .opened false)

/-- `scull_p_proper_open`, with the lock held, up to the first test of the wait loop. -/
def scullPProperOpen (dev : ScullPipe) (pLen : Nat) (mode : AccMode) (nonblock : Bool)
    (ch : Choice) : ScullPipe × Opening :=
  if mode.read then
    -- an open for both is a reader here and is not counted as a writer
    if nonblock ∧ dev.writers = 0 then (dev, .failed .EAGAIN)
    else
      ({ dev with readers := dev.readers + 1 },
        if dev.writers = 0 then .waiting else .opened false)
  else
    let dev := { dev with writers := dev.writers + 1 }
    match setupBuf dev pLen ch with
    -- the increment of `writers` is not taken back
    | none => (dev, .failed .ENOMEM)
    | some dev => (dev, .opened (decide (dev.readers ≠ 0)))

/-- `scull_p_release`, with the lock held. -/
def scullPRelease (dev : ScullPipe) (mode : AccMode) : ScullPipe :=
  let readers := dev.readers - (if mode.read then 1 else 0)
  let writers := dev.writers - (if mode.write then 1 else 0)
  { dev with
    readers := readers
    writers := writers
    buf := if readers + writers = 0 then none else dev.buf }

/-- The events `scull_p_poll` can report. -/
structure PollMask where
  pollin : Bool := false
  pollrdnorm : Bool := false
  pollout : Bool := false
  pollwrnorm : Bool := false
  pollerr : Bool := false
  pollhup : Bool := false
  deriving DecidableEq, Repr

/-- `scull_p_poll`, with the lock held. -/
def scullPPoll (dev : ScullPipe) : PollMask :=
  -- without a writer the proper FIFO reports nothing else, whatever is queued
  if dev.idx = properFifoBehIdx ∧ dev.writers = 0 then { pollerr := true, pollhup := true }
  else
    { pollin := dev.rp != dev.wp
      pollrdnorm := dev.rp != dev.wp
      pollout := spacefree dev != 0
      pollwrnorm := spacefree dev != 0 }

/-- The buffer set-up has run: the length and the pointers are new, the block is the old one or
a fresh one of the length asked for, and the counters are as before. -/
structure SetUp (dev : ScullPipe) (pLen : Nat) (dev' : ScullPipe) : Prop where
  idx : dev'.idx = dev.idx
  bufLen : dev'.bufLen = pLen
  endp : dev'.endp = pLen
  rp : dev'.rp = 0
  wp : dev'.wp = 0
  block : ∃ block, dev'.buf = some block ∧
    (dev.buf = some block ∨ dev.buf = none ∧ block.size = pLen)

/-- A set-up that does not fail. -/
theorem setup_buf_eq_some {dev dev' : ScullPipe} {pLen : Nat} {ch : Choice}
    (h : setupBuf dev pLen ch = some dev') :
    SetUp dev pLen dev' ∧ dev'.readers = dev.readers ∧ dev'.writers = dev.writers := by
  unfold setupBuf at h
  split at h
  · rename_i block hbuf
    cases h
    exact ⟨⟨rfl, rfl, rfl, rfl, rfl, block, hbuf, .inl hbuf⟩, rfl, rfl⟩
  · rename_i hbuf
    split at h
    · rename_i block hblock
      cases h
      exact ⟨⟨rfl, rfl, rfl, rfl, rfl, block, rfl, .inr ⟨hbuf, size_of_kmalloc hblock⟩⟩, rfl, rfl⟩
    · cases h

/-- There is a buffer, or the allocator gives one. -/
def bufferFound (dev : ScullPipe) (pLen : Nat) (ch : Choice) : Bool :=
  dev.buf.isSome || (kmalloc ch.alloc pLen).isSome

/-- A set-up fails only for want of a buffer. -/
theorem setup_buf_is_some (dev : ScullPipe) (pLen : Nat) (ch : Choice) :
    (setupBuf dev pLen ch).isSome = bufferFound dev pLen ch := by
  unfold setupBuf bufferFound
  split
  · rename_i block hbuf
    simp [hbuf]
  · rename_i hbuf
    split <;> simp [*]

end Ldd3.Scull
