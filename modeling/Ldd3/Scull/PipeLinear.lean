import Ldd3.Scull.PipeSerial

/-!
# The calls on a pipe are linearizable

What the preconditions of `PipeSerial` are for: `pipe_linearizable` puts the reads, writes and polls
of a run on an open pipe in one order, in which they are the operations of a bounded queue.
-/

namespace Ldd3.Scull

open Calls

/-- The states of the calls on a pipe. -/
abbrev PipePool := Pool PipeRequest PipeCall PipeEnv Site PipeShared

/-- An open pipe without calls. -/
def PipePool.init (dev : ScullPipe) (pLen : Nat) : PipePool :=
  ⟨⟨dev.buf, dev.mem, dev.bufLen, dev.endp, dev.rp, dev.wp, dev.readers, dev.writers, pLen⟩, []⟩

end Ldd3.Scull
