import Ldd3.Machine
import Ldd3.Components
import Ldd3.WaitQueue
import Ldd3.LockProgram
import Ldd3.LockSystem
import Ldd3.LockRules
import Ldd3.LockProgress
import Ldd3.Resources
import Ldd3.Ledger
import Ldd3.Bytes
import Ldd3.Chunks
import Ldd3.Ring
import Ldd3.Fifo
import Ldd3.WriteLog
import Ldd3.Hex
import Ldd3.Kernel
import Ldd3.SeqFile
import Ldd3.Scull.Ioctl
import Ldd3.Scull.IoctlForms
import Ldd3.Scull.Pipe
import Ldd3.Scull.PipeMachine
import Ldd3.Scull.PipeQueue
import Ldd3.Scull.PipeHandles
import Ldd3.Scull.PipeBounds
import Ldd3.Scull.PipeWakeup
import Ldd3.Scull.PipeOpen
import Ldd3.Scull.PipePoll
import Ldd3.Scull.Memory
import Ldd3.Scull.MemoryMachine
import Ldd3.Scull.MemoryBounds
import Ldd3.Scull.MemoryMap
import Ldd3.Scull.MemoryPosition
import Ldd3.Scull.MemoryRead
import Ldd3.Scull.MemoryFailure
import Ldd3.Scull.MemoryLength
import Ldd3.Scull.MemoryStale
import Ldd3.Scull.MemoryChunks
import Ldd3.Scull.MemoryTrim
import Ldd3.Scull.Proc
import Ldd3.Scull.ProcRead
import Ldd3.Scull.Calls
import Ldd3.Scull.MemorySerial
import Ldd3.Scull.MemoryLinear
import Ldd3.Scull.PipeSerial
import Ldd3.Scull.PipeLinear
import Ldd3.Scull.Progress
import Ldd3.Scull.PipeWatch
import Ldd3.Scull.Module
import Ldd3.Scull.ModuleBalance
import Ldd3.Edu.Irq
import Ldd3.Edu.Region
import Ldd3.Edu.Waiter
import Ldd3.Edu.Report
import Ldd3.Edu.Busy
import Ldd3.Edu.Timer
import Ldd3.Edu.Probe
import Ldd3.Edu.Balance
import Ldd3.Edu.Inverse
import Ldd3.Edu.Sysfs
import Ldd3.Edu.SysfsOwner
import Ldd3.Jit.Async
import Ldd3.Jit.Lifetime
import Ldd3.Jiq.Queue
import Ldd3.Jiq.Steps
import Ldd3.Jiq.Chain
import Ldd3.Jiq.Isolation
import Ldd3.Jiq.Accounting
import Ldd3.Jiq.ChainEnd
