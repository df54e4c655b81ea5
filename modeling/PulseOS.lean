import PulseOS.Bpf.RingBufferFifo
import PulseOS.Bpf.PerfBufferRoundTrip
import PulseOS.Bpf.PerfConsumer
import PulseOS.Bpf.PerfCounter
import PulseOS.Bpf.Relocation
import PulseOS.Bpf.AccessMode
import PulseOS.Lock.RecordLockSystem
import PulseOS.Lock.FlockWaiters
import PulseOS.Ipc.SemUndo
import PulseOS.Ipc.SemWait
import PulseOS.Sched.EevdfFair
import PulseOS.Bpf.PerfEventArray
import PulseOS.Bpf.LinkRuns
import PulseOS.Fd.CloseRange
import PulseOS.Fd.PipeFifo
import PulseOS.Fd.PipeOrder
import PulseOS.Fd.PipeAtomic
import PulseOS.Fd.EpollEdge
import PulseOS.Fd.EpollOwner
import PulseOS.Fd.EventFd
import PulseOS.Futex.TableSleep
import PulseOS.Ipc.ShmAccess
import PulseOS.Ipc.ShmAttach
import PulseOS.Signal.NotifyTarget
import PulseOS.Signal.Nesting
import PulseOS.Capture.Corruption
import PulseOS.Alloc.Asid
import PulseOS.Alloc.PageCache
import PulseOS.Cache.Frames
import PulseOS.Cache.Msync
