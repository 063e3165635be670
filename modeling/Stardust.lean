import Stardust.Arch.Pagetable
import Stardust.Lib.Tiling
import Stardust.Xmalloc.Drain
import Stardust.Xmalloc.Reallocation
import Stardust.Lib.CircularList
import Stardust.Xenbus.Writers
import Stardust.Xenbus.Reader
import Stardust.Xenbus.Requests
import Stardust.Xenbus.Operations
import Stardust.Xenbus.FullRing
import Stardust.Xenbus.RequestIds
import Stardust.Xenbus.Listing
import Stardust.Pte.Tls
import Stardust.Sched.Cpus
import Stardust.Sched.Semaphore
import Stardust.Mm.AllocatorTermination
import Stardust.Mm.Completeness
import Stardust.Mm.Growth
import Stardust.Events
import Stardust.Sched.ReadyQueue
import Stardust.Console.Input
import Stardust.Sched.JoinSuspend
import Stardust.Sched.JoinReturn
import Stardust.Pte.TlsIsolation
import Stardust.Sched.SuspendBlocked
import Stardust.Sched.ThreadIds
import Stardust.Sched.ThreadMemory
import Stardust.Sched.Completion
import Stardust.Pte.PosixSemaphore
import Stardust.Gnttab.Permissions
import Stardust.Gntmap.Rollback
import Stardust.Xenstore.Framing
import Stardust.Mm.DemandArea
import Stardust.Arch.ExactRange
import Stardust.Mm.FrameLists
import Stardust.Blkfront.RequestRuns
import Stardust.Blkfront.Conservation
import Stardust.Console.Early
import Stardust.Sched.SleepQueue
import Stardust.Sched.Mutexes
import Stardust.Pte.CondVar
import Stardust.Pte.TlsMap
import Stardust.Libc.Compare
import Stardust.Libc.Memmove
import Stardust.Libc.Strtoul
import Stardust.Libc.Strtok
import Stardust.Libc.Sorted
import Stardust.Libc.RoundTrip
import Stardust.Mm.MapRegions
import Stardust.Blkfront.Handshake
import Stardust.Lib.Crowd
import Stardust.Pte.Barrier
import Stardust.Pte.CondWaits
import Stardust.Lib.SeqLock
import Stardust.Arch.Time
