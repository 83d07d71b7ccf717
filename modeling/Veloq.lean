import Veloq.Timing.Interval
import Veloq.Timing.Timeout
import Veloq.Timing.Config
import Veloq.Timing.Promises
import Veloq.Driver.UringFilesUndo
import Veloq.Driver.CompletionTable
import Veloq.Driver.Exhaustion
import Veloq.Driver.UringCancelIds
import Veloq.Driver.TimerDrift
import Veloq.Driver.Batches
import Veloq.Driver.ReadyCount
import Veloq.Driver.SocketAddrRoundTrip
import Veloq.Driver.TableInvariant
import Veloq.Heap.BuddyCoalesce
import Veloq.Heap.ShardScan
import Veloq.Heap.SuperblockRuns
import Veloq.Heap.OwnershipRuns
import Veloq.Sync.Exclusion
import Veloq.Sync.OneshotRuns
import Veloq.Waker.AtomicRuns
import Veloq.Waker.MwsrRuns
import Veloq.Runtime.WakeTokenRuns
import Veloq.Runtime.TokenRuns
import Veloq.Runtime.TokenLinksRuns
import Veloq.Runtime.IdleRuns
import Veloq.Runtime.SendTaskRuns
import Veloq.Runtime.PollingRuns
import Veloq.Runtime.ScopeRuns
import Veloq.Runtime.RoutedCellRuns
import Veloq.Runtime.JoinWakerRuns
import Veloq.Sync.MpmcRuns
import Veloq.Sync.MpscRuns
import Veloq.Local.WaiterWakers
import Veloq.Buffer.SlotPoolRuns
import Veloq.Buffer.PoolAlloc
import Veloq.Blocking.MutexRuns
import Veloq.Blocking.RwLockRuns
import Veloq.Blocking.MpscRuns
import Veloq.Blocking.ThreadPoolLimits
import Veloq.Local.OwnedSpscRuns
import Veloq.Blocking.OnceRuns
import Veloq.Blocking.ParkerRuns
import Veloq.Storage.OptionArcRuns
import Veloq.Storage.TlsRuns
import Veloq.Blocking.ScopePanics
import Veloq.Iocp.RegistrationRuns
import Veloq.Rio.DescriptorRuns
import Veloq.Rio.RequestContextRuns
