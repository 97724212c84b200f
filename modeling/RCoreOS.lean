import RCoreOS.PageTable.FrameOwnership
import RCoreOS.PageTable.HugePages
import RCoreOS.Sync.Mutex
import RCoreOS.Sync.Alarms
import RCoreOS.Sync.Notification
import RCoreOS.Sync.Conditions
import RCoreOS.Axtask.Stacks
import RCoreOS.Axtask.Blocking
import RCoreOS.Axtask.LinkResolution
import RCoreOS.Axtask.LoadApp
import RCoreOS.Axtask.Reaping
import RCoreOS.Axmem.EmptyRanges
import RCoreOS.Axmem.FreeArea
import RCoreOS.Axmem.FileTail
import RCoreOS.Axmem.WriteBack
import RCoreOS.Axmem.Contents
import RCoreOS.Axmem.SharedSegments
import RCoreOS.Allocator.Bitmap
import RCoreOS.SlabAllocator.Alignment
import RCoreOS.SlabAllocator.Statistics
import RCoreOS.PosixApi.EpollBuffer
import RCoreOS.PosixApi.Select
import RCoreOS.PosixApi.PipeWaiting
import RCoreOS.Axfs.Append
import RCoreOS.Axfs.Directory
import RCoreOS.Axfs.Listing
import RCoreOS.Axfs.Root
import RCoreOS.Axtask.Preemption
import RCoreOS.LinuxSyscallApi.GapWrite
import RCoreOS.LinuxSyscallApi.ReadWrite
import RCoreOS.LinuxSyscallApi.CommandLine
import RCoreOS.Scheduler.Cfs
import RCoreOS.Taskctx.TimeStat
import RCoreOS.ElfParser.InitialStack
import RCoreOS.ElfParser.Relocation
import RCoreOS.ElfParser.Segments
import RCoreOS.Axnet.LockNesting
import RCoreOS.Axnet.ListenQueue
import RCoreOS.Axnet.UdpBind
import RCoreOS.Axtask.DealWithPath
import RCoreOS.Axfs.Disk
import RCoreOS.Axmem.Mremap
import RCoreOS.Axmem.ForkIsolation
import RCoreOS.Axio.Text
import RCoreOS.FlattenObjects.Slots
import RCoreOS.Axfs.MountDispatch
import RCoreOS.Axfs.Rename
import RCoreOS.Axfs.RamFile
import RCoreOS.Axtask.Affinity
import RCoreOS.Scheduler.RoundRobin
import RCoreOS.Taskctx.IntervalTimer
import RCoreOS.Axalloc.Expansion
import RCoreOS.Axsignal.SignalSet
import RCoreOS.Ratio.Multiplication
import RCoreOS.LinkedList.Lists
import RCoreOS.LinkedList.PushedAgain
import RCoreOS.Scheduler.Fifo
import RCoreOS.Axalloc.SlabBytes
import RCoreOS.Timers.TimerList
import RCoreOS.Axnet.DeviceWrapper
import RCoreOS.Spinlock.SingleCore
import RCoreOS.Lib.SharedOwnership
import RCoreOS.Sync.Lifetimes
