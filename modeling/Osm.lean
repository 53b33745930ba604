import Osm.Core.BinaryPath
import Osm.Core.Bytes
import Osm.Core.Copy
import Osm.Core.Datagram
import Osm.Core.Fifo
import Osm.Core.FileStore
import Osm.Core.HeapOrder
import Osm.Core.Interpreter
import Osm.Core.Linked
import Osm.Core.LockOrder
import Osm.Core.Loop
import Osm.Core.Memory
import Osm.Core.Ownership
import Osm.Core.Request
import Osm.Core.Simulation
import Osm.Core.TokenPrograms
import Osm.Core.Words
import Osm.Drivers.Bootargs
import Osm.Drivers.BootargsParse
import Osm.Drivers.Disk
import Osm.Drivers.DiskQueue
import Osm.Drivers.DiskRequests
import Osm.Drivers.DiskRuns
import Osm.Drivers.DiskService
import Osm.Drivers.Tty
import Osm.Drivers.TtyInput
import Osm.Drivers.TtyOutput
import Osm.Fs.ByteFiles
import Osm.Fs.Changes
import Osm.Fs.Concurrent
import Osm.Fs.Contents
import Osm.Fs.FailedRequests
import Osm.Fs.Handles
import Osm.Fs.Layout
import Osm.Fs.LockOrder
import Osm.Fs.MountTable
import Osm.Fs.PathNames
import Osm.Fs.ReadOrder
import Osm.Fs.Shutdown
import Osm.Fs.Space
import Osm.Fs.Store
import Osm.Fs.Tfs
import Osm.Fs.UnmountWaits
import Osm.Fs.Vfs
import Osm.Fs.VfsOps
import Osm.Fs.Volume
import Osm.Fs.VolumeRuns
import Osm.Heap.ArrayHeap
import Osm.Heap.Insertion
import Osm.Heap.InsertionPath
import Osm.Heap.Invariant
import Osm.Heap.PseudoCode
import Osm.Heap.Sequential
import Osm.Heap.TestOracle
import Osm.Heap.UnitTest
import Osm.Heap.UnitTestRuns
import Osm.Kernel.Kmalloc
import Osm.Kernel.Queues
import Osm.Kernel.RoundRobin
import Osm.Kernel.Semaphore
import Osm.Kernel.SemaphoreHolders
import Osm.Kernel.SemaphoreOwners
import Osm.Kernel.SemaphoreSafety
import Osm.Kernel.Spinlock
import Osm.Kernel.Thread
import Osm.Kernel.ThreadLists
import Osm.Kernel.TokenPrograms
import Osm.Kernel.Waiters
import Osm.Kernel.Waiting
import Osm.Kernel.WakeUps
import Osm.Lib.Atoi
import Osm.Lib.Bitmap
import Osm.Lib.FormatEnds
import Osm.Lib.FormatRoom
import Osm.Lib.Formatting
import Osm.Lib.Libc
import Osm.Lib.MemCopy
import Osm.Lib.PrintUint
import Osm.Lib.RingBuffer
import Osm.Lib.ScanInt
import Osm.Lib.StringCopy
import Osm.Lib.Xprintf
import Osm.Net.Datagrams
import Osm.Net.Delivery
import Osm.Net.Eviction
import Osm.Net.FrameLength
import Osm.Net.Frames
import Osm.Net.Network
import Osm.Net.Pop
import Osm.Net.Ports
import Osm.Net.ReceiveSemaphores
import Osm.Net.Socket
import Osm.Proc.Creation
import Osm.Proc.Elf
import Osm.Proc.ElfFormat
import Osm.Proc.FileHandles
import Osm.Proc.FileLeaks
import Osm.Proc.Files
import Osm.Proc.Invariant
import Osm.Proc.Io
import Osm.Proc.IoSafety
import Osm.Proc.LifeCycle
import Osm.Proc.Machine
import Osm.Proc.OpenHandles
import Osm.Proc.Orphans
import Osm.Proc.Process
import Osm.Proc.SegmentReads
import Osm.Proc.Start
import Osm.Proc.ThreadLookup
import Osm.Proc.UsrSem
import Osm.Proc.UsrSemRuns
import Osm.Userland.Allocation
import Osm.Userland.Barrier
import Osm.Userland.Blocks
import Osm.Userland.Calc
import Osm.Userland.CalcHeap
import Osm.Userland.CalcRuns
import Osm.Userland.HeapRuns
import Osm.Userland.HeapWords
import Osm.Userland.LargeRequests
import Osm.Userland.LineInput
import Osm.Userland.Malloc
import Osm.Userland.Realloc
import Osm.Userland.RequestSizes
import Osm.Util.Bitmap
import Osm.Util.DiskFull
import Osm.Util.Image
import Osm.Util.RoundTrip
import Osm.Util.Tfstool
import Osm.Util.ToolRuns
import Osm.Util.WriteBlocks
import Osm.Vm.Fork
import Osm.Vm.Isolation
import Osm.Vm.Memlimit
import Osm.Vm.PagePool
import Osm.Vm.PageTable
import Osm.Vm.SpaceCalls
import Osm.Vm.Tlb
import Osm.Vm.TlbRuns
