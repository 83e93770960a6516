import KernelTest.Framework.Bytes
import KernelTest.Framework.Exec
import KernelTest.Framework.Bitmap
import KernelTest.Framework.WriteBackCache
import KernelTest.Ext2.Structs
import KernelTest.Ext2.State
import KernelTest.Ext2.BlockIO
import KernelTest.Ext2.CacheRefinement
import KernelTest.Ext2.Inodes
import KernelTest.Ext2.InodeTable
import KernelTest.Ext2.Mount
import KernelTest.Ext2.Allocation
import KernelTest.Ext2.BlockBitmaps
import KernelTest.Ext2.InodeBitmaps
import KernelTest.Ext2.BlockMap
import KernelTest.Ext2.BlockTables
import KernelTest.Ext2.BlockNumbers
import KernelTest.Ext2.FileBlocks
import KernelTest.Framework.DoublyLinked
import KernelTest.Framework.Tokens
import KernelTest.Libc.LinkedList
import KernelTest.Libc.Strings
import KernelTest.Vfs.Canonicalize
import KernelTest.Framework.RefCount
import KernelTest.Task.FileTables
import KernelTest.Task.TimerTick
import KernelTest.Task.Wakeups
import KernelTest.Task.SchedulerQueues
import KernelTest.Cpu.Interrupts
import KernelTest.Libc.ListStore
import KernelTest.Task.LazyFpu
import KernelTest.Task.TaskTree
import KernelTest.Task.Pids
import KernelTest.Memory.Alloc
import KernelTest.Memory.MemLock
import KernelTest.Framework.PathTree
import KernelTest.Vfs.Mounts
import KernelTest.Vfs.Kopen
import KernelTest.Vfs.PathWalk
import KernelTest.Vfs.Lookup
import KernelTest.Vfs.Symlinks
import KernelTest.Framework.SkipList
import KernelTest.Memory.CellPages
import KernelTest.Memory.Growth
import KernelTest.Memory.LiveBlocks
import KernelTest.Memory.SmallBins
import KernelTest.Memory.SkipLists
import KernelTest.Memory.BigBlocks
import KernelTest.Memory.Allocator
import KernelTest.Memory.AllocRuns
import KernelTest.Memory.AllocSizes
import KernelTest.Memory.Realloc
import KernelTest.Memory.AddressSpace
import KernelTest.Task.Sleepers
import KernelTest.Task.LostTasks
import KernelTest.Task.Exits
import KernelTest.Task.Cleanup
import KernelTest.Libc.ListCalls
import KernelTest.Framework.HashTable
import KernelTest.Libc.Hashmap
import KernelTest.Elf.Image
import KernelTest.Elf.Relocate
import KernelTest.Framework.Ring
import KernelTest.Ipc.Pipe
import KernelTest.Ipc.PipeOrder
import KernelTest.Memory.Directories
import KernelTest.Memory.PairedTables
import KernelTest.Memory.PairedRuns
import KernelTest.Memory.ForkIsolation
import KernelTest.Memory.KernelTables
import KernelTest.Elf.Exec
import KernelTest.Elf.ExecPages
import KernelTest.Ipc.UnixPipe
import KernelTest.Ipc.UnixPipeLines
import KernelTest.Ipc.WaitQueues
import KernelTest.Framework.WaitQueue
import KernelTest.Ipc.LostWakeups
import KernelTest.Framework.ByteStream
import KernelTest.Initrd.Image
import KernelTest.Drivers.Ata
import KernelTest.Initrd.RoundTrip
import KernelTest.Drivers.AtaRequests
import KernelTest.Boot.Args
import KernelTest.Libc.HashmapChains
import KernelTest.Boot.Modules
import KernelTest.Boot.ModuleKeys
import KernelTest.Boot.ModuleSchedules
import KernelTest.Boot.ModulesLoad
import KernelTest.Terminal.TextMode
import KernelTest.Terminal.ScreenBounds
import KernelTest.Ext2.FileReads
import KernelTest.Ext2.Directory
import KernelTest.Ext2.NameCopies
import KernelTest.Framework.Walk
import KernelTest.Ext2.DirWalks
import KernelTest.Ext2.DirectoryRecords
import KernelTest.Ext2.DirectoryScan
import KernelTest.Ext2.FileState
import KernelTest.Ext2.FileWrites
import KernelTest.Ext2.BlockAddresses
import KernelTest.Ext2.MountGeometry
import KernelTest.Task.DutyCycle
import KernelTest.Memory.BigBlockRuns
import KernelTest.Task.Descriptors
import KernelTest.Task.Processes
import KernelTest.Task.Waitpid
import KernelTest.Task.Signals
import KernelTest.Task.RootTask
import KernelTest.Ext2.FileContents
import KernelTest.Ext2.Truncation
import KernelTest.Ext2.GuardedBlocks
import KernelTest.Ext2.NewInodes
import KernelTest.Ext2.NewEntries
import KernelTest.Ext2.DirectoryFiles
import KernelTest.Ext2.NewFiles
import KernelTest.Ext2.SymbolicLinks
import KernelTest.Drivers.Serial
import KernelTest.Drivers.Keyboard
import KernelTest.Drivers.Mouse
import KernelTest.Ipc.RingInterrupts
import KernelTest.Vfs.DirectoryCalls
import KernelTest.Vfs.MappedDirectories
import KernelTest.Memory.PageSearch
import KernelTest.Memory.PageRanges
import KernelTest.Memory.Kmalloc
import KernelTest.Vfs.NodeOwnership
import KernelTest.Vfs.NodeSessions
import KernelTest.Framework.Numerals
import KernelTest.Libc.NumberText
import KernelTest.Libc.Vasprintf
import KernelTest.Drivers.MousePackets
import KernelTest.Libc.Split
import KernelTest.Framework.Occurrences
import KernelTest.Libc.StrReplace
import KernelTest.Boot.SymbolTable
import KernelTest.Libc.HashmapRemoval
import KernelTest.Boot.Syscalls
import KernelTest.Boot.ModuleRemoval
import KernelTest.Framework.ParentTree
import KernelTest.Libc.ValueLists
import KernelTest.Libc.Trees
import KernelTest.Libc.TreeRuns
import KernelTest.Drivers.RelativeTime
import KernelTest.Drivers.Cmos
import KernelTest.Drivers.AtaSectors
import KernelTest.Initrd.Reads
import KernelTest.Boot.SyscallTable
import KernelTest.Drivers.PitCallbacks
import KernelTest.Elf.Load
import KernelTest.Initrd.Lookups
import KernelTest.Elf.LoadSections
import KernelTest.Framework.Explore
import KernelTest.Drivers.Pci
import KernelTest.Memory.SkipDeletion
import KernelTest.Ext2.EntryResults
import KernelTest.Ext2.WriteResults
import KernelTest.Ext2.Holes
import KernelTest.Ext2.FailedCreation
import KernelTest.Ext2.VolumeFiles
import KernelTest.Ext2.FileRuns
import KernelTest.Framework.MaximalSuffix
import KernelTest.Libc.StringScan
import KernelTest.Libc.TwoWay
import KernelTest.Libc.StringSearch
