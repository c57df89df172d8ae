import StarterKernel.Library.BitFields
import StarterKernel.Library.ByteMemory
import StarterKernel.Library.Chain
import StarterKernel.Library.ForwardCopy
import StarterKernel.Library.InterruptController
import StarterKernel.Library.LookupCache
import StarterKernel.Library.Numerals
import StarterKernel.Library.PagedSpace
import StarterKernel.Library.RadixTree
import StarterKernel.Library.RingQueue
import StarterKernel.Library.StateError
import StarterKernel.Library.Simulation
import StarterKernel.Library.ThreeWay
import StarterKernel.Kernel.Page
import StarterKernel.Paging.Walk
import StarterKernel.Paging.Frames
import StarterKernel.Paging.Allocator
import StarterKernel.Paging.Edit
import StarterKernel.Paging.BootTables
import StarterKernel.Paging.MemoryMap
import StarterKernel.Paging.UnmapLowerHalf
import StarterKernel.Paging.Reclaimed
import StarterKernel.Paging.Ownership
import StarterKernel.Paging.VmMap
import StarterKernel.Paging.VmProtect
import StarterKernel.Paging.WellFormed
import StarterKernel.Paging.VmMapTouches
import StarterKernel.Paging.Runs
import StarterKernel.Paging.MemInit
import StarterKernel.Paging.FreePages
import StarterKernel.Paging.PageCounter
import StarterKernel.Paging.VmMapExact
import StarterKernel.Paging.VmMapFailure
import StarterKernel.Paging.ProtectExact
import StarterKernel.Paging.VmUnmap
import StarterKernel.Paging.Untouched
import StarterKernel.Paging.LargePages
import StarterKernel.Paging.LargeEdits
import StarterKernel.Kernel.Bus
import StarterKernel.Kernel.Executables
import StarterKernel.Kernel.BootInfo
import StarterKernel.Kernel.SystemCalls
import StarterKernel.Kernel.Terminal
import StarterKernel.Kernel.Console
import StarterKernel.Exec.AddressSpace
import StarterKernel.Exec.OutsidePool
import StarterKernel.Exec.KernelMemory
import StarterKernel.Exec.Lookup
import StarterKernel.Exec.Copy
import StarterKernel.Exec.Loader
import StarterKernel.Exec.Setup
import StarterKernel.Exec.BootImage
import StarterKernel.Exec.Contents
import StarterKernel.Exec.Coverage
import StarterKernel.Exec.Isolation
import StarterKernel.Keyboard.Ring
import StarterKernel.Keyboard.Fifo
import StarterKernel.Keyboard.Reads
import StarterKernel.Keyboard.Overflow
import StarterKernel.Terminal.Cells
import StarterKernel.Terminal.Screen
import StarterKernel.Exec.FailedExec
import StarterKernel.Exec.KernelHalf
import StarterKernel.Exec.FrameDemand
import StarterKernel.Exec.HalfMapped
import StarterKernel.Exec.Untouched
import StarterKernel.SystemCalls.Buffers
import StarterKernel.SystemCalls.Isolation
import StarterKernel.Printing.Numbers
import StarterKernel.Kernel.Translate
import StarterKernel.Printing.Translation
import StarterKernel.Exec.CacheFlags
import StarterKernel.Exec.Conservation
import StarterKernel.Keyboard.Backspace
import StarterKernel.Keyboard.Bounds
import StarterKernel.Keyboard.Interrupts
import StarterKernel.SystemCalls.Counts
import StarterKernel.Programs.Init
import StarterKernel.Programs.FirstCommand
import StarterKernel.Kernel.Interrupts
import StarterKernel.Interrupts.Gates
import StarterKernel.Strings.Compare
import StarterKernel.Printing.Formats
import StarterKernel.Printing.FormatReads
import StarterKernel.Memory.Plain
import StarterKernel.Memory.Copies
import StarterKernel.Kernel.Strings
import StarterKernel.Strings.Concatenation
import StarterKernel.Strings.Copies
import StarterKernel.Terminal.Cursor
import StarterKernel.Terminal.Hardware
import StarterKernel.Terminal.Log
import StarterKernel.Kernel.Tlb
import StarterKernel.Paging.CachedRuns
import StarterKernel.Kernel.Ports
import StarterKernel.Kernel.Pic
import StarterKernel.Interrupts.Masks
import StarterKernel.Kernel.InterruptDelivery
import StarterKernel.Interrupts.KeyDelivery
import StarterKernel.Kernel.Gdt
import StarterKernel.Processor.Segments
import StarterKernel.Kernel.Exceptions
import StarterKernel.Processor.Vectors
import StarterKernel.Processor.Cpu
import StarterKernel.Processor.Stack
import StarterKernel.Processor.Loaded
import StarterKernel.Processor.Returns
import StarterKernel.Kernel.EntryPoints
import StarterKernel.SystemCalls.RoundTrip
import StarterKernel.Exec.EnterProgram
import StarterKernel.Exec.FromStart
import StarterKernel.Exec.BootInfo
import StarterKernel.Interrupts.Software
