import Bikeshed.Lib.Wp
import Bikeshed.Lib.Block
import Bikeshed.Lib.PageTree
import Bikeshed.Lib.PageTreeStore
import Bikeshed.VirtMemory.LookupTheorems
import Bikeshed.VirtMemory.Teardown
import Bikeshed.VirtMemory.Coherence
import Bikeshed.VirtMemory.MapUnmap
import Bikeshed.VirtMemory.Permissions
import Bikeshed.VirtMemory.PhysicalInitTheorems
import Bikeshed.Lib.Linked
import Bikeshed.PhysMemory.FreePanics
import Bikeshed.VirtMemory.KernelAllocator
import Bikeshed.PhysMemory.MemoryMap
import Bikeshed.Kernel.BlockTheorems
import Bikeshed.Kernel.QueueRun
import Bikeshed.Keyboard.Fifo
import Bikeshed.Scheduler.Queues
import Bikeshed.Scheduler.Wakeups
import Bikeshed.Scheduler.Waiting
import Bikeshed.Tetris.Accounts
import Bikeshed.Tetris.Lines
import Bikeshed.Kernel.WatermarkTheorems
import Bikeshed.Kernel.KlibExact
import Bikeshed.Sound.CorbTheorems
import Bikeshed.Sound.RirbTheorems
import Bikeshed.Sound.StreamsTheorems
import Bikeshed.Sound.WidgetsTheorems
import Bikeshed.Boot.Framing
import Bikeshed.Process.ElfKernelHalf
import Bikeshed.Console.PrintingTheorems
import Bikeshed.Console.TextMode
import Bikeshed.Kernel.LinkedListTheorems
import Bikeshed.Lib.Canvas
import Bikeshed.Shell.Editing
import Bikeshed.Tetris.DrawingTheorems
import Bikeshed.Tetris.ScreenTheorems
