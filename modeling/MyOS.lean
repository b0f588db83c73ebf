import MyOS.Lib.Packed
import MyOS.Pmm.Bitmap
import MyOS.Pmm.Inv
import MyOS.Pmm.Owner
import MyOS.Lib.Mem
import MyOS.Pmm.Init
import MyOS.Pmm.InitSpec
import MyOS.Pmm.FreeSet
import MyOS.Pmm.Handover
import MyOS.Lib.Paging
import MyOS.Pmm.Runs
import MyOS.Vmm.Map
import MyOS.Vmm.Refine
import MyOS.Vmm.Mmu
import MyOS.Vmm.Pointers
import MyOS.Elf.Load
import MyOS.Elf.Inv
import MyOS.Elf.Pages
import MyOS.Elf.Segments
import MyOS.Elf.Correct
import MyOS.Elf.Leak
import MyOS.Elf.Isolation
import MyOS.Lib.Chain
import MyOS.Task.Sched
import MyOS.Elf.Keeps
import MyOS.Task.Steps
import MyOS.Task.Inv
import MyOS.Task.Running
import MyOS.Task.Linked
import MyOS.Lib.X86
import MyOS.Task.Switch
import MyOS.Task.SwitchSpec
import MyOS.Task.Context
import MyOS.Vfs.Names
import MyOS.Vfs.TarInit
import MyOS.Vfs.Listing
import MyOS.Vfs.Ustar
import MyOS.Vfs.Lookup
import MyOS.Elf.Shared
import MyOS.Task.UserStacks
import MyOS.Task.KernelView
import MyOS.Vfs.Clamp
import MyOS.Vfs.Header
import MyOS.Vfs.HeaderLoop
import MyOS.Vfs.Parents
import MyOS.Task.FreshPages
import MyOS.Vmm.TwoRuns
import MyOS.Task.Syscall
import MyOS.Elf.Virtual
import MyOS.Elf.Overlap
import MyOS.Elf.Writes
import MyOS.Elf.Interrupts
import MyOS.Lib.Traced
import MyOS.Boot.Main
import MyOS.Boot.Interrupts
import MyOS.Pmm.Blocks
import MyOS.Vmm.Identity
import MyOS.Vmm.Faults
import MyOS.Lib.Loops
import MyOS.Terminal.Screen
import MyOS.Lib.Walks
import MyOS.Task.Ends
import MyOS.Task.RoundRobin
import MyOS.Lib.Trap
import MyOS.Trap.Stubs
import MyOS.Trap.RoundTrip
import MyOS.Boot.Tables
import MyOS.Lib.Lazy
import MyOS.Lib.Tlb
import MyOS.Vmm.Demand
import MyOS.Trap.UserRuns
import MyOS.Lib.Pic
import MyOS.Trap.Irq
import MyOS.Boot.Diagnostics
