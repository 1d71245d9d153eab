import Lvisor.Lib.Run
import Lvisor.Lib.Word
import Lvisor.Lib.Piecewise
import Lvisor.Lib.SweepLine
import Lvisor.Lib.HeapSort
import Lvisor.Lib.Output
import Lvisor.Lib.Slots
import Lvisor.Lib.Search
import Lvisor.Machine
import Lvisor.Ept
import Lvisor.EptFrames
import Lvisor.EptIsolation
import Lvisor.Sort
import Lvisor.E820
import Lvisor.E820Sanitize
import Lvisor.E820Range
import Lvisor.E820Exact
import Lvisor.Boot
import Lvisor.BootMap
import Lvisor.Multiboot
import Lvisor.Acpi
import Lvisor.Apic
import Lvisor.Vmcs
import Lvisor.Vmx
import Lvisor.VmxExit
import Lvisor.Guest
import Lvisor.GuestMode
import Lvisor.Syscall
import Lvisor.KvmLoop
import Lvisor.GuestView
import Lvisor.Tlb
import Lvisor.Lapic
import Lvisor.Vsprintf
import Lvisor.VsprintfOutput
import Lvisor.GuestPaging
import Lvisor.CrMove
import Lvisor.MultibootHeader
import Lvisor.Elf
import Lvisor.EntryCode
import Lvisor.EntryFrame
import Lvisor.EntryMacros
import Lvisor.EntryInterrupt
import Lvisor.Entry
import Lvisor.VcpuRun
import Lvisor.MsrInterception
import Lvisor.SegmentCodec
import Lvisor.VmxControls
import Lvisor.Tsc
import Lvisor.Printk
import Lvisor.Rsdp
import Lvisor.Madt
import Lvisor.Aout
import Lvisor.VsprintfNumber
import Lvisor.Strscpy
import Lvisor.FindBit
import Lvisor.SortMemory
import Lvisor.PutDec
import Lvisor.Lib.Critical
import Lvisor.Spinlock
import Lvisor.LinkedList
import Lvisor.Console
import Lvisor.Idt
import Lvisor.Paging
import Lvisor.Gdt
import Lvisor.Traps
import Lvisor.Strings
import Lvisor.Lib.Ring
import Lvisor.Lib.Scroll
import Lvisor.Vgacon
import Lvisor.HostState
import Lvisor.Calibrate
import Lvisor.GuestBoot
import Lvisor.Format
import Lvisor.Hexdump
