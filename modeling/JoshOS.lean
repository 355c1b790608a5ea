import JoshOS.Pmm.Runs
import JoshOS.Lib.Hoare
import JoshOS.Lib.Memory
import JoshOS.Lib.Radix
import JoshOS.Paging.Model
import JoshOS.Paging.Tree
import JoshOS.Paging.Walk
import JoshOS.Paging.Map
import JoshOS.Paging.Init
import JoshOS.Paging.Space
import JoshOS.Paging.Direct
import JoshOS.Paging.Runs
import JoshOS.Heap.Model
import JoshOS.Lib.Links
import JoshOS.Heap.Blocks
import JoshOS.Heap.Refine
import JoshOS.Heap.Ops
import JoshOS.Heap.Spec
import JoshOS.Heap.Runs
import JoshOS.Paging.Owners
import JoshOS.Heap.Kernel
import JoshOS.Heap.System
import JoshOS.Block.Cache
import JoshOS.Lib.Slots
import JoshOS.Tmpfs.Model
import JoshOS.Vfs.Model
import JoshOS.Tmpfs.Ops
import JoshOS.Tmpfs.Paths
import JoshOS.Tmpfs.Tree
import JoshOS.Vfs.Handles
import JoshOS.Lib.Writes
import JoshOS.Tmpfs.Contents
import JoshOS.Vfs.Files
import JoshOS.Services.Model
import JoshOS.Services.Values
import JoshOS.Services.Store
import JoshOS.Lib.OnesComplement
import JoshOS.Net.Proto
import JoshOS.Net.Wire
import JoshOS.Net.Dns
import JoshOS.Pmm.Order
import JoshOS.Paging.Windows
import JoshOS.E1000.Model
import JoshOS.Lib.Ring
import JoshOS.E1000.Transmit
import JoshOS.E1000.Receive
import JoshOS.Input.Queue
import JoshOS.Scheduler.Model
import JoshOS.Scheduler.Safety
import JoshOS.Pmm.Requests
import JoshOS.Paging.Update
import JoshOS.Compositor.Geometry
import JoshOS.Tmpfs.Access
import JoshOS.Vfs.Access
import JoshOS.Vfs.Mounts
import JoshOS.Acpi.Model
import JoshOS.Acpi.Tables
import JoshOS.Acpi.Madt
import JoshOS.Acpi.Discovery
import JoshOS.Lib.Crc
import JoshOS.Partition.Model
import JoshOS.Partition.Format
import JoshOS.Partition.Gpt
import JoshOS.Lib.Recency
import JoshOS.Block.Lru
import JoshOS.Partition.Safety
import JoshOS.Partition.Corruption
import JoshOS.Net.Response
import JoshOS.Tmpfs.Listing
import JoshOS.Services.LogFile
import JoshOS.Services.Log
import JoshOS.Paging.Failure
import JoshOS.Heap.Mmio
import JoshOS.Heap.Grow
import JoshOS.Heap.Order
import JoshOS.Heap.Stale
import JoshOS.Net.Checksums
import JoshOS.Net.Dhcp
import JoshOS.Input.Keyboard
import JoshOS.Scheduler.Fairness
import JoshOS.Boot.Josh
import JoshOS.Gfx
import JoshOS.Net.Device
import JoshOS.Compositor.Resize
import JoshOS.Lib.Registers
import JoshOS.Pci
import JoshOS.Net.LongSums
import JoshOS.Lib.Escape
import JoshOS.Control.Model
import JoshOS.Control.Nmcli
import JoshOS.Control.Scan
import JoshOS.Control.Apps
import JoshOS.Control.Wine
import JoshOS.Lib.Keyed
import JoshOS.Shell.Model
import JoshOS.Shell.Windows
import JoshOS.Shell.Focus
import JoshOS.Shell.Geometry
import JoshOS.SpinLock
