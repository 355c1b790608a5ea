import JoshOS.Lib.Words

/-!
The boot context of `boot.h`, as far as the memory subsystems read it.

A `boot_context_t` is filled by a boot adapter before any of the modelled code
runs and is never written afterwards.  Its `memory_map[0..memory_map_count)` is
a list; its 64-bit fields are natural numbers together with the proof that they
are words (`BootContext.words`, `BootMemoryRegion.base_lt`).
-/

namespace JoshOS

open Words

/-- `BOOT_MEMORY_MAX_ENTRIES`. -/
def bootMemoryMaxEntries : ℕ := 128

/-- `boot_memory_type_t`. -/
inductive BootMemoryType where
  | reserved | usable | acpiReclaimable | acpiNvs | bad
  deriving DecidableEq, Repr

/-- `boot_memory_region_t`, without its `flags`, which nothing reads. -/
structure BootMemoryRegion where
  base : ℕ
  length : ℕ
  type : BootMemoryType
  base_lt : base < 2 ^ 64 := by decide
  length_lt : length < 2 ^ 64 := by decide
  deriving DecidableEq, Repr

/-- `boot_context_t`: the memory map, the physical window promised by the
loader, and the extents of the framebuffer and of the kernel image. -/
structure BootContext where
  memoryMap : List BootMemoryRegion
  physicalMemoryOffset : ℕ
  physicalMemoryLimit : ℕ
  framebufferPhysStart : ℕ
  framebufferPhysEnd : ℕ
  kernelPhysStart : ℕ
  kernelPhysEnd : ℕ
  kernelVirtStart : ℕ
  kernelVirtEnd : ℕ
  words : ∀ v ∈ [physicalMemoryOffset, physicalMemoryLimit, framebufferPhysStart,
    framebufferPhysEnd, kernelPhysStart, kernelPhysEnd, kernelVirtStart, kernelVirtEnd],
    v < 2 ^ 64 := by decide

namespace BootContext

variable (boot : BootContext)

lemma physicalMemoryOffset_lt : boot.physicalMemoryOffset < 2 ^ 64 := boot.words _ (by simp)

lemma physicalMemoryLimit_lt : boot.physicalMemoryLimit < 2 ^ 64 := boot.words _ (by simp)

lemma framebufferPhysEnd_lt : boot.framebufferPhysEnd < 2 ^ 64 := boot.words _ (by simp)

lemma kernelPhysEnd_lt : boot.kernelPhysEnd < 2 ^ 64 := boot.words _ (by simp)

end BootContext

/-- A machine with 8 MiB of memory, used where a statement is checked on one
concrete boot: five pages of kernel image at 2 MiB, linked at the top of the
address space, and one page of framebuffer at 3 MiB. -/
def eightMiBBoot : BootContext where
  memoryMap := [⟨0, 0x100000, .reserved, by decide, by decide⟩,
    ⟨0x100000, 0x700000, .usable, by decide, by decide⟩]
  physicalMemoryOffset := 0xffff800000000000
  physicalMemoryLimit := 0x800000
  framebufferPhysStart := 0x300000
  framebufferPhysEnd := 0x301000
  kernelPhysStart := 0x200000
  kernelPhysEnd := 0x205000
  kernelVirtStart := 0xffffffff80000000
  kernelVirtEnd := 0xffffffff80005000

/-- The end of a memory-map entry, which the code computes only after checking
that it does not leave the address space. -/
def BootMemoryRegion.stop (r : BootMemoryRegion) : ℕ := r.base + r.length

end JoshOS
