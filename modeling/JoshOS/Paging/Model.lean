import JoshOS.Lib.Hoare
import JoshOS.Lib.Memory
import JoshOS.Pmm.Model

/-!
The page tables of `paging.c`.

The code builds four-level tables in frames taken from the frame allocator and
reaches them through the physical window at `physical_memory_offset`; a table is
therefore bytes of memory, and an entry the 64-bit word at `table + 8 * index`.  A
function that returns a `paging_status_t` is a computation that stops with that
status, in the state it had reached; its out parameters, which no caller passes as
NULL, are what it returns.  Null pointers are `0`, a null boot context is `none`.
The section symbols of the linker script are the parameter `KernelSymbols`.
-/

namespace JoshOS

open Words Memory Hoare

/-! ### Constants -/

/-- `PAGE_SIZE`. -/
def pageSize : ℕ := 0x1000

/-- `HUGE_PAGE_SIZE`. -/
def hugePageSize : ℕ := 0x200000

/-- `PAGE_MASK`. -/
def pageMask : ℕ := 0x000ffffffffff000

/-- `PAGE_PRESENT`. -/
def pagePresent : ℕ := 0x001

/-- `PAGE_RW`. -/
def pageRw : ℕ := 0x002

/-- `PAGE_PWT`. -/
def pagePwt : ℕ := 0x008

/-- `PAGE_PCD`. -/
def pagePcd : ℕ := 0x010

/-- `PAGE_PS`. -/
def pagePs : ℕ := 0x080

/-- `PAGE_NX`. -/
def pageNx : ℕ := 1 <<< 63

/-- `DIRECT_MAP_MAX`. -/
def directMapMax : ℕ := 0x10000000000

/-- `MMIO_BASE`. -/
def mmioBase : ℕ := 0xffffc00000000000

/-- `MMIO_LIMIT`. -/
def mmioLimit : ℕ := 0xffffc00040000000

/-- `TEMP_MAP_BASE`. -/
def tempMapBase : ℕ := 0xffffd00000000000

/-- `paging_status_t`, without `PAGING_OK`. -/
inductive PagingStatus where
  | badArgument | noMemory | unsupportedLayout | mappingConflict | windowExhausted
  deriving DecidableEq, Repr

/-- The section symbols that the linker script defines and `paging_init` reads. -/
structure KernelSymbols where
  textStart : ℕ
  textEnd : ℕ
  rodataStart : ℕ
  rodataEnd : ℕ
  dataStart : ℕ
  dataEnd : ℕ
  stackStart : ℕ
  stackEnd : ℕ
  words : ∀ v ∈ [textStart, textEnd, rodataStart, rodataEnd, dataStart, dataEnd, stackStart,
    stackEnd], v < 2 ^ 64 := by decide

/-- What the table code works on: memory and the frame allocator. -/
structure Machine where
  mem : Memory
  pmm : Pmm

/-- A function that returns a `paging_status_t`. -/
abbrev PagingM := ExceptT PagingStatus (StateM Machine)

namespace Paging

/-! ### Tables -/

/-- The loop of `zero_page` over the first `n` words. -/
def zeroWords (page : ℕ) (m : Memory) : ℕ → Memory
  | 0 => m
  | i + 1 => write64 (zeroWords page m i) (page + 8 * i) 0

/-- `zero_page`. -/
def zeroPage (page : ℕ) (m : Memory) : Memory := zeroWords page m (pageSize / 8)

/-- `phys_ptr`. -/
def physPtr (boot : BootContext) (phys : ℕ) : ℕ :=
  if uint64Max - boot.physicalMemoryOffset < phys then 0 else boot.physicalMemoryOffset + phys

/-- The entry `table[index]`. -/
def readEntry (table index : ℕ) : PagingM ℕ := do
  return read64 (← get).mem (table + 8 * index)

/-- The assignment `table[index] = value`. -/
def writeEntry (table index value : ℕ) : PagingM Unit :=
  modify fun s => { s with mem := write64 s.mem (table + 8 * index) value }

/-- `alloc_table`. -/
def allocTable (boot : BootContext) : PagingM ℕ := do
  let s ← get
  let (frame, pmm) := s.pmm.pmmAllocFrame
  set { s with pmm := pmm }
  match frame with
  | none => throw .noMemory
  | some phys =>
    let pointer := physPtr boot phys
    if pointer = 0 then throw .unsupportedLayout
    else do
      modify fun s => { s with mem := zeroPage pointer s.mem }
      return phys

/-- `ensure_table`. -/
def ensureTable (boot : BootContext) (tablePhys index : ℕ) : PagingM ℕ :=
  let table := physPtr boot tablePhys
  if table = 0 then throw .unsupportedLayout
  else do
    let entry ← readEntry table index
    if entry &&& pagePresent ≠ 0 then
      if entry &&& pagePs ≠ 0 then throw .mappingConflict
      else return entry &&& pageMask
    else do
      let nextPhys ← allocTable boot
      writeEntry table index (nextPhys ||| pagePresent ||| pageRw)
      return nextPhys

/-- The index of a virtual address in the table whose entries span `2 ^ shift`
bytes. -/
def tableIndex (virt shift : ℕ) : ℕ := (virt >>> shift) &&& 0x1ff

/-- The step of `pte_for_virtual` from the PML4 to the PDPT and from the PDPT to the
page directory. -/
def nextTable (boot : BootContext) (create : Bool) (tablePhys index : ℕ) : PagingM ℕ :=
  if create then ensureTable boot tablePhys index
  else do
    let entry ← readEntry (physPtr boot tablePhys) index
    if entry &&& pagePresent = 0 ∨ entry &&& pagePs ≠ 0 then throw .mappingConflict
    else return entry &&& pageMask

/-- The step of `pte_for_virtual` from the page directory to the page table, whose
page-size bit has been checked by then. -/
def lastTable (boot : BootContext) (create : Bool) (pdPhys index entry : ℕ) : PagingM ℕ :=
  if create then ensureTable boot pdPhys index
  else if entry &&& pagePresent = 0 then throw .mappingConflict
  else return entry &&& pageMask

/-- `pte_for_virtual`: the address of the entry for `virt` in its page table. -/
def pteForVirtual (boot : BootContext) (rootPhys virt : ℕ) (create : Bool) : PagingM ℕ :=
  if physPtr boot rootPhys = 0 then throw .unsupportedLayout
  else do
    let pdptPhys ← nextTable boot create rootPhys (tableIndex virt 39)
    if physPtr boot pdptPhys = 0 then throw .unsupportedLayout
    else do
      let pdPhys ← nextTable boot create pdptPhys (tableIndex virt 30)
      let pd := physPtr boot pdPhys
      if pd = 0 then throw .unsupportedLayout
      else do
        let entry ← readEntry pd (tableIndex virt 21)
        if entry &&& pagePs ≠ 0 then throw .mappingConflict
        else do
          let ptPhys ← lastTable boot create pdPhys (tableIndex virt 21) entry
          let pt := physPtr boot ptPhys
          if pt = 0 then throw .unsupportedLayout
          else return pt + 8 * tableIndex virt 12

/-- `map_2m_flags`. -/
def map2mFlags (boot : BootContext) (rootPhys virt phys flags : ℕ) : PagingM Unit :=
  if virt % hugePageSize ≠ 0 ∨ phys % hugePageSize ≠ 0 then throw .unsupportedLayout
  else do
    let pdptPhys ← ensureTable boot rootPhys (tableIndex virt 39)
    let pdPhys ← ensureTable boot pdptPhys (tableIndex virt 30)
    let pd := physPtr boot pdPhys
    if pd = 0 then throw .unsupportedLayout
    else do
      let wanted := phys ||| pagePresent ||| pagePs ||| flags
      let entry ← readEntry pd (tableIndex virt 21)
      if entry &&& pagePresent ≠ 0 ∧ entry ≠ wanted then throw .mappingConflict
      else writeEntry pd (tableIndex virt 21) wanted

/-- `map_4k_flags`. -/
def map4kFlags (boot : BootContext) (rootPhys virt phys flags : ℕ) (replace : Bool) :
    PagingM Unit :=
  if virt % pageSize ≠ 0 ∨ phys % pageSize ≠ 0 then throw .unsupportedLayout
  else do
    let pte ← pteForVirtual boot rootPhys virt true
    let wanted := phys ||| pagePresent ||| flags
    let entry ← readEntry pte 0
    if entry &&& pagePresent ≠ 0 ∧ entry ≠ wanted ∧ replace = false then throw .mappingConflict
    else writeEntry pte 0 wanted

/-! ### The layout of the kernel address space -/

/-- `ranges_overlap`. -/
def rangesOverlap (aStart aEnd bStart bEnd : ℕ) : Bool := aStart < bEnd ∧ bStart < aEnd

/-- `kernel_phys_for_virtual`. -/
def kernelPhysForVirtual (boot : BootContext) (virt : ℕ) : Option ℕ :=
  if virt < boot.kernelVirtStart ∨ boot.kernelVirtEnd ≤ virt then none
  else
    let offset := virt - boot.kernelVirtStart
    if uint64Max - boot.kernelPhysStart < offset then none
    else some (boot.kernelPhysStart + offset)

/-- `kernel_section_phys_range`. -/
def kernelSectionPhysRange (boot : BootContext) (startVirt endVirt : ℕ) : Option (ℕ × ℕ) :=
  if endVirt ≤ startVirt then none
  else
    match kernelPhysForVirtual boot startVirt, kernelPhysForVirtual boot (endVirt - 1) with
    | some start, some lastPhys => if lastPhys = uint64Max then none else some (start, lastPhys + 1)
    | _, _ => none

/-- The condition of `direct_flags_for_page` on a section: the page lies in the
section's physical range, rounded to whole pages. -/
def sectionHasPage (boot : BootContext) (startVirt endVirt phys : ℕ) : Bool :=
  match kernelSectionPhysRange boot startVirt endVirt with
  | none => false
  | some (start, stop) =>
    alignDown start pageSize ≤ phys ∧ phys < alignDown (wrap64 (stop + pageSize - 1)) pageSize

/-- `direct_flags_for_page`. -/
def directFlagsForPage (boot : BootContext) (sym : KernelSymbols) (phys : ℕ) : ℕ :=
  let flags := pageRw ||| pageNx
  let flags := if sectionHasPage boot sym.textStart sym.textEnd phys then pageNx else flags
  let flags := if sectionHasPage boot sym.rodataStart sym.rodataEnd phys then pageNx else flags
  if rangesOverlap phys (wrap64 (phys + pageSize)) boot.framebufferPhysStart
      boot.framebufferPhysEnd then pageRw ||| pageNx ||| pagePcd ||| pagePwt
  else flags

/-- `chunk_needs_4k_mapping`. -/
def chunkNeeds4kMapping (boot : BootContext) (phys : ℕ) : Bool :=
  let stop := wrap64 (phys + hugePageSize)
  rangesOverlap phys stop boot.kernelPhysStart boot.kernelPhysEnd ||
    rangesOverlap phys stop boot.framebufferPhysStart boot.framebufferPhysEnd

/-- `map_direct_range`.  The `break` at the limit is a skip here: the pages after
it lie above the limit too. -/
def mapDirectRange (boot : BootContext) (sym : KernelSymbols) (rootPhys limit : ℕ) :
    PagingM Unit :=
  forUp 0 limit hugePageSize fun phys =>
    if chunkNeeds4kMapping boot phys = false then
      map2mFlags boot rootPhys (wrap64 (boot.physicalMemoryOffset + phys)) phys (pageRw ||| pageNx)
    else
      forUp 0 hugePageSize pageSize fun offset =>
        if limit ≤ phys + offset then pure ()
        else
          map4kFlags boot rootPhys (wrap64 (boot.physicalMemoryOffset + (phys + offset)))
            (phys + offset) (directFlagsForPage boot sym (phys + offset)) false

/-- `map_kernel_virtual_range`. -/
def mapKernelVirtualRange (boot : BootContext) (rootPhys startVirt endVirt flags : ℕ) :
    PagingM Unit :=
  if endVirt ≤ startVirt then pure ()
  else
    match alignUp endVirt pageSize with
    | none => throw .unsupportedLayout
    | some pageEnd =>
      forUp (alignDown startVirt pageSize) pageEnd pageSize fun virt =>
        match kernelPhysForVirtual boot virt with
        | none => throw .unsupportedLayout
        | some phys => map4kFlags boot rootPhys virt (alignDown phys pageSize) flags false

/-- The end of a usable entry that does not leave the address space, as the loop of
`physical_map_limit` accumulates it. -/
def raiseLimit (limit : ℕ) (region : BootMemoryRegion) : ℕ :=
  if region.type ≠ .usable ∨ region.length = 0 ∨ uint64Max - region.base < region.length then limit
  else if limit < region.stop then region.stop
  else limit

/-- `physical_map_limit`. -/
def physicalMapLimit (boot : BootContext) : Option ℕ :=
  let limit := boot.memoryMap.foldl raiseLimit 0
  let limit := if limit < boot.framebufferPhysEnd then boot.framebufferPhysEnd else limit
  let limit := if limit < boot.kernelPhysEnd then boot.kernelPhysEnd else limit
  if limit = 0 ∨ directMapMax < limit then none else alignUp limit hugePageSize

/-- The part of `paging_init` after its checks: the new root, with the direct map and
the sections of the kernel image below it. -/
def mapKernelSpace (boot : BootContext) (sym : KernelSymbols) (newDirectLimit : ℕ) :
    PagingM ℕ := do
  let rootPhys ← allocTable boot
  mapDirectRange boot sym rootPhys newDirectLimit
  mapKernelVirtualRange boot rootPhys boot.kernelVirtStart sym.textStart pageNx
  mapKernelVirtualRange boot rootPhys sym.textStart sym.textEnd 0
  mapKernelVirtualRange boot rootPhys sym.rodataStart sym.rodataEnd pageNx
  mapKernelVirtualRange boot rootPhys sym.dataStart sym.dataEnd (pageRw ||| pageNx)
  mapKernelVirtualRange boot rootPhys sym.stackStart sym.stackEnd (pageRw ||| pageNx)
  return rootPhys

/-- The checks of `paging_init`: the new direct limit. -/
def checkLayout : Option BootContext → Except PagingStatus (BootContext × ℕ)
  | none => .error .badArgument
  | some boot =>
    if boot.kernelPhysEnd ≤ boot.kernelPhysStart ∨ boot.kernelVirtEnd ≤ boot.kernelVirtStart then
      .error .badArgument
    else if boot.physicalMemoryOffset % hugePageSize ≠ 0 then .error .unsupportedLayout
    else
      match physicalMapLimit boot with
      | none => .error .unsupportedLayout
      | some newDirectLimit =>
        if uint64Max - boot.physicalMemoryOffset < newDirectLimit - 1 then
          .error .unsupportedLayout
        else .ok (boot, newDirectLimit)

end Paging

/-! ### The interface -/

/-- The machine with the static variables of `paging.c`; `kernel_space` has one
field, `root_phys`. -/
structure Paging where
  machine : Machine
  activeBoot : Option BootContext
  rootPhys : ℕ
  directLimit : ℕ
  mmioNext : ℕ
  tempMapped : Bool

/-- `paging_mapping_t`. -/
structure PagingMapping where
  physicalAddress : ℕ := 0
  present : Bool := false
  writable : Bool := false
  executable : Bool := false
  huge : Bool := false
  cacheDisabled : Bool := false
  deriving DecidableEq, Repr

namespace Paging

/-- `paging_init`: the root that `*root_phys_out` receives, or the status it stops
with.  The statics change on success only. -/
def pagingInit (sym : KernelSymbols) (boot : Option BootContext) (s : Paging) :
    Except PagingStatus ℕ × Paging :=
  match checkLayout boot with
  | .error status => (.error status, s)
  | .ok (boot, newDirectLimit) =>
    match outcome (mapKernelSpace boot sym newDirectLimit) s.machine with
    | (.error status, machine) => (.error status, { s with machine := machine })
    | (.ok rootPhys, machine) =>
      (.ok rootPhys,
        { machine := machine, activeBoot := some boot, rootPhys := rootPhys,
          directLimit := newDirectLimit, mmioNext := mmioBase, tempMapped := false })

/-- The mapping that `query_root` reports for a leaf entry of a page of `size`
bytes. -/
def leafMapping (entry virt size : ℕ) (huge : Bool) : PagingMapping where
  physicalAddress := (entry &&& pageMask) + virt % size
  present := true
  writable := entry &&& pageRw ≠ 0
  executable := entry &&& pageNx = 0
  huge := huge
  cacheDisabled := entry &&& pagePcd ≠ 0

/-- `query_root` from the page table on; `none` where it returns 0. -/
def queryPt (boot : BootContext) (mem : Memory) (ptPhys virt : ℕ) : Option PagingMapping :=
  let pt := physPtr boot ptPhys
  if pt = 0 then none
  else
    let e4 := read64 mem (pt + 8 * tableIndex virt 12)
    if e4 &&& pagePresent = 0 then some {} else some (leafMapping e4 virt pageSize false)

/-- `query_root` from the page directory on. -/
def queryPd (boot : BootContext) (mem : Memory) (pdPhys virt : ℕ) : Option PagingMapping :=
  let pd := physPtr boot pdPhys
  if pd = 0 then none
  else
    let e3 := read64 mem (pd + 8 * tableIndex virt 21)
    if e3 &&& pagePresent = 0 then some {}
    else if e3 &&& pagePs ≠ 0 then some (leafMapping e3 virt hugePageSize true)
    else queryPt boot mem (e3 &&& pageMask) virt

/-- `query_root` from the PDPT on. -/
def queryPdpt (boot : BootContext) (mem : Memory) (pdptPhys virt : ℕ) : Option PagingMapping :=
  let pdpt := physPtr boot pdptPhys
  if pdpt = 0 then none
  else
    let e2 := read64 mem (pdpt + 8 * tableIndex virt 30)
    if e2 &&& pagePresent = 0 then some {} else queryPd boot mem (e2 &&& pageMask) virt

/-- `query_root`. -/
def queryRoot (boot : BootContext) (rootPhys : ℕ) (mem : Memory) (virt : ℕ) :
    Option PagingMapping :=
  if rootPhys = 0 then none
  else
    let pml4 := physPtr boot rootPhys
    if pml4 = 0 then none
    else
      let e1 := read64 mem (pml4 + 8 * tableIndex virt 39)
      if e1 &&& pagePresent = 0 then some {} else queryPdpt boot mem (e1 &&& pageMask) virt

/-- `paging_query`. -/
def pagingQuery (s : Paging) (virtualAddress : ℕ) : Option PagingMapping :=
  match s.activeBoot with
  | none => none
  | some boot => queryRoot boot s.rootPhys s.machine.mem virtualAddress

/-- `paging_kernel_address_space`: the root of `kernel_space`, `none` for the null
pointer. -/
def pagingKernelAddressSpace (s : Paging) : Option ℕ :=
  if s.rootPhys = 0 then none else some s.rootPhys

/-- `paging_direct_pointer`. -/
def pagingDirectPointer (s : Paging) (physicalAddress : ℕ) : ℕ :=
  match s.activeBoot with
  | none => 0
  | some boot =>
    if s.directLimit ≤ physicalAddress ∨
        uint64Max - boot.physicalMemoryOffset < physicalAddress then 0
    else boot.physicalMemoryOffset + physicalAddress

/-- `paging_map_mmio`.  Physical addresses past the top of the address space wrap
around, as `phys_page + done` does. -/
def pagingMapMmio (s : Paging) (physicalAddress size : ℕ) : ℕ × Paging :=
  match s.activeBoot with
  | none => (0, s)
  | some boot =>
    if s.rootPhys = 0 ∨ size = 0 then (0, s)
    else
      let physPage := alignDown physicalAddress pageSize
      let offset := physicalAddress - physPage
      if uint64Max - offset < size then (0, s)
      else
        match alignUp (offset + size) pageSize with
        | none => (0, s)
        | some span =>
          if uint64Max - s.mmioNext < span ∨ mmioLimit < s.mmioNext + span then (0, s)
          else
            let virtPage := s.mmioNext
            let mapAll := forUp 0 span pageSize fun done =>
              map4kFlags boot s.rootPhys (virtPage + done) (wrap64 (physPage + done))
                (pageRw ||| pageNx ||| pagePcd ||| pagePwt) false
            match outcome mapAll s.machine with
            | (.error _, machine) => (0, { s with machine := machine })
            | (.ok _, machine) =>
              (virtPage + offset, { s with machine := machine, mmioNext := s.mmioNext + span })

/-- `paging_temp_map`. -/
def pagingTempMap (s : Paging) (physicalAddress : ℕ) : ℕ × Paging :=
  match s.activeBoot with
  | none => (0, s)
  | some boot =>
    if s.rootPhys = 0 then (0, s)
    else
      let physPage := alignDown physicalAddress pageSize
      let offset := physicalAddress - physPage
      match outcome (map4kFlags boot s.rootPhys tempMapBase physPage
          (pageRw ||| pageNx ||| pagePcd) true) s.machine with
      | (.error _, machine) => (0, { s with machine := machine })
      | (.ok _, machine) =>
        (tempMapBase + offset, { s with machine := machine, tempMapped := true })

/-- `paging_temp_unmap`. -/
def pagingTempUnmap (s : Paging) : Paging :=
  match s.activeBoot with
  | none => s
  | some boot =>
    if s.rootPhys = 0 ∨ s.tempMapped = false then s
    else
      match outcome (pteForVirtual boot s.rootPhys tempMapBase false) s.machine with
      | (.error _, machine) => { s with machine := machine, tempMapped := false }
      | (.ok pte, machine) =>
        { s with
          machine := { machine with mem := write64 machine.mem pte 0 }
          tempMapped := false }

end Paging

end JoshOS
