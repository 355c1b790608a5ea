import JoshOS.Boot
import JoshOS.Lib.Spans

/-!
The physical frame allocator of `pmm.c`.

The two arrays `free_ranges[0..free_range_count)` and
`managed_ranges[0..managed_range_count)` are lists of spans.  A loop that moves
a cursor through the array is written on the part before and the part after the
cursor: `insertFreeRange` splits at `pos`, `removeInterval` carries the ranges
it has passed.  `PMM_INVALID_FRAME` is `none`.
-/

namespace JoshOS

open Words

/-- `PMM_PAGE_SIZE`. -/
def pmmPageSize : ℕ := 4096

/-- `PMM_MIN_PHYSICAL`. -/
def pmmMinPhysical : ℕ := 0x00100000

/-- `PMM_MAX_RANGES`. -/
def pmmMaxRanges : ℕ := 4096

/-- `pmm_status_t`. -/
inductive PmmStatus where
  | ok | badArgument | noMemory | rangeCapacity | invalidFree | doubleFree
  deriving DecidableEq, Repr

/-- The static variables of `pmm.c`. -/
structure Pmm where
  freeRanges : List Span
  managedRanges : List Span
  totalFrames : ℕ
  freeFrames : ℕ
  initialised : Bool
  deriving DecidableEq, Repr

/-- `pmm_stats_t`. -/
structure PmmStats where
  totalFrames : ℕ
  freeFrames : ℕ
  allocatedFrames : ℕ
  freeRangeCount : ℕ
  deriving DecidableEq, Repr

/-- The statics after the reset with which `pmm_init` starts. -/
def Pmm.empty : Pmm := ⟨[], [], 0, 0, false⟩

namespace Pmm

/-! ### The free list -/

/-- The update `if (end > r.end) r.end = end` of both merges of
`insert_free_range`. -/
def extendTo (r : Span) (stop : ℕ) : Span := ⟨r.start, if r.stop < stop then stop else r.stop⟩

/-- The second loop of `insert_free_range`: the range at `pos` swallows its
successors while it reaches them. -/
def absorbFollowing (current : Span) : List Span → List Span
  | [] => [current]
  | next :: rest =>
    if next.start ≤ current.stop then absorbFollowing (extendTo current next.stop) rest
    else current :: next :: rest

/-- `insert_free_range`. -/
def insertFreeRange (ranges : List Span) (start stop : ℕ) : PmmStatus × List Span :=
  if stop ≤ start then (.ok, ranges)
  else
    let before := ranges.takeWhile fun r => r.start < start
    let after := ranges.dropWhile fun r => r.start < start
    if pmmMaxRanges ≤ ranges.length then (.rangeCapacity, ranges)
    else
      match before.getLast? with
      | none => (.ok, absorbFollowing ⟨start, stop⟩ after)
      | some previous =>
        if start ≤ previous.stop then
          (.ok, before.dropLast ++ absorbFollowing (extendTo previous stop) after)
        else (.ok, before ++ absorbFollowing ⟨start, stop⟩ after)

/-- The loop of `remove_interval` at index `i = done.length` of the array
`done ++ rest`. -/
def removeIntervalFrom (start stop : ℕ) (done : List Span) : List Span → PmmStatus × List Span
  | [] => (.ok, done)
  | r :: rest =>
    if stop ≤ r.start ∨ r.stop ≤ start then
      removeIntervalFrom start stop (done ++ [r]) rest
    else if start ≤ r.start ∧ r.stop ≤ stop then
      removeIntervalFrom start stop done rest
    else if start ≤ r.start then
      removeIntervalFrom start stop
        (done ++ [⟨if stop < r.stop then stop else r.stop, r.stop⟩]) rest
    else if r.stop ≤ stop then
      removeIntervalFrom start stop (done ++ [⟨r.start, start⟩]) rest
    else if pmmMaxRanges ≤ (done ++ r :: rest).length then
      (.rangeCapacity, done ++ r :: rest)
    else
      removeIntervalFrom start stop (done ++ [⟨r.start, start⟩, ⟨stop, r.stop⟩]) rest

/-- `remove_interval`. -/
def removeInterval (ranges : List Span) (start stop : ℕ) : PmmStatus × List Span :=
  if stop ≤ start then (.ok, ranges) else removeIntervalFrom start stop [] ranges

/-! ### Initialisation -/

/-- The first loop of `pmm_init`: every usable entry, clipped to
`[PMM_MIN_PHYSICAL, physical_memory_limit)` and to whole pages, is inserted. -/
def insertUsable (limit : ℕ) : List BootMemoryRegion → List Span → PmmStatus × List Span
  | [], ranges => (.ok, ranges)
  | region :: regions, ranges =>
    if region.type ≠ .usable ∨ region.length = 0 then insertUsable limit regions ranges
    else if uint64Max - region.base < region.length then (.badArgument, ranges)
    else
      let start := if region.base < pmmMinPhysical then pmmMinPhysical else region.base
      let stop := if limit < region.stop then limit else region.stop
      match alignUp start pmmPageSize with
      | none => insertUsable limit regions ranges
      | some start =>
        let stop := alignDown stop pmmPageSize
        if stop ≤ start then insertUsable limit regions ranges
        else
          match insertFreeRange ranges start stop with
          | (.ok, ranges) => insertUsable limit regions ranges
          | failed => failed

/-- The second loop of `pmm_init`: every other entry, rounded outwards to whole
pages, is taken out again. -/
def removeReserved : List BootMemoryRegion → List Span → PmmStatus × List Span
  | [], ranges => (.ok, ranges)
  | region :: regions, ranges =>
    if region.type = .usable ∨ region.length = 0 then removeReserved regions ranges
    else if uint64Max - region.base < region.length then (.badArgument, ranges)
    else
      let start := alignDown region.base pmmPageSize
      let stop := (alignUp region.stop pmmPageSize).getD (alignDown uint64Max pmmPageSize)
      match removeInterval ranges start stop with
      | (.ok, ranges) => removeReserved regions ranges
      | failed => failed

/-- The removal of the kernel image and of the framebuffer in `pmm_init`: a
nonempty extent is rounded outwards to whole pages and taken out. -/
def removeExtent (ranges : List Span) (physStart physEnd : ℕ) : PmmStatus × List Span :=
  if physStart < physEnd then
    match alignUp physEnd pmmPageSize with
    | none => (.badArgument, ranges)
    | some stop => removeInterval ranges (alignDown physStart pmmPageSize) stop
  else (.ok, ranges)

/-- The number of frames of a list of ranges, as the last loop of `pmm_init`
adds it up. -/
def countFrames (ranges : List Span) : ℕ :=
  (ranges.map fun r => (r.stop - r.start) / pmmPageSize).sum

/-- `pmm_init`.  An early return leaves the ranges built so far behind, with
`initialised` still clear. -/
def pmmInit : Option BootContext → PmmStatus × Pmm
  | none => (.badArgument, empty)
  | some boot =>
    if boot.memoryMap.length = 0 ∨ bootMemoryMaxEntries < boot.memoryMap.length ∨
        boot.physicalMemoryLimit ≤ pmmMinPhysical then (.badArgument, empty)
    else
      match insertUsable boot.physicalMemoryLimit boot.memoryMap [] with
      | (.ok, ranges) =>
        if ranges.length = 0 then (.noMemory, empty)
        else
          match removeReserved boot.memoryMap ranges with
          | (.ok, ranges) =>
            match removeExtent ranges boot.kernelPhysStart boot.kernelPhysEnd with
            | (.ok, ranges) =>
              match removeExtent ranges boot.framebufferPhysStart
                  boot.framebufferPhysEnd with
              | (.ok, ranges) =>
                if ranges.length = 0 then (.noMemory, empty)
                else (.ok, ⟨ranges, ranges, countFrames ranges, countFrames ranges, true⟩)
              | (status, ranges) => (status, { empty with freeRanges := ranges })
            | (status, ranges) => (status, { empty with freeRanges := ranges })
          | (status, ranges) => (status, { empty with freeRanges := ranges })
      | (status, ranges) => (status, { empty with freeRanges := ranges })

/-! ### Allocation and release -/

/-- The search loop of `pmm_alloc_frames`: the first range with `bytes` to spare
gives up its front, and disappears when that was all of it. -/
def takeFront (bytes : ℕ) : List Span → Option (ℕ × List Span)
  | [] => none
  | r :: rest =>
    if r.stop - r.start < bytes then
      (takeFront bytes rest).map fun found => (found.1, r :: found.2)
    else
      some (r.start, if r.start + bytes = r.stop then rest else ⟨r.start + bytes, r.stop⟩ :: rest)

/-- `pmm_alloc_frames`. -/
def pmmAllocFrames (s : Pmm) (frameCount : ℕ) : Option ℕ × Pmm :=
  if s.initialised = false ∨ frameCount = 0 ∨ s.freeFrames < frameCount then (none, s)
  else
    match takeFront (frameCount * pmmPageSize) s.freeRanges with
    | none => (none, s)
    | some (frame, ranges) =>
      (some frame, { s with freeRanges := ranges, freeFrames := s.freeFrames - frameCount })

/-- `pmm_alloc_frame`. -/
def pmmAllocFrame (s : Pmm) : Option ℕ × Pmm := s.pmmAllocFrames 1

/-- `contains_frame`. -/
def containsFrame (r : Span) (frame : ℕ) : Bool :=
  r.start ≤ frame ∧ pmmPageSize ≤ uint64Max - frame ∧ frame + pmmPageSize ≤ r.stop

/-- `frame_is_managed`. -/
def frameIsManaged (s : Pmm) (frame : ℕ) : Bool := s.managedRanges.any (containsFrame · frame)

/-- `frame_is_free`. -/
def frameIsFree (s : Pmm) (frame : ℕ) : Bool := s.freeRanges.any (containsFrame · frame)

/-- The checking loop of `pmm_free_frames`, which visits `count` frames from
`current` on and returns the error it stops at. -/
def checkRelease (s : Pmm) (current : ℕ) : ℕ → Option PmmStatus
  | 0 => none
  | count + 1 =>
    if s.frameIsManaged current = false then some .invalidFree
    else if s.frameIsFree current then some .doubleFree
    else s.checkRelease (current + pmmPageSize) count

/-- `pmm_free_frames`. -/
def pmmFreeFrames (s : Pmm) (frame frameCount : ℕ) : PmmStatus × Pmm :=
  if s.initialised = false ∨ frameCount = 0 ∨ frame % pmmPageSize ≠ 0 then (.invalidFree, s)
  else
    let bytes := frameCount * pmmPageSize
    if uint64Max - frame < bytes then (.invalidFree, s)
    else
      match s.checkRelease frame frameCount with
      | some status => (status, s)
      | none =>
        match insertFreeRange s.freeRanges frame (frame + bytes) with
        | (.ok, ranges) =>
          (.ok, { s with freeRanges := ranges, freeFrames := s.freeFrames + frameCount })
        | (status, _) => (status, s)

/-- `pmm_free_frame`. -/
def pmmFreeFrame (s : Pmm) (frame : ℕ) : PmmStatus × Pmm := s.pmmFreeFrames frame 1

/-- `pmm_stats`. -/
def pmmStats (s : Pmm) : PmmStats where
  totalFrames := s.totalFrames
  freeFrames := s.freeFrames
  allocatedFrames := wrap64 (s.totalFrames + 2 ^ 64 - s.freeFrames)
  freeRangeCount := s.freeRanges.length

end Pmm

end JoshOS
