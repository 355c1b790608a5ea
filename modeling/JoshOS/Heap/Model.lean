import JoshOS.Lib.Records
import JoshOS.Lib.Words

/-!
The kernel heap of `heap.c`.

The heap is a doubly linked list of blocks threaded through the memory it hands
out.  A `heap_block_t` is a record in memory read and written field by field;
pointers are addresses and `0` is the null pointer.  The functions that only
follow and edit blocks are functions on the memory; those that use the static
variables are functions on `Heap`.

A walk along `next` has no bound in the source.  Here it gets `heapWalkFuel`
steps, one for each address, so that a walk that runs out has met a cycle.
-/

namespace JoshOS

open Words

/-- `HEAP_ALIGNMENT`. -/
def heapAlignment : ℕ := 16

/-- `HEAP_CANARY_BYTES`. -/
def heapCanaryBytes : ℕ := 8

/-- `HEAP_MIN_SPLIT`. -/
def heapMinSplit : ℕ := 32

/-- `HEAP_ALLOC_MAGIC`. -/
def heapAllocMagic : ℕ := 0x4a4f5348414c4c43

/-- `HEAP_FREE_MAGIC`. -/
def heapFreeMagic : ℕ := 0x4a4f534846524545

/-- `HEAP_CANARY_SEED`. -/
def heapCanarySeed : ℕ := 0xd19f4e7a63b285c1

/-- `heap_status_t`. -/
inductive HeapStatus where
  | ok | badArgument | notInitialised | outOfMemory | invalidPointer | doubleFree | corrupt
  deriving DecidableEq, Repr

/-- The fields of `heap_block_t`. -/
inductive HeapField where
  | magic | capacity | requested | next | prev | isFree | reserved
  deriving DecidableEq, Repr

/-- `heap_block_t` in memory: five 64-bit words and two 32-bit words. -/
def heapBlock : RecordLayout HeapField where
  offset
    | .magic => 0
    | .capacity => 8
    | .requested => 16
    | .next => 24
    | .prev => 32
    | .isFree => 40
    | .reserved => 44
  width
    | .isFree | .reserved => 4
    | _ => 8
  size := 48
  fits f := by cases f <;> decide
  disjoint f g := by cases f <;> cases g <;> decide

/-- `heap_grow_fn`.  The callback is asked for a minimum number of bytes; it
answers with a pointer and the number of bytes behind it and may change the
state `ε` that it works on. -/
abbrev HeapGrowFn (ε : Type) := ℕ → ε → (ℕ × ℕ) × ε

/-- The memory, the static variables of `heap.c`, and the state of the callback. -/
structure Heap (ε : Type) where
  mem : Memory
  world : ε
  blocks : ℕ := 0
  growCallback : Option (HeapGrowFn ε) := none
  totalRegionBytes : ℕ := 0
  allocatedPayloadBytes : ℕ := 0
  activeAllocations : ℕ := 0
  totalAllocations : ℕ := 0
  allocationFailures : ℕ := 0
  regionCount : ℕ := 0
  initialised : Bool := false

/-- `heap_stats_t`. -/
structure HeapStats where
  totalRegionBytes : ℕ
  freePayloadBytes : ℕ
  allocatedPayloadBytes : ℕ
  activeAllocations : ℕ
  totalAllocations : ℕ
  allocationFailures : ℕ
  regionCount : ℕ
  deriving DecidableEq, Repr

/-- The number of addresses, an upper bound for every walk that ends. -/
def heapWalkFuel : ℕ := 2 ^ 64

namespace Heap

variable {ε : Type}

/-! ### Arithmetic and bytes -/

/-- `align_up_ptr`. -/
def alignUpPtr (value alignment : ℕ) : ℕ :=
  alignDown (wrap64 (value + (alignment - 1))) alignment

/-- `align_up_size`; `none` when the next multiple does not fit in a `size_t`. -/
def alignUpSize (value alignment : ℕ) : Option ℕ :=
  if value % alignment = 0 then some value
  else
    let add := alignment - value % alignment
    if uint64Max - value < add then none else some (value + add)

/-- `payload`. -/
def payload (block : ℕ) : ℕ := block + heapBlock.size

/-- `block_canary`. -/
def blockCanary (m : Memory) (block : ℕ) : ℕ :=
  heapCanarySeed ^^^ block ^^^ heapBlock.get m block .requested

/-! ### Editing the block list -/

/-- `blocks_adjacent`. -/
def blocksAdjacent (m : Memory) (left right : ℕ) : Bool :=
  wrap64 (payload left + heapBlock.get m left .capacity) = right

/-- `merge_with_next`. -/
def mergeWithNext (block : ℕ) (m : Memory) : Memory :=
  let next := if block = 0 then 0 else heapBlock.get m block .next
  if block = 0 ∨ next = 0 ∨ heapBlock.get m block .isFree = 0 ∨
      heapBlock.get m next .isFree = 0 ∨ ¬ blocksAdjacent m block next then m
  else
    let m := heapBlock.set m block .capacity
      (wrap64 (heapBlock.get m block .capacity + (heapBlock.size + heapBlock.get m next .capacity)))
    let m := heapBlock.set m block .next (heapBlock.get m next .next)
    let m := if heapBlock.get m block .next ≠ 0 then
        heapBlock.set m (heapBlock.get m block .next) .prev block
      else m
    let m := heapBlock.set m block .magic heapFreeMagic
    heapBlock.set m block .requested 0

/-- The loop of `insert_region`: the neighbours `previous` and `current` between
which `block` belongs. -/
def insertionPoint (m : Memory) (block : ℕ) : ℕ → ℕ → ℕ → ℕ × ℕ
  | 0, previous, current => (previous, current)
  | fuel + 1, previous, current =>
    if current ≠ 0 ∧ current < block then
      insertionPoint m block fuel current (heapBlock.get m current .next)
    else (previous, current)

/-- The links that `insert_region` sets around a new block. -/
def linkIn (block previous current : ℕ) (m : Memory) : Memory :=
  let m := heapBlock.set m block .prev previous
  let m := heapBlock.set m block .next current
  let m := if previous ≠ 0 then heapBlock.set m previous .next block else m
  if current ≠ 0 then heapBlock.set m current .prev block else m

/-- The end of `insert_region`: a block that was linked in is merged with its
predecessor and with its successor. -/
def mergeInserted (block : ℕ) (m : Memory) : Memory :=
  if heapBlock.get m block .prev ≠ 0 then
    let m := mergeWithNext (heapBlock.get m block .prev) m
    if heapBlock.get m (heapBlock.get m block .prev) .next ≠ block then
      mergeWithNext (heapBlock.get m block .prev) m
    else mergeWithNext block m
  else mergeWithNext block m

/-- `insert_region`. -/
def insertRegion (block : ℕ) (s : Heap ε) : Heap ε :=
  if s.blocks = 0 then { s with blocks := block }
  else
    let (previous, current) := insertionPoint s.mem block heapWalkFuel 0 s.blocks
    { s with
      blocks := if previous ≠ 0 then s.blocks else block
      mem := mergeInserted block (linkIn block previous current s.mem) }

/-- The header that `add_region` writes for a region of `bytes` bytes. -/
def regionHeader (block bytes : ℕ) (m : Memory) : Memory :=
  let m := heapBlock.set m block .magic heapFreeMagic
  let m := heapBlock.set m block .capacity (bytes - heapBlock.size)
  let m := heapBlock.set m block .requested 0
  let m := heapBlock.set m block .next 0
  let m := heapBlock.set m block .prev 0
  let m := heapBlock.set m block .isFree 1
  heapBlock.set m block .reserved 0

/-- The second half of `add_region`, once the region was found large enough. -/
def registerRegion (block bytes : ℕ) (s : Heap ε) : Heap ε :=
  let s := insertRegion block { s with mem := regionHeader block bytes s.mem }
  { s with
    totalRegionBytes := wrap64 (s.totalRegionBytes + bytes)
    regionCount := (s.regionCount + 1) % 2 ^ 32 }

/-- `add_region`. -/
def addRegion (memory bytes : ℕ) (s : Heap ε) : Bool × Heap ε :=
  if memory = 0 ∨ bytes ≤ heapBlock.size + heapMinSplit then (false, s)
  else
    let aligned := alignUpPtr memory heapAlignment
    let skipped := wrap64 (aligned + 2 ^ 64 - memory)
    if bytes ≤ skipped then (false, s)
    else
      let bytes := alignDown (bytes - skipped) heapAlignment
      if bytes ≤ heapBlock.size + heapMinSplit then (false, s)
      else (true, registerRegion aligned bytes s)

/-- `grow_heap`. -/
def growHeap (minimumPayload : ℕ) (s : Heap ε) : Bool × Heap ε :=
  match s.growCallback with
  | none => (false, s)
  | some grow =>
    if uint64Max - minimumPayload < heapBlock.size + heapCanaryBytes then (false, s)
    else
      let needed := heapBlock.size + minimumPayload + heapCanaryBytes
      let ((memory, actual), world) := grow needed s.world
      let s := { s with world }
      if memory = 0 then (false, s) else addRegion memory actual s

/-- The loop of `find_block`. -/
def findBlockFrom (m : Memory) (capacityNeeded : ℕ) : ℕ → ℕ → ℕ
  | 0, _ => 0
  | fuel + 1, block =>
    if block = 0 then 0
    else if heapBlock.get m block .isFree ≠ 0 ∧
        capacityNeeded ≤ heapBlock.get m block .capacity then block
    else findBlockFrom m capacityNeeded fuel (heapBlock.get m block .next)

/-- `find_block`. -/
def findBlock (capacityNeeded : ℕ) (s : Heap ε) : ℕ :=
  findBlockFrom s.mem capacityNeeded heapWalkFuel s.blocks

/-- `split_block`. -/
def splitBlock (block usedCapacity : ℕ) (m : Memory) : Memory :=
  if block = 0 ∨ heapBlock.get m block .capacity ≤ usedCapacity then m
  else
    let remaining := heapBlock.get m block .capacity - usedCapacity
    if remaining < heapBlock.size + heapMinSplit then m
    else
      let tail := payload block + usedCapacity
      let m := heapBlock.set m tail .magic heapFreeMagic
      let m := heapBlock.set m tail .capacity (remaining - heapBlock.size)
      let m := heapBlock.set m tail .requested 0
      let m := heapBlock.set m tail .isFree 1
      let m := heapBlock.set m tail .reserved 0
      let m := heapBlock.set m tail .prev block
      let m := heapBlock.set m tail .next (heapBlock.get m block .next)
      let m := if heapBlock.get m tail .next ≠ 0 then
          heapBlock.set m (heapBlock.get m tail .next) .prev tail
        else m
      let m := heapBlock.set m block .next tail
      heapBlock.set m block .capacity usedCapacity

/-! ### The interface of `heap.h` -/

/-- `heap_init`. -/
def heapInit (grow : Option (HeapGrowFn ε)) (s : Heap ε) : HeapStatus × Heap ε :=
  match grow with
  | none => (.badArgument, s)
  | some grow =>
    (.ok, { mem := s.mem, world := s.world, growCallback := some grow, initialised := true })

/-- A failed `kmalloc` counts its failure. -/
def allocationFailed (s : Heap ε) : ℕ × Heap ε :=
  (0, { s with allocationFailures := wrap64 (s.allocationFailures + 1) })

/-- What `kmalloc` writes into the block it hands out: the header, the fill
pattern and the canary. -/
def stampBlock (block size : ℕ) (m : Memory) : Memory :=
  let m := heapBlock.set m block .magic heapAllocMagic
  let m := heapBlock.set m block .requested size
  let m := heapBlock.set m block .isFree 0
  let result := payload block
  let m := Memory.fill m result (heapBlock.get m block .capacity) 0xcd
  Memory.write64 m (result + size) (blockCanary m block)

/-- The second half of `kmalloc`: hand out the block that was found. -/
def takeBlock (block size capacityNeeded : ℕ) (s : Heap ε) : ℕ × Heap ε :=
  (payload block, { s with
    mem := stampBlock block size (splitBlock block capacityNeeded s.mem)
    allocatedPayloadBytes := wrap64 (s.allocatedPayloadBytes + size)
    activeAllocations := wrap64 (s.activeAllocations + 1)
    totalAllocations := wrap64 (s.totalAllocations + 1) })

/-- `kmalloc`. -/
def kmalloc (size : ℕ) (s : Heap ε) : ℕ × Heap ε :=
  if ¬ s.initialised ∨ size = 0 then allocationFailed s
  else if uint64Max - size < heapCanaryBytes then allocationFailed s
  else
    match alignUpSize (size + heapCanaryBytes) heapAlignment with
    | none => allocationFailed s
    | some capacityNeeded =>
      let block := findBlock capacityNeeded s
      if block ≠ 0 then takeBlock block size capacityNeeded s
      else
        let (grown, s) := growHeap capacityNeeded s
        if ¬ grown then allocationFailed s
        else
          let block := findBlock capacityNeeded s
          if block = 0 then allocationFailed s else takeBlock block size capacityNeeded s

/-- `kzalloc`. -/
def kzalloc (size : ℕ) (s : Heap ε) : ℕ × Heap ε :=
  let (memory, s) := kmalloc size s
  if memory = 0 then (0, s) else (memory, { s with mem := Memory.fill s.mem memory size 0 })

/-- What `kfree` writes into the block it takes back: the poison pattern and the
header. -/
def poisonBlock (block : ℕ) (m : Memory) : Memory :=
  let m := Memory.fill m (payload block) (heapBlock.get m block .capacity) 0xdd
  let m := heapBlock.set m block .magic heapFreeMagic
  let m := heapBlock.set m block .requested 0
  heapBlock.set m block .isFree 1

/-- The end of `kfree`: a block that was marked free is merged with its
predecessor and with its successor. -/
def mergeFreed (block : ℕ) (m : Memory) : Memory :=
  let prev := heapBlock.get m block .prev
  if prev ≠ 0 ∧ heapBlock.get m prev .isFree ≠ 0 ∧ blocksAdjacent m prev block then
    mergeWithNext prev (mergeWithNext prev m)
  else mergeWithNext block m

/-- `kfree`. -/
def kfree (pointer : ℕ) (s : Heap ε) : HeapStatus × Heap ε :=
  if ¬ s.initialised then (.notInitialised, s)
  else if pointer = 0 then (.ok, s)
  else if pointer % heapAlignment ≠ 0 then (.invalidPointer, s)
  else
    let block := wrap64 (pointer + 2 ^ 64 - heapBlock.size)
    let field := heapBlock.get s.mem block
    if field .magic = heapFreeMagic ∧ field .isFree ≠ 0 then (.doubleFree, s)
    else if field .magic ≠ heapAllocMagic ∨ field .isFree ≠ 0 ∨ field .requested = 0 ∨
        field .capacity < wrap64 (field .requested + heapCanaryBytes) then (.invalidPointer, s)
    else if Memory.read64 s.mem (payload block + field .requested) ≠ blockCanary s.mem block then
      (.corrupt, s)
    else
      (.ok, { s with
        mem := mergeFreed block (poisonBlock block s.mem)
        allocatedPayloadBytes := wrap64 (s.allocatedPayloadBytes + 2 ^ 64 - field .requested)
        activeAllocations := wrap64 (s.activeAllocations + 2 ^ 64 - 1) })

/-- The loop of `heap_stats`. -/
def freePayloadFrom (m : Memory) : ℕ → ℕ → ℕ → ℕ
  | 0, freePayloadBytes, _ => freePayloadBytes
  | fuel + 1, freePayloadBytes, block =>
    if block = 0 then freePayloadBytes
    else
      freePayloadFrom m fuel
        (if heapBlock.get m block .isFree ≠ 0 then
          wrap64 (freePayloadBytes + heapBlock.get m block .capacity)
        else freePayloadBytes)
        (heapBlock.get m block .next)

/-- `heap_stats`. -/
def heapStats (s : Heap ε) : HeapStats where
  totalRegionBytes := s.totalRegionBytes
  freePayloadBytes := freePayloadFrom s.mem heapWalkFuel 0 s.blocks
  allocatedPayloadBytes := s.allocatedPayloadBytes
  activeAllocations := s.activeAllocations
  totalAllocations := s.totalAllocations
  allocationFailures := s.allocationFailures
  regionCount := s.regionCount

end Heap

end JoshOS
