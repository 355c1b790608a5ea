import JoshOS.Lib.Words

/-!
Block devices and their cache: the requests of `block.c` and all of `block_cache.c`.

A driver is a pair of functions on the state `ω` of the world behind the devices, which
is arbitrary: a driver may fail at any time and leave anything in the buffer it was
given.  A device pointer is an element of a type `δ`; `none` is the null pointer.
-/

namespace JoshOS

open Words

/-- `BLOCK_CACHE_ENTRIES`. -/
def blockCacheEntries : ℕ := 8

/-- `BLOCK_CACHE_MAX_SECTOR`. -/
def blockCacheMaxSector : ℕ := 4096

/-- `block_status_t`. -/
inductive BlockStatus where
  | ok | badArgument | outOfRange | ioError | readOnly | registryFull
  deriving DecidableEq, Repr

/-- The bytes behind a pointer. -/
abbrev Buffer := ℕ → UInt8

/-- `block_read_fn`: the world, the first sector, the number of sectors and the buffer;
the buffer may change also when the call fails. -/
abbrev BlockReadFn (ω : Type) := ω → ℕ → ℕ → Buffer → BlockStatus × Buffer × ω

/-- `block_write_fn`. -/
abbrev BlockWriteFn (ω : Type) := ω → ℕ → ℕ → Buffer → BlockStatus × ω

/-- `block_flush_fn`. -/
abbrev BlockFlushFn (ω : Type) := ω → BlockStatus × ω

/-- `block_device_t`; the context is part of the functions. -/
structure BlockDevice (ω : Type) where
  sectorSize : ℕ
  sectorCount : ℕ
  writable : Bool
  read : Option (BlockReadFn ω)
  write : Option (BlockWriteFn ω)
  flush : Option (BlockFlushFn ω)

namespace Block

variable {ω δ : Type}

/-! ### Requests -/

/-- `request_in_range`, for a device that is there. -/
def requestInRange (device : BlockDevice ω) (lba count : ℕ) : Bool :=
  if count = 0 then false
  else if device.sectorCount ≤ lba then false
  else count ≤ device.sectorCount - lba

/-- `block_read`, with the buffer as the call leaves it. -/
def blockRead (device : Option (BlockDevice ω)) (lba count : ℕ) (buffer : Option Buffer) (w : ω) :
    BlockStatus × Option Buffer × ω :=
  match buffer, device with
  | some bytes, some device =>
    match device.read with
    | none => (.badArgument, buffer, w)
    | some read =>
      if requestInRange device lba count = false then (.outOfRange, buffer, w)
      else
        let (status, bytes, w) := read w lba count bytes
        (status, some bytes, w)
  | _, _ => (.badArgument, buffer, w)

/-- `block_write`. -/
def blockWrite (device : Option (BlockDevice ω)) (lba count : ℕ) (buffer : Option Buffer) (w : ω) :
    BlockStatus × ω :=
  match buffer, device with
  | some bytes, some device =>
    match device.writable, device.write with
    | true, some write =>
      if requestInRange device lba count = false then (.outOfRange, w)
      else write w lba count bytes
    | _, _ => (.readOnly, w)
  | _, _ => (.badArgument, w)

/-- `block_flush`. -/
def blockFlush (device : Option (BlockDevice ω)) (w : ω) : BlockStatus × ω :=
  match device with
  | none => (.badArgument, w)
  | some device =>
    match device.flush with
    | none => (.ok, w)
    | some flush => flush w

end Block

/-! ### The cache -/

/-- `block_cache_entry_t`. -/
structure BlockCacheEntry (δ : Type) where
  valid : Bool
  device : δ
  lba : ℕ
  age : ℕ
  data : Buffer

/-- `block_cache_t`. -/
structure BlockCache (δ : Type) where
  clock : ℕ
  hits : ℕ
  misses : ℕ
  entries : Fin blockCacheEntries → BlockCacheEntry δ

/-- A cache and the world behind its devices. -/
structure Storage (δ ω : Type) where
  cache : BlockCache δ
  world : ω

namespace Block

variable {ω δ : Type} [DecidableEq δ]

/-- `copy_bytes`, as the new contents of `destination`. -/
def copyBytes (destination source : Buffer) (length : ℕ) : Buffer :=
  fun i => if i < length then source i else destination i

/-- `block_cache_init`. -/
def blockCacheInit (cache : BlockCache δ) : BlockCache δ where
  clock := 0
  hits := 0
  misses := 0
  entries := fun i => { cache.entries i with valid := false }

/-- `find_entry`. -/
def findEntry (cache : BlockCache δ) (device : δ) (lba : ℕ) : Option (Fin blockCacheEntries) :=
  (List.finRange blockCacheEntries).find? fun i =>
    (cache.entries i).valid ∧ (cache.entries i).device = device ∧ (cache.entries i).lba = lba

/-- The loop of `victim_entry`. -/
def victimFrom (cache : BlockCache δ) (victim : Fin blockCacheEntries) (oldest : ℕ) :
    List (Fin blockCacheEntries) → Fin blockCacheEntries
  | [] => victim
  | i :: is =>
    if (cache.entries i).valid = false then i
    else if (cache.entries i).age < oldest then victimFrom cache i (cache.entries i).age is
    else victimFrom cache victim oldest is

/-- `victim_entry`. -/
def victimEntry (cache : BlockCache δ) : Fin blockCacheEntries :=
  victimFrom cache ⟨0, by decide⟩ uint64Max (List.finRange blockCacheEntries)

/-- An entry filled for a sector and stamped with the next tick of the clock. -/
def fillEntry (cache : BlockCache δ) (i : Fin blockCacheEntries) (device : δ) (lba : ℕ)
    (data : Buffer) : BlockCache δ :=
  let clock := wrap64 (cache.clock + 1)
  { cache with
    clock := clock
    entries := Function.update cache.entries i ⟨true, device, lba, clock, data⟩ }

/-- `block_cache_read`, with `sector_out` as the call leaves it. -/
def blockCacheRead (devices : δ → BlockDevice ω) (device : Option δ) (lba : ℕ)
    (sectorOut : Option Buffer) (s : Storage δ ω) : BlockStatus × Option Buffer × Storage δ ω :=
  match device, sectorOut with
  | some d, some out =>
    let size := (devices d).sectorSize
    if size = 0 ∨ blockCacheMaxSector < size then (.badArgument, sectorOut, s)
    else
      match findEntry s.cache d lba with
      | some i =>
        let clock := wrap64 (s.cache.clock + 1)
        let entry := s.cache.entries i
        (.ok, some (copyBytes out entry.data size),
          { s with cache := { s.cache with
            clock := clock
            hits := wrap64 (s.cache.hits + 1)
            entries := Function.update s.cache.entries i { entry with age := clock } } })
      | none =>
        let i := victimEntry s.cache
        let entry := s.cache.entries i
        match blockRead (some (devices d)) lba 1 (some entry.data) s.world with
        | (.ok, data, world) =>
          let data := data.getD entry.data
          (.ok, some (copyBytes out data size),
            { world := world
              cache := { fillEntry s.cache i d lba data with
                misses := wrap64 (s.cache.misses + 1) } })
        | (status, data, world) =>
          (status, sectorOut,
            { world := world
              cache := { s.cache with
                entries := Function.update s.cache.entries i
                  { entry with data := data.getD entry.data } } })
  | _, _ => (.badArgument, sectorOut, s)

/-- `block_cache_write`. -/
def blockCacheWrite (devices : δ → BlockDevice ω) (device : Option δ) (lba : ℕ)
    (sector : Option Buffer) (s : Storage δ ω) : BlockStatus × Storage δ ω :=
  match device, sector with
  | some d, some data =>
    let size := (devices d).sectorSize
    if size = 0 ∨ blockCacheMaxSector < size then (.badArgument, s)
    else
      match blockWrite (some (devices d)) lba 1 sector s.world with
      | (.ok, world) =>
        let i := (findEntry s.cache d lba).getD (victimEntry s.cache)
        (.ok, { world := world
                cache := fillEntry s.cache i d lba
                  (copyBytes (s.cache.entries i).data data size) })
      | (status, world) => (status, { s with world := world })
  | _, _ => (.badArgument, s)

/-- `block_cache_flush`. -/
def blockCacheFlush (devices : δ → BlockDevice ω) (device : Option δ) (s : Storage δ ω) :
    BlockStatus × Storage δ ω :=
  match device with
  | none => (.badArgument, s)
  | some d =>
    let (status, world) := blockFlush (some (devices d)) s.world
    (status, { s with world := world })

/-- `block_cache_invalidate`; without a device every entry goes. -/
def blockCacheInvalidate (device : Option δ) (s : Storage δ ω) : Storage δ ω :=
  { s with cache := { s.cache with
      entries := fun i =>
        let entry := s.cache.entries i
        if device.elim true fun d => entry.device = d then { entry with valid := false }
        else entry } }

end Block

end JoshOS
