import Xv6.Disk.Model

/-!
# The driver, the virtqueue and the device

Model of `virtio_disk_rw` and `virtio_disk_intr` in `kernel/virtio_disk.c` with the descriptor table
and the two rings that the driver shares with the device. The request queue and the buffer cache are
those of `Xv6.Disk.Model`, so `bget` may cut the queue at any time.

A step of a process is what it does from the point where it gets `vdisk_lock` to the next `sleep` or
to the end. `virtio_disk_intr` holds the lock over its whole loop, and the device may work between
its iterations. The device takes the chains of the avail ring one by one, and serves each chain that
it has taken once: it follows the descriptors, writes the status 0 where the last one points, and
puts the head into the used ring.

`submitted`, `completed` and `cleared` are histories that the code does not have: the buffers whose
chains were put into the avail ring, whose chains the device has served, and whose `disk` field
`virtio_disk_intr` has cleared.
-/

namespace Xv6.Disk

open Function

/-- The number of descriptors. -/
def NUM : ℕ := 8

/-- What the address in a descriptor points to. -/
inductive Addr where
  | null
  /-- `&disk.ops[i]` -/
  | ops (i : ℕ)
  /-- `b->data` -/
  | data (b : BufId)
  /-- `&disk.info[i].status` -/
  | status (i : ℕ)
deriving DecidableEq

/-- `struct virtq_desc`. The two Booleans are the bits `VRING_DESC_F_NEXT` and
`VRING_DESC_F_WRITE` of `flags`. -/
structure Desc where
  addr : Addr
  len : ℕ
  chained : Bool
  deviceWrites : Bool
  next : ℕ
deriving DecidableEq

/-- `struct virtio_blk_req`: `VIRTIO_BLK_T_OUT` or `VIRTIO_BLK_T_IN`, and the sector. -/
structure BlkReq where
  out : Bool
  sector : ℕ

/-- An entry of `disk.info`. -/
structure Info where
  b : Option BufId
  status : UInt8

/-- `struct disk`, with the descriptor table and the rings that it points to. -/
structure Virtqueue where
  desc : ℕ → Desc
  free : ℕ → Bool
  info : ℕ → Info
  ops : ℕ → BlkReq
  /-- `disk.avail->idx` and `disk.avail->ring` -/
  availIdx : UInt16
  availRing : ℕ → ℕ
  /-- `disk.used->idx` and the `id` fields of `disk.used->ring`, which the device writes. -/
  usedIdx : UInt16
  usedRing : ℕ → ℕ
  /-- `disk.used_idx`: how far the driver has looked. -/
  seenIdx : UInt16
  /-- The processes that sleep on `&disk.free[0]`, by their buffers. -/
  starved : BufId → Bool

/-! ## Descriptors -/

/-- A descriptor that is not in use. -/
def Desc.zero : Desc :=
  { addr := .null, len := 0, chained := false, deviceWrites := false, next := 0 }

namespace Virtqueue

/-- `alloc_desc`; `none` is the result -1. -/
def allocDesc (q : Virtqueue) : Option (ℕ × Virtqueue) :=
  match (List.range NUM).find? q.free with
  | some i => some (i, { q with free := update q.free i false })
  | none => none

/-- `free_desc`. -/
def freeDesc (i : ℕ) (q : Virtqueue) : Except String Virtqueue :=
  if i ≥ NUM then throw "free_desc 1"
  else if q.free i then throw "free_desc 2"
  else
    -- `wakeup(&disk.free[0])` at the end
    pure { q with
      desc := update q.desc i .zero
      free := update q.free i true
      starved := fun _ => false }

/-- `free_chain`. The loop ends within `NUM` iterations, or panics: it frees another descriptor each
time. -/
def freeChain : ℕ → ℕ → Virtqueue → Except String Virtqueue
  | 0, _, _ => throw "free_chain"
  | fuel + 1, i, q => do
    -- `flag` and `nxt` are read before the descriptor is cleared
    let d := q.desc i
    let q ← freeDesc i q
    if d.chained then freeChain fuel d.next q else pure q

/-- `alloc3_desc`; `none` is the result -1. -/
def alloc3Desc (q : Virtqueue) : Except String (Option (ℕ × ℕ × ℕ) × Virtqueue) :=
  match q.allocDesc with
  | none => pure (none, q)
  | some (i0, q) =>
    match q.allocDesc with
    | none => do
      let q ← freeDesc i0 q
      pure (none, q)
    | some (i1, q) =>
      match q.allocDesc with
      | none => do
        let q ← freeDesc i0 q
        let q ← freeDesc i1 q
        pure (none, q)
      | some (i2, q) => pure (some (i0, i1, i2), q)

/-- The part of `virtio_disk_rw` that formats the three descriptors and puts the chain into the
avail ring. -/
def submit (b : BufId) (write : Bool) (blockno i0 i1 i2 : ℕ) (q : Virtqueue) : Virtqueue :=
  let head : Desc :=
    { addr := .ops i0, len := 16, chained := true, deviceWrites := false, next := i1 }
  let data : Desc :=
    { addr := .data b, len := BSIZE, chained := true, deviceWrites := !write, next := i2 }
  let status : Desc :=
    { addr := .status i0, len := 1, chained := false, deviceWrites := true, next := 0 }
  { q with
    ops := update q.ops i0 { out := write, sector := blockno * (BSIZE / 512) % 2 ^ 32 }
    desc := update (update (update q.desc i0 head) i1 data) i2 status
    info := update q.info i0 { b := some b, status := 0xff }
    availRing := update q.availRing (q.availIdx.toNat % NUM) i0
    availIdx := q.availIdx + 1 }

/-- `disk.info[i].b = 0`. -/
def clearInfo (i : ℕ) (q : Virtqueue) : Virtqueue :=
  { q with info := update q.info i { q.info i with b := none } }

end Virtqueue

/-! ## Processes, the device and the interrupt handler -/

/-- The driver and the device. -/
structure Driver where
  cache : DiskState
  virtq : Virtqueue
  /-- `b->disk` -/
  disk : BufId → Bool
  /-- The argument `write` of the call of `virtio_disk_rw` for the buffer. -/
  write : BufId → Bool
  /-- The variable `idx` of that call, from `alloc3_desc` to `free_chain`. -/
  idx : BufId → Option (ℕ × ℕ × ℕ)
  /-- How far the device has looked in the avail ring. -/
  lastAvail : UInt16
  /-- The heads of the chains that the device has taken and not yet served. -/
  inflight : List ℕ
  /-- `virtio_disk_intr` is running. -/
  inIntr : Bool
  submitted : List BufId
  completed : List BufId
  cleared : List BufId

namespace Driver

/-- The beginning of `virtio_disk_rw`. -/
def rw (b : BufId) (p : ℕ) (write : Bool) (s : Driver) : Option Driver :=
  (enqueueRequest b p s.cache).map fun cache =>
    { s with cache, write := update s.write b write }

/-- The process of the request is awake and has come out of the scheduler loop, but has no
descriptors yet. -/
def Chosen (s : Driver) (b : BufId) : Prop :=
  s.cache.pending b = true ∧ s.cache.asleep b = false ∧ s.cache.diskActive = some b ∧
    s.idx b = none ∧ s.virtq.starved b = false
  deriving Decidable

/-- What `virtio_disk_rw` does when its request is the active one: it moves the head position,
allocates descriptors, submits the request and sleeps until it is served. -/
def start (b : BufId) (s : Driver) : Except String Driver := do
  let blockno := (s.cache.buf b).blockno
  let cache := { s.cache with headPosition := blockno }
  match ← s.virtq.alloc3Desc with
  | (none, virtq) =>
    -- `sleep(&disk.free[0], &disk.vdisk_lock)`
    pure { s with cache, virtq := { virtq with starved := update virtq.starved b true } }
  | (some (i0, i1, i2), virtq) =>
    pure { s with
      cache := { cache with asleep := update cache.asleep b true }
      virtq := virtq.submit b (s.write b) blockno i0 i1 i2
      disk := update s.disk b true
      idx := update s.idx b (some (i0, i1, i2))
      submitted := s.submitted ++ [b] }

/-- The rest of `virtio_disk_rw`, from the loop `while(b->disk == 1)` on. `none` if the walk over
the queue does not end. -/
def finish (b : BufId) (i0 : ℕ) (s : Driver) : Option (Except String Driver) :=
  if s.disk b then
    some (.ok { s with cache := { s.cache with asleep := update s.cache.asleep b true } })
  else
    match (s.virtq.clearInfo i0).freeChain (NUM + 1) i0 with
    | .error msg => some (.error msg)
    | .ok virtq =>
      (completeRequest b s.cache).map fun cache =>
        .ok { s with cache, virtq, idx := update s.idx b none }

/-- The device takes the next chain of the avail ring. -/
def fetch (s : Driver) : Option Driver :=
  if s.lastAvail ≠ s.virtq.availIdx then
    some { s with
      inflight := s.inflight ++ [s.virtq.availRing (s.lastAvail.toNat % NUM)]
      lastAvail := s.lastAvail + 1 }
  else none

/-- The buffers that the device reads or writes for the chain with the head `h`. -/
def served (s : Driver) (h : ℕ) : List BufId :=
  match (s.virtq.desc (s.virtq.desc h).next).addr with
  | .data b => [b]
  | _ => []

/-- The device serves a chain that it has taken. -/
def serve (h : ℕ) (s : Driver) : Option Driver :=
  if h ∈ s.inflight then
    let status := s.virtq.desc (s.virtq.desc (s.virtq.desc h).next).next
    some { s with
      virtq := { s.virtq with
        info :=
          match status.addr with
          | .status i => update s.virtq.info i { s.virtq.info i with status := 0 }
          | _ => s.virtq.info
        usedRing := update s.virtq.usedRing (s.virtq.usedIdx.toNat % NUM) h
        usedIdx := s.virtq.usedIdx + 1 }
      inflight := s.inflight.erase h
      completed := s.completed ++ s.served h }
  else none

/-- One iteration of the loop of `virtio_disk_intr`. -/
def intrLoop (s : Driver) : Except String Driver :=
  let id := s.virtq.usedRing (s.virtq.seenIdx.toNat % NUM)
  if (s.virtq.info id).status ≠ 0 then throw "virtio_disk_intr status"
  else
    match (s.virtq.info id).b with
    | none => throw "kerneltrap"
    | some b =>
      -- `b->disk = 0` and `wakeup(b)`
      pure { s with
        cache := { s.cache with asleep := update s.cache.asleep b false }
        virtq := { s.virtq with seenIdx := s.virtq.seenIdx + 1 }
        disk := update s.disk b false
        cleared := s.cleared ++ [b] }

end Driver

/-! ## The system -/

/-- The steps of the buffer cache, the processes, the device and the interrupt handler. -/
inductive DriverOp where
  | bget (dev blockno p : ℕ)
  | acquiresleep (b : BufId)
  | brelse (b : BufId)
  | rw (b : BufId) (p : ℕ) (write : Bool)
  | schedule (b : BufId) (level : ℕ → ℤ)
  | start (b : BufId)
  | finish (b : BufId)
  /-- `kill` wakes the process that sleeps in the call for `b`. -/
  | kill (b : BufId)
  | fetch
  | serve (h : ℕ)
  | intrEnter
  | intrLoop
  | intrExit

namespace Driver

/-- One step; `none` if it is not possible, an error if it panics. -/
def exec (s : Driver) : DriverOp → Option (Except String Driver)
  -- under `bcache.lock` or the sleep-lock of the buffer
  | .bget dev blockno p => (bget dev blockno p s.cache).map fun cache => .ok { s with cache }
  | .acquiresleep b => (acquiresleep b s.cache).map fun cache => .ok { s with cache }
  | .brelse b => (brelse b s.cache).map fun cache => .ok { s with cache }
  -- under `vdisk_lock`
  | .rw b p write => if s.inIntr then none else (s.rw b p write).map .ok
  | .schedule b level =>
    if s.inIntr then none
    else (schedulerLoop b level s.cache).map fun cache => .ok { s with cache }
  | .start b => if s.inIntr = false ∧ s.Chosen b then some (s.start b) else none
  | .finish b =>
    match s.idx b with
    | some (i0, _, _) =>
      if s.inIntr = false ∧ s.cache.asleep b = false then s.finish b i0 else none
    | none => none
  | .kill b =>
    some (.ok { s with
      cache := { s.cache with asleep := update s.cache.asleep b false }
      virtq := { s.virtq with starved := update s.virtq.starved b false } })
  | .fetch => s.fetch.map .ok
  | .serve h => (s.serve h).map .ok
  | .intrEnter => if s.inIntr then none else some (.ok { s with inIntr := true })
  | .intrLoop =>
    if s.inIntr ∧ s.virtq.seenIdx ≠ s.virtq.usedIdx then some s.intrLoop else none
  | .intrExit =>
    if s.inIntr ∧ s.virtq.seenIdx = s.virtq.usedIdx then some (.ok { s with inIntr := false })
    else none

end Driver

/-- The virtqueue after `virtio_disk_init`. -/
def virtioDiskInit : Virtqueue where
  desc _ := .zero
  free _ := true
  info _ := { b := none, status := 0 }
  ops _ := { out := false, sector := 0 }
  availIdx := 0
  availRing _ := 0
  usedIdx := 0
  usedRing _ := 0
  seenIdx := 0
  starved _ := false

/-- The state before the first request. -/
def initDriver (schedPolicy : ℕ) : Driver where
  cache := initState schedPolicy
  virtq := virtioDiskInit
  disk _ := false
  write _ := false
  idx _ := none
  lastAvail := 0
  inflight := []
  inIntr := false
  submitted := []
  completed := []
  cleared := []

/-- The driver and the device under all interleavings. -/
def driverSystem : TransitionSystem Driver DriverOp where
  init s := ∃ schedPolicy, s = initDriver schedPolicy
  step s op s' := s.exec op = some (.ok s')

end Xv6.Disk
