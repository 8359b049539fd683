import Xv6.Param
import Xv6.Foundations.LinkedQueue
import Xv6.Foundations.Transition

/-!
# Buffers and the disk request queue

Model of `bget` and `brelse` in `kernel/bio.c` and of the request queue of `virtio_disk_rw` in
`kernel/virtio_disk.c`. The queue is linked through `qnext`, a field of the shared `struct buf`:
`virtio_disk_rw` changes it under `vdisk_lock`, `bget` clears it under `bcache.lock`.

Each operation is what a process does while it holds one of the two locks. A process that finds
another request active, or that has chosen one, sleeps on its own buffer. `pending` marks the
buffers whose `virtio_disk_rw` call has enqueued them and has not completed; the code has no such
field.
-/

namespace Xv6.Disk

open LinkedQueue Function

/-- An index into `bcache.buf`. -/
abbrev BufId := Fin NBUF

/-- The fields of `struct buf` that the cache and the queue use. -/
structure Buf where
  dev : ℕ
  blockno : ℕ
  refcnt : ℕ
  /-- The process that initiated the request, by its index. -/
  p : Option ℕ
  qnext : Option BufId
  /-- The sleep-lock is held. -/
  locked : Bool

/-- The buffer cache and the request queue. -/
structure DiskState where
  buf : BufId → Buf
  /-- The cache list from `head.next` on, most recently used first. -/
  lru : List BufId
  diskQueue : Option BufId
  diskActive : Option BufId
  /-- `disk_head_position`. -/
  headPosition : ℕ
  /-- `disk_sched_policy`. -/
  schedPolicy : ℕ
  /-- The number of processes that wait in `acquiresleep` for the buffer. -/
  waiting : BufId → ℕ
  /-- The `virtio_disk_rw` call for the buffer has enqueued it and has not completed. -/
  pending : BufId → Bool
  /-- The process in `virtio_disk_rw` sleeps on the buffer. -/
  asleep : BufId → Bool

namespace DiskState

/-- The links of the queue. -/
def links (s : DiskState) : BufId → Option BufId := fun b => (s.buf b).qnext

/-- Replace the links of the queue. -/
def setLinks (s : DiskState) (links : BufId → Option BufId) : DiskState :=
  { s with buf := fun b => { s.buf b with qnext := links b } }

/-- Change one buffer. -/
def setBuf (s : DiskState) (b : BufId) (v : Buf) : DiskState :=
  { s with buf := update s.buf b v }

end DiskState

/-! ## The buffer cache -/

/-- The first loop of `bget`: the cached buffer of a block. -/
def findCached (s : DiskState) (dev blockno : ℕ) : Option BufId :=
  s.lru.find? fun b => (s.buf b).dev = dev ∧ (s.buf b).blockno = blockno

/-- The second loop of `bget`: the least recently used buffer without a reference. -/
def findUnused (s : DiskState) : Option BufId :=
  s.lru.reverse.find? fun b => (s.buf b).refcnt = 0

/-- The part of `bget` under `bcache.lock`, called by process `p`, which then waits for the
sleep-lock. `none` is the panic "bget: no buffers". -/
def bget (dev blockno p : ℕ) (s : DiskState) : Option DiskState :=
  match findCached s dev blockno with
  | some b =>
    let buf := s.buf b
    some { s.setBuf b { buf with refcnt := buf.refcnt + 1, p := some p, qnext := none } with
      waiting := update s.waiting b (s.waiting b + 1) }
  | none =>
    match findUnused s with
    | some b =>
      some { s.setBuf b { s.buf b with dev, blockno, refcnt := 1, p := some p, qnext := none } with
        waiting := update s.waiting b (s.waiting b + 1) }
    | none => none

/-- A process that waits in `acquiresleep` gets the sleep-lock. -/
def acquiresleep (b : BufId) (s : DiskState) : Option DiskState :=
  if 0 < s.waiting b ∧ (s.buf b).locked = false then
    some { s.setBuf b { s.buf b with locked := true } with
      waiting := update s.waiting b (s.waiting b - 1) }
  else none

/-- `brelse`, called by the holder of the sleep-lock when it is not inside `virtio_disk_rw`. -/
def brelse (b : BufId) (s : DiskState) : Option DiskState :=
  if (s.buf b).locked = true ∧ s.pending b = false then
    let refcnt := (s.buf b).refcnt - 1
    some { s.setBuf b { s.buf b with locked := false, refcnt := refcnt } with
      lru := if refcnt = 0 then b :: s.lru.erase b else s.lru }
  else none

/-! ## The request queue -/

/-- The start of `virtio_disk_rw`: process `p` enqueues the buffer, whose sleep-lock it holds. -/
def enqueueRequest (b : BufId) (p : ℕ) (s : DiskState) : Option DiskState :=
  if (s.buf b).locked = true ∧ s.pending b = false then
    let s := s.setBuf b { s.buf b with p := some p }
    (enqueue (NBUF + 1) b s.diskQueue s.links).map fun (head, links) =>
      { s.setLinks links with
        diskQueue := head
        pending := update s.pending b true
        asleep := update s.asleep b false }
  else none

/-- The first loop of the selection: the best level of a requesting process and whether there is
one. -/
def bestLevel (s : DiskState) (level : ℕ → ℤ) (queue : List BufId) : ℤ × Bool :=
  queue.foldl (fun (best, found) b =>
    match (s.buf b).p with
    | some p => if level p < best then (level p, true) else (best, found)
    | none => (best, found)) (0x7fffffff, false)

/-- `|blockno - disk_head_position|`. -/
def distance (s : DiskState) (b : BufId) : ℕ :=
  if (s.buf b).blockno > s.headPosition then (s.buf b).blockno - s.headPosition
  else s.headPosition - (s.buf b).blockno

/-- The second loop of the selection: the first buffer of the best level, or the nearest one. -/
def chooseLoop (s : DiskState) (level : ℕ → ℤ) (best : ℤ) (found : Bool) :
    List BufId → BufId → ℕ → BufId
  | [], chosen, _ => chosen
  | curr :: rest, chosen, minDist =>
    if !found ∨ ((s.buf curr).p.map level = some best) then
      if s.schedPolicy = 0 then curr
      else if distance s curr < minDist then
        chooseLoop s level best found rest curr (distance s curr)
      else chooseLoop s level best found rest chosen minDist
    else chooseLoop s level best found rest chosen minDist

/-- The selection: the request that becomes active, where `head` is `disk_queue`. -/
def choose (s : DiskState) (level : ℕ → ℤ) (head : BufId) (queue : List BufId) : BufId :=
  let (best, found) := bestLevel s level queue
  chooseLoop s level best found queue head 0xFFFFFFFF

/-- One iteration of the scheduler loop, run by the process that waits for `b`: if no request is
active it chooses one and wakes its process; unless the choice is `b` itself it goes to sleep. -/
def schedulerLoop (b : BufId) (level : ℕ → ℤ) (s : DiskState) : Option DiskState :=
  if s.pending b = true ∧ s.asleep b = false ∧ s.diskActive ≠ some b then
    match s.diskActive, s.diskQueue with
    | none, some head =>
      (collect s.links (NBUF + 1) (some head)).map fun queue =>
        let chosen := choose s level head queue
        { s with
          diskActive := some chosen
          asleep :=
            if chosen = b then s.asleep
            else update (update s.asleep chosen false) b true }
    | _, _ => some { s with asleep := update s.asleep b true }
  else none

/-- The end of `virtio_disk_rw` when the active request has been served: dequeue it and wake every
process that is still queued. The head position has moved to the block when it became active. -/
def completeRequest (b : BufId) (s : DiskState) : Option DiskState :=
  if s.diskActive = some b ∧ s.pending b = true then
    (dequeue (NBUF + 1) b s.diskQueue s.links).bind fun (head, links) =>
      (collect links (NBUF + 1) head).map fun queue =>
        { s.setLinks links with
          diskQueue := head
          diskActive := none
          headPosition := (s.buf b).blockno
          pending := update s.pending b false
          asleep := fun w => if w ∈ queue then false else s.asleep w }
  else none

/-! ## The system -/

/-- The operations. Levels change with the process scheduler, so a run of the selection loop comes
with the levels it sees. -/
inductive DiskOp where
  | bget (dev blockno p : ℕ)
  | acquiresleep (b : BufId)
  | brelse (b : BufId)
  | enqueue (b : BufId) (p : ℕ)
  | schedule (b : BufId) (level : ℕ → ℤ)
  | complete (b : BufId)

/-- One operation; `none` if it is not possible or does not return. -/
def exec (s : DiskState) : DiskOp → Option DiskState
  | .bget dev blockno p => bget dev blockno p s
  | .acquiresleep b => acquiresleep b s
  | .brelse b => brelse b s
  | .enqueue b p => enqueueRequest b p s
  | .schedule b level => schedulerLoop b level s
  | .complete b => completeRequest b s

/-- The state after `binit`, which links the buffers in front of each other. -/
def initState (schedPolicy : ℕ) : DiskState where
  buf _ := { dev := 0, blockno := 0, refcnt := 0, p := none, qnext := none, locked := false }
  lru := (List.finRange NBUF).reverse
  diskQueue := none
  diskActive := none
  headPosition := 0
  schedPolicy := schedPolicy
  waiting _ := 0
  pending _ := false
  asleep _ := false

/-- The buffer cache and the disk queue under all interleavings of the operations. -/
def diskSystem : TransitionSystem DiskState DiskOp where
  init s := ∃ schedPolicy, s = initState schedPolicy
  step s op s' := exec s op = some s'

end Xv6.Disk
