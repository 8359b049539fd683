import Xv6.Foundations.CircularList
import Xv6.Foundations.Transition
import Xv6.VM.State

/-!
# The buffer cache

`kernel/bio.c`, and `log_write` of `kernel/log.c` as far as it concerns buffers. A step is one
section under `bcache.lock`, the taking of a buffer's sleep-lock, or what the holder of a sleep-lock
does with its buffer. A process may hold any number of buffers; while it waits for one, reads one
from the disk, or is in the middle of `brelse`, it takes no other step.

Calls that panic take no step. A transfer between a buffer and the disk (`virtio_disk_rw`) is one
step: the buffer is locked, and the disk has a single device, so that it is addressed by the block
number alone. The state also records what the code does not: how often each buffer is pinned, when
it was last released, whether it was modified since it was last written, and the content last
written for each block.
-/

namespace Xv6.Bcache

open Function

open VM (ProcId)

/-- Device number of the root disk. -/
def ROOTDEV : ℕ := 1

/-- An index into `bcache.buf`. -/
abbrev BufId : Type := Fin NBUF

/-- `struct buf`. -/
structure Buf where
  dev : ℕ := 0
  blockno : ℕ := 0
  valid : Bool := false
  refcnt : ℕ := 0
  data : Block := 0

/-- What a process is doing. -/
inductive Place where
  | idle
  /-- In `bget(dev, blockno)`, before it has the sleep-lock; `read` if `bread` has called it. -/
  | waiting (b : BufId) (dev blockno : ℕ) (read : Bool)
  /-- In `bread(dev, blockno)`, before the block is read. -/
  | reading (b : BufId) (dev blockno : ℕ)
  /-- In `brelse`, after `releasesleep`. -/
  | releasing (b : BufId)
  deriving DecidableEq

/-- The buffer cache, the disk, and the blocks of the log header. -/
structure Cache where
  buf : BufId → Buf
  links : CircularLinks BufId
  /-- The holder of the sleep-lock. -/
  lock : BufId → Option ProcId
  place : ProcId → Place
  disk : ℕ → Block
  /-- `log.lh.block`. -/
  log : List ℕ
  /-- How often a buffer is pinned. -/
  pins : BufId → ℕ
  /-- The number of releases of a buffer to a reference count of `0` so far. -/
  clock : ℕ
  /-- The `clock` after the last such release of the buffer, `0` if there was none. -/
  stamp : BufId → ℕ
  /-- The data were modified since they were last written. -/
  dirty : BufId → Bool
  /-- The content last written by `bwrite` or `log_write`, or else the initial one. -/
  written : ℕ → ℕ → Block

/-- A step of a process. -/
inductive Act where
  /-- The section of `bget`, called by `bread` if `read`. -/
  | bget (dev blockno : ℕ) (read : Bool)
  /-- `acquiresleep` in `bget` gets the lock. -/
  | acquiresleep
  /-- `virtio_disk_rw` in `bread`. -/
  | read
  /-- The holder changes the data. -/
  | modify (b : BufId) (data : Block)
  | bwrite (b : BufId)
  | logWrite (b : BufId)
  | bpin (b : BufId)
  | bunpin (b : BufId)
  /-- `log.lh.n = 0`. -/
  | clearLog
  /-- `releasesleep` in `brelse`. -/
  | brelse (b : BufId)
  /-- The section of `brelse`. -/
  | drop

namespace Cache

/-- Change a buffer. -/
def setBuf (s : Cache) (b : BufId) (x : Buf) : Cache :=
  { s with buf := update s.buf b x }

@[simp]
lemma setBuf_self (s : Cache) (b : BufId) (x : Buf) : (s.setBuf b x).buf b = x :=
  update_self ..

@[simp]
lemma setBuf_of_ne (s : Cache) {b c : BufId} (x : Buf) (h : c ≠ b) :
    (s.setBuf b x).buf c = s.buf c :=
  update_of_ne h ..

/-- The process gets to another place. -/
def goto (s : Cache) (p : ProcId) (pl : Place) : Cache :=
  { s with place := update s.place p pl }

/-- The content of a block is written. -/
def write (s : Cache) (b : BufId) : Cache :=
  { s with
    dirty := update s.dirty b false
    written := update s.written (s.buf b).dev
      (update (s.written (s.buf b).dev) (s.buf b).blockno (s.buf b).data) }

/-- The first loop of `bget`. -/
def findCached (s : Cache) (dev blockno : ℕ) : Option BufId :=
  CircularLinks.scan s.links.next (fun b => (s.buf b).dev = dev ∧ (s.buf b).blockno = blockno)
    (NBUF + 1) (s.links.next none)

/-- The second loop of `bget`. -/
def findUnused (s : Cache) : Option BufId :=
  CircularLinks.scan s.links.prev (fun b => (s.buf b).refcnt = 0) (NBUF + 1) (s.links.prev none)

/-- The section of `bget`; `none` if it panics. -/
def bget (s : Cache) (dev blockno : ℕ) : Option (BufId × Cache) :=
  match s.findCached dev blockno with
  | some b => some (b, s.setBuf b { s.buf b with refcnt := (s.buf b).refcnt + 1 })
  | none =>
    match s.findUnused with
    | some b =>
      -- recycle the buffer
      some (b, s.setBuf b { s.buf b with
        dev := dev, blockno := blockno, valid := false, refcnt := 1 })
    | none => none

/-- `bpin`. -/
def bpin (s : Cache) (b : BufId) : Cache :=
  { s.setBuf b { s.buf b with refcnt := (s.buf b).refcnt + 1 } with
    pins := update s.pins b (s.pins b + 1) }

/-- `bunpin`. -/
def bunpin (s : Cache) (b : BufId) : Cache :=
  { s.setBuf b { s.buf b with refcnt := (s.buf b).refcnt - 1 } with
    pins := update s.pins b (s.pins b - 1) }

/-- `log_write`. -/
def logWrite (s : Cache) (b : BufId) : Cache :=
  -- log absorption
  if (s.buf b).blockno ∈ s.log then s.write b
  else { (s.bpin b).write b with log := s.log ++ [(s.buf b).blockno] }

/-- The section of `brelse`. -/
def drop (s : Cache) (b : BufId) : Cache :=
  let s := s.setBuf b { s.buf b with refcnt := (s.buf b).refcnt - 1 }
  if (s.buf b).refcnt = 0 then
    { s with
      links := (s.links.unlink b).pushFront b
      clock := s.clock + 1
      stamp := update s.stamp b (s.clock + 1) }
  else s

/-- A step of the process `p`, if it can be taken. -/
def exec (s : Cache) (p : ProcId) : Act → Option Cache
  | .bget dev blockno read =>
    if s.place p = .idle then
      (s.bget dev blockno).map fun (b, s) => s.goto p (.waiting b dev blockno read)
    else none
  | .acquiresleep =>
    match s.place p with
    | .waiting b dev blockno read =>
      if s.lock b = none then
        -- `bread` reads the block if the buffer does not have it
        let pl := if read ∧ (s.buf b).valid = false then .reading b dev blockno else .idle
        some { s.goto p pl with lock := update s.lock b (some p) }
      else none
    | _ => none
  | .read =>
    match s.place p with
    | .reading b _ _ =>
      let data := s.disk (s.buf b).blockno
      some ((s.setBuf b { s.buf b with data := data, valid := true }).goto p .idle)
    | _ => none
  | .modify b data =>
    if s.place p = .idle ∧ s.lock b = some p then
      some { s.setBuf b { s.buf b with data := data } with
        dirty := update s.dirty b true }
    else none
  | .bwrite b =>
    if s.place p = .idle ∧ s.lock b = some p then
      some { s.write b with
        disk := update s.disk (s.buf b).blockno (s.buf b).data }
    else none
  | .logWrite b =>
    if s.place p = .idle ∧ s.lock b = some p ∧ s.log.length < LOGBLOCKS then some (s.logWrite b)
    else none
  | .bpin b => if s.place p = .idle ∧ s.lock b = some p then some (s.bpin b) else none
  | .bunpin b => if s.place p = .idle ∧ 0 < s.pins b then some (s.bunpin b) else none
  | .clearLog => if s.place p = .idle then some { s with log := [] } else none
  | .brelse b =>
    if s.place p = .idle ∧ s.lock b = some p then
      some { s.goto p (.releasing b) with lock := update s.lock b none }
    else none
  | .drop =>
    match s.place p with
    | .releasing b => some ((s.drop b).goto p .idle)
    | _ => none

end Cache

/-- The links after `binit`. -/
def binit : CircularLinks BufId :=
  (List.finRange NBUF).foldl (fun L b => L.pushFront b) .empty

/-- The runs of the buffer cache. -/
def cacheSystem : TransitionSystem Cache (ProcId × Act) where
  init s := (∀ b, (s.buf b).dev = 0 ∧ (s.buf b).valid = false ∧ (s.buf b).refcnt = 0) ∧
    s.links = binit ∧ (∀ b, s.lock b = none) ∧ (∀ p, s.place p = .idle) ∧ (∀ b, s.pins b = 0) ∧
    s.clock = 0 ∧ (∀ b, s.stamp b = 0) ∧ (∀ b, s.dirty b = false) ∧ s.log = [] ∧
    ∀ dev, s.written dev = s.disk
  step s l s' := s.exec l.1 l.2 = some s'

end Xv6.Bcache
