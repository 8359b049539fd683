import Xv6.Bcache.Coherence
import Xv6.Raid.Model

/-!
# Page transfers and the size of the buffer cache

`raid_write_page` and `raid_read_page` take buffers from the cache that the file system and the log
use too. `Transfer.ops` lists what such a call does with buffers, and `loadSystem` runs any number
of calls beside the other users of the cache, in any order. A transfer holds up to two buffers while
it waits for another buffer or for the disk. Nothing limits the transfers, so that `bget` can find
all buffers in use (`swap_io_exhausts`).

It always finds a buffer if room is reserved, as `begin_op` does it for the log: a transfer begins
only if the references to buffers and what the transfers may still take leave `Transfer.width`
buffers (`bget_finds_buffer`).
-/

namespace Xv6.Bcache

open Function List Option Nat

open VM (ProcId)
open Raid (RaidMode diskBlock stripeOffset dataDisk parityDisk)

/-! ## What a transfer does with buffers -/

/-- A call of `kernel/bio.c`, with the number of the block. -/
inductive BufOp where
  /-- `bget`, called by `bread` if `read`. -/
  | bget (blockno : ℕ) (read : Bool)
  | bwrite (blockno : ℕ)
  | brelse (blockno : ℕ)
  deriving DecidableEq

/-- A block is overwritten. -/
def overwrite (b : ℕ) : List BufOp := [.bget b false, .bwrite b, .brelse b]

/-- A block is read. -/
def fetch (b : ℕ) : List BufOp := [.bget b true, .brelse b]

/-- Modes 1 and 10 of `raid_write_page`. -/
def writeMirroredOps (pair offset : ℕ) (diskFailed : ℤ) : List BufOp :=
  let diskA := 2 * pair
  let diskB := 2 * pair + 1
  (if (diskA : ℤ) ≠ diskFailed then overwrite (diskBlock diskA offset) else []) ++
    if (diskB : ℤ) ≠ diskFailed then overwrite (diskBlock diskB offset) else []

/-- Mode 5 of `raid_write_page`. -/
def writeParityOps (logicalBlock : ℕ) (diskFailed : ℤ) : List BufOp :=
  let offset := stripeOffset logicalBlock
  let dataBlock := diskBlock (dataDisk logicalBlock) offset
  let parityBlock := diskBlock (parityDisk offset) offset
  if diskFailed = dataDisk logicalBlock then
    let others := (List.range NUM_DISKS).filter fun (d : ℕ) =>
      ¬((d : ℤ) = diskFailed ∨ d = parityDisk offset)
    -- the buffer of the parity block stays locked during the loop
    .bget parityBlock true :: (others.flatMap (fun d => fetch (diskBlock d offset)) ++
      [.bwrite parityBlock, .brelse parityBlock])
  else if diskFailed = parityDisk offset then
    [.bget dataBlock true, .bwrite dataBlock, .brelse dataBlock]
  else
    (if dataBlock < parityBlock then [.bget dataBlock true, .bget parityBlock true]
      else [.bget parityBlock true, .bget dataBlock true]) ++
    [.bwrite dataBlock, .bwrite parityBlock, .brelse dataBlock, .brelse parityBlock]

/-- One iteration of the loop of `raid_write_page`. -/
def writeBlockOps (mode : RaidMode) (diskFailed : ℤ) (logicalBlock : ℕ) : List BufOp :=
  match mode with
  | .striping =>
    let disk := logicalBlock % NUM_DISKS
    if (disk : ℤ) ≠ diskFailed then overwrite (diskBlock disk (logicalBlock / NUM_DISKS)) else []
  | .mirroring => writeMirroredOps (logicalBlock % 2) (logicalBlock / 2) diskFailed
  | .mirroredStriping =>
    writeMirroredOps (logicalBlock % (NUM_DISKS / 2)) (logicalBlock / (NUM_DISKS / 2)) diskFailed
  | .parity => writeParityOps logicalBlock diskFailed

/-- Modes 1 and 10 of `raid_read_page`. -/
def readMirroredOps (pair offset : ℕ) (diskFailed : ℤ) : List BufOp :=
  let diskA := 2 * pair
  let diskB := 2 * pair + 1
  fetch (if diskFailed = diskA then diskBlock diskB offset else diskBlock diskA offset)

/-- Mode 5 of `raid_read_page`. -/
def readParityOps (logicalBlock : ℕ) (diskFailed : ℤ) : List BufOp :=
  let offset := stripeOffset logicalBlock
  if (dataDisk logicalBlock : ℤ) ≠ diskFailed then
    fetch (diskBlock (dataDisk logicalBlock) offset)
  else
    let others := (List.range NUM_DISKS).filter fun (d : ℕ) => ¬((d : ℤ) = diskFailed)
    others.flatMap fun d => fetch (diskBlock d offset)

/-- One iteration of the loop of `raid_read_page`. -/
def readBlockOps (mode : RaidMode) (diskFailed : ℤ) (logicalBlock : ℕ) : List BufOp :=
  match mode with
  | .striping =>
    let disk := logicalBlock % NUM_DISKS
    if (disk : ℤ) ≠ diskFailed then fetch (diskBlock disk (logicalBlock / NUM_DISKS)) else []
  | .mirroring => readMirroredOps (logicalBlock % 2) (logicalBlock / 2) diskFailed
  | .mirroredStriping =>
    readMirroredOps (logicalBlock % (NUM_DISKS / 2)) (logicalBlock / (NUM_DISKS / 2)) diskFailed
  | .parity => readParityOps logicalBlock diskFailed

/-- The block that a call reads from the disk or writes to it. -/
def BufOp.touches : BufOp → Option ℕ
  | .bget b true | .bwrite b => some b
  | _ => none

lemma touches_fetches (disks : List ℕ) (offset : ℕ) :
    (disks.flatMap fun d => fetch (diskBlock d offset)).filterMap BufOp.touches =
      disks.map (diskBlock · offset) := by
  induction disks with
  | nil => rfl
  | cons d disks ih =>
    rw [flatMap_cons, filterMap_append, ih]
    rfl

/-- The calls touch the blocks that the sequential model touches, in the same order. -/
theorem writeBlock_touched (mode : RaidMode) (diskFailed : ℤ) (lb : ℕ) (c : Block)
    (s : Raid.SwapDisk) : (Raid.writeBlock mode diskFailed lb c s).touched =
      s.touched ++ (writeBlockOps mode diskFailed lb).filterMap BufOp.touches := by
  cases mode with
  | striping =>
    simp only [Raid.writeBlock, writeBlockOps]
    split_ifs <;> simp [overwrite, BufOp.touches, filterMap_cons]
  | mirroring | mirroredStriping =>
    simp only [Raid.writeBlock, Raid.writeMirrored, writeBlockOps, writeMirroredOps]
    split_ifs <;> simp [overwrite, BufOp.touches, filterMap_cons]
  | parity =>
    simp only [Raid.writeBlock, Raid.writeParity, writeBlockOps, writeParityOps]
    split_ifs
    · simp [Raid.xorOthers_eq, touches_fetches, BufOp.touches, filterMap_cons]
    all_goals simp [BufOp.touches, filterMap_cons]

@[inherit_doc writeBlock_touched]
lemma readBlock_touched (mode : RaidMode) (diskFailed : ℤ) (lb : ℕ) (s : Raid.SwapDisk) :
    (Raid.readBlock mode diskFailed lb s).2.touched =
      s.touched ++ (readBlockOps mode diskFailed lb).filterMap BufOp.touches := by
  cases mode with
  | striping =>
    simp only [Raid.readBlock, readBlockOps]
    split_ifs <;> simp [fetch, BufOp.touches, filterMap_cons]
  | mirroring | mirroredStriping =>
    simp [Raid.readBlock, Raid.readMirrored, readBlockOps, readMirroredOps, fetch, BufOp.touches,
      filterMap_cons]
  | parity =>
    simp only [Raid.readBlock, Raid.readParity, readBlockOps, readParityOps]
    split_ifs
    · simp [fetch, BufOp.touches, filterMap_cons]
    · simp [Raid.xorOthers_eq, touches_fetches]

/-- A call of `raid_write_page` or `raid_read_page`. -/
inductive Transfer where
  | write (swapSlot : ℕ) (mode : RaidMode) (diskFailed : ℤ)
  | read (swapSlot : ℕ) (mode : RaidMode) (diskFailed : ℤ)

namespace Transfer

/-- One iteration of the loop. -/
def blockOps (lb : ℕ) : Transfer → List BufOp
  | .write _ mode diskFailed => writeBlockOps mode diskFailed lb
  | .read _ mode diskFailed => readBlockOps mode diskFailed lb

/-- The slot of the page. -/
def slot : Transfer → ℕ
  | .write swapSlot _ _ | .read swapSlot _ _ => swapSlot

/-- What the call does with buffers. -/
def ops (t : Transfer) : List BufOp :=
  (List.range SWAP_BLOCKS_PER_PAGE).flatMap fun i => t.blockOps (t.slot * 4 + i)

/-- The number of buffers that the call references at most at a time. -/
def width : Transfer → ℕ
  | .write _ .parity _ => 2
  | _ => 1

end Transfer

/-! ## Runs -/

/-- The buffer cache, and what the transfers of the processes still have to do. -/
structure Load where
  cache : Cache
  todo : ProcId → List BufOp

/-- A step of a process. -/
inductive LoadAct where
  /-- Call `raid_write_page` or `raid_read_page`. -/
  | transfer (t : Transfer)
  /-- The next step of the transfer. -/
  | io
  /-- A step outside of transfers, of the file system or the log. -/
  | other (a : Act)

namespace Load

/-- The transfer goes on with `l`. -/
def resume (s : Load) (p : ProcId) (l : List BufOp) (c : Cache) : Load where
  cache := c
  todo := update s.todo p l

/-- The next step of the transfer of `p`. The buffer that `bget` returned is the one that has the
block as long as it is referenced. -/
def io (s : Load) (p : ProcId) : Option Load :=
  match s.cache.place p with
  | .waiting .. => (s.cache.exec p .acquiresleep).map (s.resume p (s.todo p))
  | .reading .. => (s.cache.exec p .read).map (s.resume p (s.todo p))
  | .releasing _ => (s.cache.exec p .drop).map (s.resume p (s.todo p))
  | .idle =>
    match s.todo p with
    | [] => none
    | .bget b read :: l => (s.cache.exec p (.bget ROOTDEV b read)).map (s.resume p l)
    | .bwrite b :: l => do
      let c ← s.cache.exec p (.bwrite (← s.cache.findCached ROOTDEV b))
      s.resume p l c
    | .brelse b :: l => do
      let c ← s.cache.exec p (.brelse (← s.cache.findCached ROOTDEV b))
      s.resume p l c

/-- A step of the process `p`, if it can be taken. -/
def exec (s : Load) (p : ProcId) : LoadAct → Option Load
  | .transfer t =>
    if (s.todo p).isEmpty ∧ s.cache.place p = .idle then some (s.resume p t.ops s.cache) else none
  | .io => s.io p
  | .other a => if (s.todo p).isEmpty then (s.cache.exec p a).map (s.resume p []) else none

/-- The step of the process `p` is a call of `bget` that panics with `bget: no buffers`. -/
def NoBuffers (s : Load) (p : ProcId) : LoadAct → Prop
  | .transfer _ => False
  | .io => s.cache.place p = .idle ∧
    ∃ b read l, s.todo p = .bget b read :: l ∧ s.cache.bget ROOTDEV b = none
  | .other a => s.cache.place p = .idle ∧ (s.todo p).isEmpty ∧
    ∃ dev blockno read, a = .bget dev blockno read ∧ s.cache.bget dev blockno = none

end Load

/-- The runs of the buffer cache with page transfers. -/
def loadSystem : TransitionSystem Load (ProcId × LoadAct) where
  init s := cacheSystem.init s.cache ∧ ∀ p, s.todo p = []
  step s l s' := s.exec l.1 l.2 = some s'

/-! ## Room for transfers -/

/-- The number of references to buffers. -/
def Cache.refs (s : Cache) : ℕ := ∑ b, (s.buf b).refcnt

/-- The references that a step takes. -/
def Act.takes : Act → ℕ
  | .bget .. | .bpin _ | .logWrite _ => 1
  | _ => 0

/-- The buffers that a call and those behind it take beyond what is held, if those behind it take
`n`. -/
def BufOp.demand : BufOp → ℕ → ℕ
  | .bget .., n => n + 1
  | .bwrite _, n => n
  | .brelse _, n => n - 1

/-- The buffers that calls take at a time, beyond what is held in front of them. -/
def demand (l : List BufOp) : ℕ := l.foldr BufOp.demand 0

namespace Load

/-- The buffers that the transfer of a process may still take. One that is being released counts as
released. -/
def reserved (s : Load) (p : ProcId) : ℕ :=
  match s.cache.place p with
  | .releasing _ => demand (s.todo p) - 1
  | _ => demand (s.todo p)

/-- The references to buffers and those that transfers may still take. -/
def claimed (s : Load) : ℕ := s.cache.refs + ∑ p, s.reserved p

/-- The condition on one step: there is room for what it takes. -/
def HasRoom (s : Load) : ProcId × LoadAct → Prop
  | (_, .transfer t) => s.claimed + t.width ≤ NBUF
  | (_, .other a) => s.claimed + a.takes ≤ NBUF
  | (_, .io) => True

instance (s : Load) : DecidablePred s.HasRoom
  | (_, .transfer _) => inferInstanceAs (Decidable (_ ≤ _))
  | (_, .other _) => inferInstanceAs (Decidable (_ ≤ _))
  | (_, .io) => inferInstanceAs (Decidable True)

end Load

/-! ### The width of a transfer -/

lemma foldr_fetches (disks : List ℕ) (offset n : ℕ) :
    (disks.flatMap fun d => fetch (diskBlock d offset)).foldr BufOp.demand n ≤ max n 1 := by
  induction disks with
  | nil => exact le_max_left n 1
  | cons d disks ih =>
    have hfetch : ∀ m, (fetch (diskBlock d offset)).foldr BufOp.demand m = m - 1 + 1 := fun _ => rfl
    rw [flatMap_cons, foldr_append, hfetch]
    omega

lemma foldr_writeBlockOps (mode : RaidMode) (diskFailed : ℤ) (lb slot n : ℕ) :
    (writeBlockOps mode diskFailed lb).foldr BufOp.demand n ≤
      max n (Transfer.write slot mode diskFailed).width := by
  cases mode with
  | striping =>
    simp only [writeBlockOps, Transfer.width]
    split_ifs
    · simp only [overwrite, foldr_cons, foldr_nil, BufOp.demand]
      omega
    · exact le_max_left n 1
  | mirroring | mirroredStriping =>
    simp only [writeBlockOps, writeMirroredOps, Transfer.width]
    split_ifs <;> simp [overwrite, BufOp.demand] <;> omega
  | parity =>
    simp only [writeBlockOps, writeParityOps, Transfer.width]
    split_ifs
    · -- the loop over the other disks takes one buffer at a time beside that of the parity block
      rw [foldr_cons, foldr_append]
      refine (succ_le_succ (foldr_fetches ..)).trans ?_
      simp only [foldr_cons, foldr_nil, BufOp.demand]
      omega
    all_goals
      simp only [foldr_append, foldr_cons, foldr_nil, BufOp.demand]
      omega

lemma foldr_readBlockOps (mode : RaidMode) (diskFailed : ℤ) (lb slot n : ℕ) :
    (readBlockOps mode diskFailed lb).foldr BufOp.demand n ≤
      max n (Transfer.read slot mode diskFailed).width := by
  cases mode with
  | striping =>
    simp only [readBlockOps, Transfer.width]
    split_ifs
    · simp only [fetch, foldr_cons, foldr_nil, BufOp.demand]
      omega
    · exact le_max_left n 1
  | mirroring | mirroredStriping =>
    simp only [readBlockOps, readMirroredOps, Transfer.width, fetch, foldr_cons,
      foldr_nil, BufOp.demand]
    omega
  | parity =>
    simp only [readBlockOps, readParityOps, Transfer.width]
    split_ifs
    · simp only [fetch, foldr_cons, foldr_nil, BufOp.demand]
      omega
    · exact foldr_fetches ..

lemma Transfer.demand_ops_le (t : Transfer) : demand t.ops ≤ t.width := by
  have hblock : ∀ lb n, (t.blockOps lb).foldr BufOp.demand n ≤ max n t.width := by
    cases t with
    | write slot mode diskFailed => exact fun lb => foldr_writeBlockOps mode diskFailed lb slot
    | read slot mode diskFailed => exact fun lb => foldr_readBlockOps mode diskFailed lb slot
  unfold demand ops
  induction List.range SWAP_BLOCKS_PER_PAGE with
  | nil => exact zero_le _
  | cons i l ih =>
    rw [flatMap_cons, foldr_append]
    exact (hblock _ _).trans (max_le ih le_rfl)

/-! ### Steps of the cache -/

section Cache

variable {s s' : Cache} {p : ProcId} {a : Act} {b : BufId}

/-- One buffer changes. -/
theorem refs_update {x : Buf} (hbuf : s'.buf = update s.buf b x) :
    s'.refs + (s.buf b).refcnt = s.refs + x.refcnt := by
  unfold Cache.refs
  rw [hbuf]
  exact Finset.sum_update_add Buf.refcnt s.buf b x

lemma refs_drop (h : CacheInv s) (hp : s.place p = .releasing b) :
    (s.drop b).refs + 1 = s.refs := by
  obtain ⟨links, clock, stamp, heq⟩ := exists_drop_eq s b
  have hpos : 0 < (s.buf b).refcnt := by
    have hle := Finset.single_le_sum (f := fun q => (s.place q).refs b) (fun _ _ => zero_le _)
      (Finset.mem_univ p)
    have hone : (s.place p).refs b = 1 := by rw [hp, refs_releasing, if_pos rfl]
    rw [h.refcnt b]
    omega
  have hdrop := refs_update (congrArg Cache.buf heq)
  dsimp only at hdrop
  omega

/-- What a step does to the number of references. -/
theorem refs_exec (h : CacheInv s) (hs : s.exec p a = some s') : s'.refs ≤ s.refs + a.takes := by
  have hle : ∀ {n : ℕ} {t : Cache} {b : BufId} {x : Buf}, t.buf = update s.buf b x →
      x.refcnt ≤ (s.buf b).refcnt + n → t.refs ≤ s.refs + n := by
    intro n t b x hbuf hx
    have hupdate := refs_update hbuf
    omega
  have hsame : ∀ {n : ℕ} {t : Cache}, t.buf = s.buf → t.refs ≤ s.refs + n := by
    intro n t hbuf
    unfold Cache.refs
    rw [hbuf]
    exact le_add_right _ _
  cases cacheStep_of_exec hs with
  | bget hp hget =>
    rcases h.bget_cases hget with ⟨-, -, rfl⟩ | ⟨-, -, rfl⟩
    · exact hle rfl le_rfl
    · exact hle rfl (le_add_left 1 _)
  | logWrite =>
    unfold Cache.logWrite
    split_ifs
    · exact hsame rfl
    · exact hle rfl le_rfl
  | acquiresleep | bwrite | clearLog | brelse => exact hsame rfl
  | read | modify | bpin => exact hle rfl le_rfl
  | bunpin => exact hle rfl (sub_le ..)
  | @drop b hp =>
    have hdrop := refs_drop h hp
    have hgoto : ((s.drop b).goto p .idle).refs = (s.drop b).refs := rfl
    omega

lemma place_exec (h : CacheInv s) (hs : s.exec p a = some s') {q : ProcId} (hq : q ≠ p) :
    s'.place q = s.place q := by
  cases cacheStep_of_exec hs with
  | bget hp hget =>
    rcases h.bget_cases hget with ⟨-, -, rfl⟩ | ⟨-, -, rfl⟩
    all_goals exact update_of_ne hq ..
  | @drop b hp =>
    obtain ⟨links, clock, stamp, hdrop⟩ := exists_drop_eq s b
    rw [hdrop]
    exact update_of_ne hq ..
  | acquiresleep | read | brelse => exact update_of_ne hq ..
  | logWrite =>
    unfold Cache.logWrite
    split_ifs <;> rfl
  | modify | bwrite | bpin | bunpin | clearLog => rfl

lemma CacheInv.bget_ne_none (h : CacheInv s) (hrefs : s.refs < NBUF) (dev blockno : ℕ) :
    s.bget dev blockno ≠ none := by
  obtain ⟨c, hc⟩ : ∃ c, (s.buf c).refcnt = 0 := by
    by_contra hnone
    have hle : ∑ _c : BufId, 1 ≤ ∑ c, (s.buf c).refcnt :=
      Finset.sum_le_sum fun c _ => one_le_iff_ne_zero.mpr fun hzero => hnone ⟨c, hzero⟩
    rw [← Finset.card_eq_sum_ones, Finset.card_univ, Fintype.card_fin] at hle
    exact absurd hrefs (Nat.not_lt_of_le hle)
  have hunused : s.findUnused ≠ none := by
    obtain ⟨l, hring, hall, -⟩ := h.ring
    rw [findUnused_eq hring, Ne, List.find?_eq_none]
    intro hnone
    exact hnone c (mem_reverse.mpr (hall c)) (by simpa using hc)
  unfold Cache.bget
  split
  · exact some_ne_none _
  · split
    · exact some_ne_none _
    next hnone => exact absurd hnone hunused

end Cache

/-! ### Runs with enough room -/

namespace Load

variable {s s' : Load} {p : ProcId} {a : LoadAct}

lemma claimed_resume {c : Cache} (l : List BufOp)
    (hplace : ∀ q, q ≠ p → c.place q = s.cache.place q) :
    (s.resume p l c).claimed + (s.cache.refs + s.reserved p) =
      s.claimed + (c.refs + (s.resume p l c).reserved p) := by
  have hother : ∀ q, q ≠ p → (s.resume p l c).reserved q = s.reserved q := by
    intro q hq
    simp only [reserved, resume, hplace q hq, update_of_ne hq]
  have hsum := Finset.sum_add_eq_of_forall_ne p hother
  have hcache : (s.resume p l c).cache.refs = c.refs := rfl
  unfold claimed
  omega

lemma reserved_le (s : Load) (p : ProcId) : s.reserved p ≤ demand (s.todo p) := by
  unfold reserved
  split
  · exact sub_le ..
  · exact le_rfl

lemma resume_reserved_le (s : Load) (p : ProcId) (l : List BufOp) (c : Cache) :
    (s.resume p l c).reserved p ≤ demand l := by
  have hle := (s.resume p l c).reserved_le p
  rwa [show (s.resume p l c).todo p = l from update_self ..] at hle

/-- A step of a transfer takes no more than is reserved. -/
theorem claimed_io (h : CacheInv s.cache) (hs : s.io p = some s') :
    s'.claimed ≤ s.claimed ∧ ∃ a, s.cache.exec p a = some s'.cache := by
  have hclaimed : ∀ {a : Act} {c : Cache} (l : List BufOp), s.cache.exec p a = some c →
      (s.resume p l c).claimed + (s.cache.refs + s.reserved p) =
        s.claimed + (c.refs + (s.resume p l c).reserved p) :=
    fun l hc => claimed_resume l fun q hq => place_exec h hc hq
  -- a step that takes nothing, with what is behind it
  have hstay : ∀ {a : Act} {c : Cache} (l : List BufOp), s.cache.exec p a = some c → a.takes = 0 →
      s.reserved p = demand l → (s.resume p l c).claimed ≤ s.claimed := by
    intro a c l hc htakes hreserved
    have heq := hclaimed l hc
    have hrefs := refs_exec h hc
    have hafter := s.resume_reserved_le p l c
    omega
  unfold io at hs
  split at hs
  next hp =>
    obtain ⟨c, hc, rfl⟩ := map_eq_some_iff.mp hs
    exact ⟨hstay _ hc rfl (by simp only [reserved, hp]), _, hc⟩
  next hp =>
    obtain ⟨c, hc, rfl⟩ := map_eq_some_iff.mp hs
    exact ⟨hstay _ hc rfl (by simp only [reserved, hp]), _, hc⟩
  next b hp =>
    obtain ⟨c, hc, rfl⟩ := map_eq_some_iff.mp hs
    refine ⟨?_, _, hc⟩
    have heq := hclaimed (s.todo p) hc
    have hbefore : s.reserved p = demand (s.todo p) - 1 := by simp only [reserved, hp]
    have hrefs : c.refs + 1 = s.cache.refs := by
      cases cacheStep_of_exec hc with
      | drop hp' => exact refs_drop h hp'
    have hafter := s.resume_reserved_le p (s.todo p) c
    omega
  next hp =>
    have hbefore : s.reserved p = demand (s.todo p) := by simp only [reserved, hp]
    split at hs
    next => cases hs
    next b read l htodo =>
      obtain ⟨c, hc, rfl⟩ := map_eq_some_iff.mp hs
      refine ⟨?_, _, hc⟩
      have heq := hclaimed l hc
      have hrefs := refs_exec h hc
      simp only [Act.takes] at hrefs
      have hdemand : demand (s.todo p) = demand l + 1 := congrArg demand htodo
      have hafter := s.resume_reserved_le p l c
      omega
    next b l htodo =>
      obtain ⟨buf, -, hs⟩ := bind_eq_some_iff.mp hs
      obtain ⟨c, hc, hs⟩ := bind_eq_some_iff.mp hs
      cases hs
      have hdemand : demand (s.todo p) = demand l := by
        rw [htodo]
        rfl
      exact ⟨hstay l hc rfl (hbefore.trans hdemand), _, hc⟩
    next b l htodo =>
      obtain ⟨buf, -, hs⟩ := bind_eq_some_iff.mp hs
      obtain ⟨c, hc, hs⟩ := bind_eq_some_iff.mp hs
      cases hs
      refine ⟨?_, _, hc⟩
      have heq := hclaimed l hc
      have hrefs := refs_exec h hc
      simp only [Act.takes] at hrefs
      have hdemand : demand (s.todo p) = demand l - 1 := congrArg demand htodo
      -- the buffer counts as released from now on
      have hreleasing : (s.resume p l c).reserved p = demand l - 1 := by
        cases cacheStep_of_exec hc with
        | brelse => simp [reserved, resume, Cache.goto]
      omega

lemma claimed_step (h : CacheInv s.cache) (hle : s.claimed ≤ NBUF) (hroom : s.HasRoom (p, a))
    (hs : s.exec p a = some s') : CacheInv s'.cache ∧ s'.claimed ≤ NBUF := by
  cases a with
  | transfer t =>
    simp only [exec] at hs
    split_ifs at hs with hfree
    cases hs
    have hroom : s.claimed + t.width ≤ NBUF := hroom
    have heq := claimed_resume (s := s) (p := p) (c := s.cache) t.ops fun _ _ => rfl
    have hdemand := (s.resume_reserved_le p t.ops s.cache).trans t.demand_ops_le
    exact ⟨h, by omega⟩
  | io =>
    obtain ⟨hclaimed, a, ha⟩ := claimed_io h hs
    exact ⟨h.step ha, hclaimed.trans hle⟩
  | other a =>
    simp only [exec] at hs
    split_ifs at hs
    obtain ⟨c, hc, rfl⟩ := map_eq_some_iff.mp hs
    have hroom : s.claimed + a.takes ≤ NBUF := hroom
    have heq := claimed_resume [] fun q hq => place_exec h hc hq
    have hrefs := refs_exec h hc
    have hnone : (s.resume p [] c).reserved p ≤ 0 := s.resume_reserved_le p [] c
    exact ⟨h.step hc, by omega⟩

end Load

/-- In every run whose steps all have room for what they take, `bget` finds a buffer whenever a
process calls it in a step of its transfer, or outside of transfers with room for a buffer. -/
theorem bget_finds_buffer {s : Load} {p : ProcId} {a : LoadAct}
    (h : (loadSystem.restrict Load.HasRoom).Reachable s) (hroom : s.HasRoom (p, a)) :
    ¬s.NoBuffers p a := by
  have hinv : CacheInv s.cache ∧ s.claimed ≤ NBUF := by
    refine h.invariant (S := loadSystem.restrict Load.HasRoom)
      (I := fun s => CacheInv s.cache ∧ s.claimed ≤ NBUF) ?_ ?_
    · rintro s ⟨hinit, htodo⟩
      refine ⟨cacheInv_init hinit, ?_⟩
      have hrefs : s.cache.refs = 0 := Finset.sum_eq_zero fun b _ => (hinit.1 b).2.2
      have hreserved : ∑ p, s.reserved p = 0 := Finset.sum_eq_zero fun p _ =>
        le_zero.mp ((s.reserved_le p).trans (by rw [htodo]; exact le_rfl))
      unfold Load.claimed
      omega
    · exact fun s l s' _ hI hs => Load.claimed_step hI.1 hI.2 hs.1 hs.2
  obtain ⟨hcache, hle⟩ := hinv
  cases a with
  | transfer t => exact id
  | io =>
    rintro ⟨hp, b, read, l, htodo, hnone⟩
    refine hcache.bget_ne_none ?_ ROOTDEV b hnone
    -- the buffer of this call is among those reserved
    have hreserved : s.reserved p = demand l + 1 := by
      simp only [Load.reserved, hp, htodo]
      rfl
    have hsum := Finset.single_le_sum (f := s.reserved) (fun _ _ => zero_le _)
      (Finset.mem_univ p)
    unfold Load.claimed at hle
    omega
  | other a =>
    rintro ⟨-, -, dev, blockno, read, rfl, hnone⟩
    refine hcache.bget_ne_none ?_ dev blockno hnone
    have hroom : s.claimed + 1 ≤ NBUF := hroom
    unfold Load.claimed at hroom
    omega

/-- The cache after boot, without transfers. -/
def idleLoad : Load where
  cache := booted
  todo _ := []

lemma init_idleLoad : loadSystem.init idleLoad := ⟨init_booted, fun _ => rfl⟩

/-- The process calls `raid_write_page` for a slot of its own, and gets the first buffer. -/
def beginWrite (p : ProcId) : List (ProcId × LoadAct) :=
  [(p, .transfer (.write p .striping (-1))), (p, .io), (p, .io)]

/-- The processes before `last` write pages and wait for the disk, and then `last` writes a page. -/
def writers (last : ProcId) : List (ProcId × LoadAct) :=
  ((List.finRange NPROC).take last).flatMap beginWrite ++
    [(last, .transfer (.write last .striping (-1)))]

/-- The last of `NBUF` writers finds a buffer. -/
theorem bget_finds_buffer_last :
    ∃ s p, (loadSystem.restrict Load.HasRoom).Reachable s ∧ p.val = NBUF - 1 ∧
      (∃ b l, s.todo p = .bget b false :: l ∧ s.cache.place p = .idle) ∧ ¬s.NoBuffers p .io := by
  let last : ProcId := ⟨NBUF - 1, by decide⟩
  have hrun : ((writers last).foldlM
      (fun (s : Load) l => if s.HasRoom l then s.exec l.1 l.2 else none) idleLoad).any fun s =>
        (s.todo last).head? = some (.bget 2029 false) ∧ s.cache.place last = .idle := by
    decide +kernel
  obtain ⟨s, hs, hnext⟩ := any_eq_true _ _ |>.mp hrun
  have hrun : (loadSystem.restrict Load.HasRoom).Run idleLoad (writers last) s :=
    .of_foldlM (TransitionSystem.restrict_step_of_ite fun _ _ _ => id) hs
  have hreach := hrun.reachable (.init init_idleLoad)
  refine ⟨s, last, hreach, rfl, ?_, bget_finds_buffer hreach trivial⟩
  obtain ⟨hhead, hplace⟩ := of_decide_eq_true hnext
  obtain ⟨l, htodo⟩ := head?_eq_some_iff.mp hhead
  exact ⟨_, l, htodo, hplace⟩

/-- There is no buffer for a writer after `NBUF` others, and it panics. -/
theorem swap_io_exhausts : ∃ s p, loadSystem.Reachable s ∧ s.NoBuffers p .io := by
  let last : ProcId := ⟨NBUF, by decide⟩
  have hrun : ((writers last).foldlM (fun (s : Load) l => s.exec l.1 l.2) idleLoad).any fun s =>
      (s.todo last).head? = some (.bget 2030 false) ∧ s.cache.place last = .idle ∧
        (s.cache.bget ROOTDEV 2030).isNone := by
    decide +kernel
  obtain ⟨s, hs, hnext⟩ := any_eq_true _ _ |>.mp hrun
  have hrun : loadSystem.Run idleLoad (writers last) s := .of_foldlM (fun _ _ _ => id) hs
  obtain ⟨hhead, hplace, hnone⟩ := of_decide_eq_true hnext
  obtain ⟨l, htodo⟩ := head?_eq_some_iff.mp hhead
  exact ⟨s, last, hrun.reachable (.init init_idleLoad), hplace, _, _, l, htodo,
    isNone_iff_eq_none.mp hnone⟩

end Xv6.Bcache
