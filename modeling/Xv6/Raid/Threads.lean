import Xv6.Foundations.LockedThreads
import Xv6.Foundations.Transition
import Xv6.Raid.Model

/-!
# Mode-5 page transfers that run concurrently

The mode-5 branches of `raid_write_page` and `raid_read_page` as threads over the disk blocks.
`bread` locks the buffer of a block and reads it, `bwrite` writes the block, and `brelse` releases
the buffer. A buffer is changed only between `bread` and `bwrite`, so its contents count as local
until `bwrite`. A thread that runs alone does what the sequential model does
(`raidWritePageThread_run`, `raidReadPageThread_run`).

`raidSystem` runs any number of such calls, one buffer operation at a time.
-/

namespace Xv6.Raid

open Parity

/-! ## Buffers -/

/-- `bread(1, b)`: wait for the buffer of the block, lock it and read the block. -/
def bread (b : ℕ) : Thread ℕ Block Block := .acquire b .ret

/-- `bwrite`, after the buffer of block `b` has been filled with `c`. -/
def bwrite (b : ℕ) (c : Block) : Thread ℕ Block Unit := .write b c (.ret ())

/-- `brelse` of the buffer of block `b`. -/
def brelse (b : ℕ) : Thread ℕ Block Unit := .release b (.ret ())

/-! ## The transfers -/

/-- The loops over the other disks of a stripe: each buffer is locked, added to the accumulated
exclusive-or and released. -/
def xorOthersThread (offset : ℕ) : List ℕ → Block → Thread ℕ Block Block
  | [], acc => pure acc
  | d :: disks, acc => do
    let other ← bread (diskBlock d offset)
    brelse (diskBlock d offset)
    xorOthersThread offset disks (acc ^^^ other)

/-- `raid_write_page` in mode 5, one logical block. -/
def writeParityThread (logicalBlock : ℕ) (newData : Block) (diskFailed : ℤ) :
    Thread ℕ Block Unit :=
  let offset := stripeOffset logicalBlock
  let dataBlock := diskBlock (dataDisk logicalBlock) offset
  let parityBlock := diskBlock (parityDisk offset) offset
  if diskFailed = dataDisk logicalBlock then do
    let _ ← bread parityBlock
    let others := (List.range NUM_DISKS).filter fun (d : ℕ) =>
      ¬((d : ℤ) = diskFailed ∨ d = parityDisk offset)
    let newParity ← xorOthersThread offset others newData
    bwrite parityBlock newParity
    brelse parityBlock
  else if diskFailed = parityDisk offset then do
    let _ ← bread dataBlock
    bwrite dataBlock newData
    brelse dataBlock
  else do
    let (oldData, oldParity) ←
      if dataBlock < parityBlock then do
        let oldData ← bread dataBlock
        let oldParity ← bread parityBlock
        pure (oldData, oldParity)
      else do
        let oldParity ← bread parityBlock
        let oldData ← bread dataBlock
        pure (oldData, oldParity)
    bwrite dataBlock newData
    bwrite parityBlock (oldParity ^^^ (oldData ^^^ newData))
    brelse dataBlock
    brelse parityBlock

/-- The loop of `raid_write_page` over blocks of the page. -/
def writeBlocksThread (swapSlot : ℕ) (pg : Page) (diskFailed : ℤ) :
    List (Fin SWAP_BLOCKS_PER_PAGE) → Thread ℕ Block Unit
  | [] => pure ()
  | i :: l => do
    writeParityThread (swapSlot * 4 + i) (pg.block i) diskFailed
    writeBlocksThread swapSlot pg diskFailed l

/-- `raid_write_page(swap_slot, pa, 5, disk_failed)`. -/
def raidWritePageThread (swapSlot : ℕ) (pg : Page) (diskFailed : ℤ) : Thread ℕ Block Unit :=
  writeBlocksThread swapSlot pg diskFailed (List.finRange SWAP_BLOCKS_PER_PAGE)

/-- `raid_read_page` in mode 5, one logical block. -/
def readParityThread (logicalBlock : ℕ) (diskFailed : ℤ) : Thread ℕ Block Block :=
  let offset := stripeOffset logicalBlock
  if (dataDisk logicalBlock : ℤ) ≠ diskFailed then do
    let b ← bread (diskBlock (dataDisk logicalBlock) offset)
    brelse (diskBlock (dataDisk logicalBlock) offset)
    pure b
  else
    xorOthersThread offset ((List.range NUM_DISKS).filter fun (d : ℕ) => ¬((d : ℤ) = diskFailed)) 0

/-- The loop of `raid_read_page` over blocks of the page. -/
def readBlocksThread (swapSlot : ℕ) (diskFailed : ℤ) :
    List (Fin SWAP_BLOCKS_PER_PAGE) → Page → Thread ℕ Block Page
  | [], pg => pure pg
  | i :: l, pg => do
    let b ← readParityThread (swapSlot * 4 + i) diskFailed
    readBlocksThread swapSlot diskFailed l (pg.setBlock i b)

/-- `raid_read_page(swap_slot, pa, 5, disk_failed)`: `pg` is the page at `pa` before the call. -/
def raidReadPageThread (swapSlot : ℕ) (pg : Page) (diskFailed : ℤ) : Thread ℕ Block Page :=
  readBlocksThread swapSlot diskFailed (List.finRange SWAP_BLOCKS_PER_PAGE) pg

/-! ## A call that runs alone -/

lemma xorOthersThread_run (offset : ℕ) (l : List ℕ) (acc : Block) (g : ℕ → Block) :
    (xorOthersThread offset l acc).run g =
      (acc ^^^ xorOver (fun d => g (diskBlock d offset)) l, g) := by
  induction l generalizing acc with
  | nil => simp [xorOthersThread, Thread.run]
  | cons d l ih =>
    have hstep : (xorOthersThread offset (d :: l) acc).run g =
        (xorOthersThread offset l (acc ^^^ g (diskBlock d offset))).run g := rfl
    rw [hstep, ih, xorOver_cons, xor_assoc]

lemma writeParityThread_run (lb : ℕ) (c : Block) (diskFailed : ℤ) (s : SwapDisk) :
    (writeParityThread lb c diskFailed).run s.blocks =
      ((), (writeParity lb c diskFailed s).blocks) := by
  unfold writeParityThread writeParity
  dsimp only
  split_ifs
  · rw [Thread.run_bind, Thread.run_bind, xorOthersThread_run, xorOthers_eq]
    rfl
  · rfl
  · rfl
  · rfl

/-- A page write that runs alone writes what the sequential model writes. -/
theorem raidWritePageThread_run (slot : ℕ) (pg : Page) (diskFailed : ℤ) (s : SwapDisk) :
    (raidWritePageThread slot pg diskFailed).run s.blocks =
      ((), (raidWritePage slot pg .parity diskFailed s).blocks) := by
  unfold raidWritePageThread raidWritePage
  induction List.finRange SWAP_BLOCKS_PER_PAGE generalizing s with
  | nil => rfl
  | cons i l ih =>
    rw [writeBlocksThread, Thread.run_bind, writeParityThread_run, ih]
    rfl

lemma readParityThread_run (lb : ℕ) (diskFailed : ℤ) (s : SwapDisk) :
    (readParityThread lb diskFailed).run s.blocks =
      ((readParity lb diskFailed s).1, s.blocks) := by
  unfold readParityThread readParity
  dsimp only
  split_ifs
  · rfl
  · rw [xorOthersThread_run, xorOthers_eq]

lemma raidReadPageThread_run (slot : ℕ) (pg : Page) (diskFailed : ℤ) (s : SwapDisk) :
    (raidReadPageThread slot pg diskFailed).run s.blocks =
      ((raidReadPage slot pg .parity diskFailed s).1, s.blocks) := by
  unfold raidReadPageThread raidReadPage
  induction List.finRange SWAP_BLOCKS_PER_PAGE generalizing pg s with
  | nil => rfl
  | cons i l ih =>
    have hblocks := readBlock_blocks .parity diskFailed (slot * 4 + i) s
    rw [readBlocksThread, Thread.run_bind, readParityThread_run, ← hblocks, ih]
    rfl

/-! ## Concurrent calls -/

/-- A call of `raid_write_page` or `raid_read_page` in mode 5. -/
inductive Call where
  | write (swapSlot : ℕ) (pg : Page)
  | read (swapSlot : ℕ) (pg : Page)

/-- What a process does for a call. A read returns the page. -/
def Call.thread (diskFailed : ℤ) : Call → Thread ℕ Block (Option Page)
  | .write swapSlot pg => do
    raidWritePageThread swapSlot pg diskFailed
    pure none
  | .read swapSlot pg => do
    let pg ← raidReadPageThread swapSlot pg diskFailed
    pure (some pg)

/-- A process calls, or it executes its next buffer operation. -/
inductive Label (P : Type) where
  | call (q : P) (c : Call)
  | exec (q : P)

/-- Processes that make mode-5 calls with one value of `disk_failed`. A process makes the calls that
`allowed` admits, one after the other. -/
def raidSystem {P : Type} [DecidableEq P] (diskFailed : ℤ) (disks : (ℕ → Block) → Prop)
    (allowed : P → Call → Prop) :
    TransitionSystem (Machine P ℕ Block (Option Page)) (Label P) where
  init m := disks m.value ∧ (∀ b, m.holder b = none) ∧ ∀ q, m.thread q = .ret none
  step m l m' :=
    match l with
    | .call q c => allowed q c ∧ (∃ a, m.thread q = .ret a) ∧ m' = m.resume q (c.thread diskFailed)
    | .exec q => m.exec q = some m'

/-! ## Executing runs -/

/-- Execute a call or a buffer operation that passes a check. -/
def execLabel {P : Type} [DecidableEq P] (diskFailed : ℤ)
    (check : Machine P ℕ Block (Option Page) → Label P → Bool)
    (m : Machine P ℕ Block (Option Page)) (a : Label P) :
    Option (Machine P ℕ Block (Option Page)) :=
  if check m a then
    match a with
    | .call q c =>
      match m.thread q with
      | .ret _ => some (m.resume q (c.thread diskFailed))
      | _ => none
    | .exec q => m.exec q
  else none

section Execute

variable {P : Type} [DecidableEq P] {diskFailed : ℤ} {disks : (ℕ → Block) → Prop}
  {allowed : P → Call → Prop} {check : Machine P ℕ Block (Option Page) → Label P → Bool}
  {cond : Machine P ℕ Block (Option Page) → Label P → Prop}
  {m m' : Machine P ℕ Block (Option Page)}

section

variable (hcond : ∀ m a, check m a = true → cond m a)
  (hallowed : ∀ m q c, check m (.call q c) = true → allowed q c)

include hcond hallowed

lemma step_of_execLabel {a : Label P} (h : execLabel diskFailed check m a = some m') :
    ((raidSystem diskFailed disks allowed).restrict cond).step m a m' := by
  unfold execLabel at h
  split_ifs at h with hcheck
  refine ⟨hcond m a hcheck, ?_⟩
  cases a with
  | call q c =>
    dsimp only at h
    split at h
    · next a hret =>
      cases h
      exact ⟨hallowed m q c hcheck, ⟨a, hret⟩, rfl⟩
    · cases h
  | exec q => exact h

/-- What executing labels from an initial state reaches. -/
theorem reachable_execLabels (hm : (raidSystem diskFailed disks allowed).init m)
    {l : List (Label P)} (h : l.foldlM (execLabel diskFailed check) m = some m') :
    ((raidSystem diskFailed disks allowed).restrict cond).Reachable m' := by
  have hrun : ((raidSystem diskFailed disks allowed).restrict cond).Run m l m' :=
    .of_foldlM (fun _ _ _ => step_of_execLabel hcond hallowed) h
  exact hrun.reachable (.init hm)

end

end Execute

/-- Two idle processes over zero disks. -/
def idleMachine : Machine Bool ℕ Block (Option Page) where
  value _ := 0
  holder _ := none
  thread _ := .ret none

end Xv6.Raid
