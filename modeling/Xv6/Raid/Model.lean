import Xv6.Param
import Xv6.Foundations.Parity

/-!
# The simulated RAID under the swap region

Model of `kernel/raid.c`. The swap region is one block device seen as `NUM_DISKS` disks of
`SIM_DISK_SIZE` blocks each. `raidWritePage` and `raidReadPage` transfer the four blocks of a swap
slot one after the other, in the layout of the given mode, avoiding the disk `diskFailed`
(`-1` when all disks are healthy).

`SwapDisk` holds the contents of the blocks together with the list of all blocks that `bread`,
`bget` and `bwrite` have been called on. Calls run to completion here, so the buffer cache is
transparent: `bread` returns the last contents written, and `bget` followed by a full overwrite
and `bwrite` writes the block without reading it.
-/

namespace Xv6.Raid

/-! ## Modes -/

/-- The values of `raid_mode` that `set_raid_mode` accepts. -/
inductive RaidMode where
  /-- Mode 0. -/
  | striping
  /-- Mode 1. -/
  | mirroring
  /-- Mode 5. -/
  | parity
  /-- Mode 10. -/
  | mirroredStriping
  deriving DecidableEq, Repr

/-- `set_raid_mode(mode)`: the new mode, or `none` where it returns `-1`. -/
def setRaidMode (mode : ℤ) : Option RaidMode :=
  if mode = 0 then some .striping
  else if mode = 1 then some .mirroring
  else if mode = 5 then some .parity
  else if mode = 10 then some .mirroredStriping
  else none

/-- `sys_setraidmode()`: only modes 0, 1 and 5 are passed on to `set_raid_mode`; otherwise the
call returns `-1`. -/
def sysSetraidmode (mode : ℤ) : Option RaidMode :=
  if mode = 0 ∨ mode = 1 ∨ mode = 5 then setRaidMode mode else none

/-! ## The block device -/

/-- The swap device: its contents, and every block a buffer was taken for, in order. -/
structure SwapDisk where
  /-- The contents of each block. -/
  blocks : ℕ → Block
  /-- The blocks read or written so far. -/
  touched : List ℕ

namespace SwapDisk

/-- The all-zero device. -/
def zero : SwapDisk := { blocks := fun _ => 0, touched := [] }

/-- `bread(1, b)` followed by `brelse`. -/
def bread (s : SwapDisk) (b : ℕ) : Block × SwapDisk :=
  (s.blocks b, { s with touched := s.touched ++ [b] })

/-- The buffer of block `b` is overwritten with `c` and written with `bwrite`. -/
def bwrite (s : SwapDisk) (b : ℕ) (c : Block) : SwapDisk :=
  { blocks := Function.update s.blocks b c, touched := s.touched ++ [b] }

@[simp]
lemma bread_fst (s : SwapDisk) (b : ℕ) : (s.bread b).1 = s.blocks b := rfl

@[simp]
lemma bread_blocks (s : SwapDisk) (b : ℕ) : (s.bread b).2.blocks = s.blocks := rfl

@[simp]
lemma bread_touched (s : SwapDisk) (b : ℕ) : (s.bread b).2.touched = s.touched ++ [b] := rfl

@[simp]
lemma bwrite_blocks (s : SwapDisk) (b : ℕ) (c : Block) :
    (s.bwrite b c).blocks = Function.update s.blocks b c := rfl

@[simp]
lemma bwrite_touched (s : SwapDisk) (b : ℕ) (c : Block) :
    (s.bwrite b c).touched = s.touched ++ [b] := rfl

end SwapDisk

/-! ## Layouts -/

/-- `SWAP_START_BLOCK+(disk*SIM_DISK_SIZE)+offset`. -/
def diskBlock (disk offset : ℕ) : ℕ :=
  SWAP_START_BLOCK + disk * SIM_DISK_SIZE + offset

/-- Mode 5: the stripe of a logical block. -/
def stripeOffset (logicalBlock : ℕ) : ℕ := logicalBlock / (NUM_DISKS - 1)

/-- Mode 5: the disk that holds the parity of a stripe. -/
def parityDisk (offset : ℕ) : ℕ := offset % NUM_DISKS

/-- Mode 5: the disk that holds a logical block, skipping the parity disk of its stripe. -/
def dataDisk (logicalBlock : ℕ) : ℕ :=
  let dataDisk := logicalBlock % (NUM_DISKS - 1)
  if dataDisk ≥ parityDisk (stripeOffset logicalBlock) then dataDisk + 1 else dataDisk

/-! ## Writing a page -/

/-- Modes 1 and 10: both disks of a pair get the block, except the failed one. -/
def writeMirrored (pair offset : ℕ) (newData : Block) (diskFailed : ℤ) (s : SwapDisk) :
    SwapDisk :=
  let diskA := 2 * pair
  let diskB := 2 * pair + 1
  let s := if (diskA : ℤ) ≠ diskFailed then s.bwrite (diskBlock diskA offset) newData else s
  if (diskB : ℤ) ≠ diskFailed then s.bwrite (diskBlock diskB offset) newData else s

/-- The body of the two loops over the other disks of a stripe: each block is read and added to
the accumulated exclusive-or. -/
def xorOthers (offset : ℕ) (disks : List ℕ) (acc : Block) (s : SwapDisk) : Block × SwapDisk :=
  disks.foldl (fun (acc, s) d =>
    let (other, s) := s.bread (diskBlock d offset)
    (acc ^^^ other, s)) (acc, s)

/-- Mode 5: write one logical block and keep the parity of its stripe. -/
def writeParity (logicalBlock : ℕ) (newData : Block) (diskFailed : ℤ) (s : SwapDisk) :
    SwapDisk :=
  let offset := stripeOffset logicalBlock
  let dataBlock := diskBlock (dataDisk logicalBlock) offset
  let parityBlock := diskBlock (parityDisk offset) offset
  if diskFailed = dataDisk logicalBlock then
    -- the data cannot be stored: fold it into the parity instead
    let (_, s) := s.bread parityBlock
    let others := (List.range NUM_DISKS).filter fun (d : ℕ) =>
      ¬((d : ℤ) = diskFailed ∨ d = parityDisk offset)
    let (newParity, s) := xorOthers offset others newData s
    s.bwrite parityBlock newParity
  else if diskFailed = parityDisk offset then
    let (_, s) := s.bread dataBlock
    s.bwrite dataBlock newData
  else if dataBlock < parityBlock then
    let (oldData, s) := s.bread dataBlock
    let (oldParity, s) := s.bread parityBlock
    (s.bwrite dataBlock newData).bwrite parityBlock (oldParity ^^^ (oldData ^^^ newData))
  else
    let (oldParity, s) := s.bread parityBlock
    let (oldData, s) := s.bread dataBlock
    (s.bwrite dataBlock newData).bwrite parityBlock (oldParity ^^^ (oldData ^^^ newData))

/-- One iteration of the loop of `raid_write_page`. -/
def writeBlock (mode : RaidMode) (diskFailed : ℤ) (logicalBlock : ℕ) (newData : Block)
    (s : SwapDisk) : SwapDisk :=
  match mode with
  | .striping =>
    let disk := logicalBlock % NUM_DISKS
    let offset := logicalBlock / NUM_DISKS
    if (disk : ℤ) ≠ diskFailed then s.bwrite (diskBlock disk offset) newData else s
  | .mirroring => writeMirrored (logicalBlock % 2) (logicalBlock / 2) newData diskFailed s
  | .mirroredStriping =>
    writeMirrored (logicalBlock % (NUM_DISKS / 2)) (logicalBlock / (NUM_DISKS / 2)) newData
      diskFailed s
  | .parity => writeParity logicalBlock newData diskFailed s

/-- `raid_write_page(swap_slot, pa, mode, disk_failed)`, where `pg` is the page at `pa`. -/
def raidWritePage (swapSlot : ℕ) (pg : Page) (mode : RaidMode) (diskFailed : ℤ)
    (s : SwapDisk) : SwapDisk :=
  (List.finRange SWAP_BLOCKS_PER_PAGE).foldl (fun s (i : Fin SWAP_BLOCKS_PER_PAGE) =>
    writeBlock mode diskFailed (swapSlot * 4 + i) (pg.block i) s) s

/-! ## Reading a page -/

/-- Modes 1 and 10: read the first disk of the pair, or the second if the first has failed. -/
def readMirrored (pair offset : ℕ) (diskFailed : ℤ) (s : SwapDisk) : Block × SwapDisk :=
  let diskA := 2 * pair
  let diskB := 2 * pair + 1
  s.bread (if diskFailed = diskA then diskBlock diskB offset else diskBlock diskA offset)

/-- Mode 5: read one logical block, rebuilding it if its disk has failed. -/
def readParity (logicalBlock : ℕ) (diskFailed : ℤ) (s : SwapDisk) : Block × SwapDisk :=
  let offset := stripeOffset logicalBlock
  if (dataDisk logicalBlock : ℤ) ≠ diskFailed then
    s.bread (diskBlock (dataDisk logicalBlock) offset)
  else
    let others := (List.range NUM_DISKS).filter fun (d : ℕ) => ¬((d : ℤ) = diskFailed)
    xorOthers offset others 0 s

/-- One iteration of the loop of `raid_read_page`. In mode 0 a block of the failed disk is
replaced by zeros. -/
def readBlock (mode : RaidMode) (diskFailed : ℤ) (logicalBlock : ℕ) (s : SwapDisk) :
    Block × SwapDisk :=
  match mode with
  | .striping =>
    let disk := logicalBlock % NUM_DISKS
    let offset := logicalBlock / NUM_DISKS
    if (disk : ℤ) ≠ diskFailed then s.bread (diskBlock disk offset) else (0, s)
  | .mirroring => readMirrored (logicalBlock % 2) (logicalBlock / 2) diskFailed s
  | .mirroredStriping =>
    readMirrored (logicalBlock % (NUM_DISKS / 2)) (logicalBlock / (NUM_DISKS / 2)) diskFailed s
  | .parity => readParity logicalBlock diskFailed s

/-- `raid_read_page(swap_slot, pa, mode, disk_failed)`: `pg` is the page at `pa` before the
call. -/
def raidReadPage (swapSlot : ℕ) (pg : Page) (mode : RaidMode) (diskFailed : ℤ)
    (s : SwapDisk) : Page × SwapDisk :=
  (List.finRange SWAP_BLOCKS_PER_PAGE).foldl (fun (pg, s) (i : Fin SWAP_BLOCKS_PER_PAGE) =>
    let (b, s) := readBlock mode diskFailed (swapSlot * 4 + i) s
    (pg.setBlock i b, s)) (pg, s)

/-! ## Reading leaves the contents alone -/

lemma xorOthers_eq (offset : ℕ) (disks : List ℕ) (acc : Block) (s : SwapDisk) :
    xorOthers offset disks acc s =
      (acc ^^^ Parity.xorOver (fun d => s.blocks (diskBlock d offset)) disks,
        { s with touched := s.touched ++ disks.map (diskBlock · offset) }) := by
  induction disks generalizing acc s with
  | nil => simp [xorOthers]
  | cons d disks ih =>
    have hcons : xorOthers offset (d :: disks) acc s =
        xorOthers offset disks (acc ^^^ s.blocks (diskBlock d offset))
          (s.bread (diskBlock d offset)).2 := rfl
    rw [hcons, ih]
    simp [xor_assoc]

@[simp]
lemma readBlock_blocks (mode : RaidMode) (diskFailed : ℤ) (lb : ℕ) (s : SwapDisk) :
    (readBlock mode diskFailed lb s).2.blocks = s.blocks := by
  cases mode with
  | striping => simp only [readBlock]; split_ifs <;> rfl
  | mirroring | mirroredStriping => simp only [readBlock, readMirrored, SwapDisk.bread_blocks]
  | parity =>
    simp only [readBlock, readParity]
    split_ifs
    · rfl
    · rw [xorOthers_eq]

lemma readBlock_fst_congr (mode : RaidMode) (diskFailed : ℤ) (lb : ℕ) {s s' : SwapDisk}
    (h : s.blocks = s'.blocks) :
    (readBlock mode diskFailed lb s).1 = (readBlock mode diskFailed lb s').1 := by
  cases mode with
  | striping => simp only [readBlock]; split_ifs <;> simp [h]
  | mirroring | mirroredStriping => simp only [readBlock, readMirrored, SwapDisk.bread_fst, h]
  | parity =>
    simp only [readBlock, readParity]
    split_ifs
    · simp [h]
    · rw [xorOthers_eq, xorOthers_eq, h]

/-- The loop of `raid_read_page` over some of the blocks of the page: it leaves the device alone
and fills in exactly those blocks. -/
private theorem readLoop_spec (swapSlot : ℕ) (mode : RaidMode) (diskFailed : ℤ)
    (l : List (Fin SWAP_BLOCKS_PER_PAGE)) (pg : Page) (s : SwapDisk) :
    let r := l.foldl (fun (pg, s) i =>
      let (b, s) := readBlock mode diskFailed (swapSlot * 4 + i) s
      (pg.setBlock i b, s)) (pg, s)
    r.2.blocks = s.blocks ∧
      ∀ j, r.1.block j =
        if j ∈ l then (readBlock mode diskFailed (swapSlot * 4 + j) s).1 else pg.block j := by
  induction l generalizing pg s with
  | nil => simp
  | cons i l ih =>
    obtain ⟨hblocks, hpage⟩ := ih (pg.setBlock i (readBlock mode diskFailed (swapSlot * 4 + i) s).1)
      (readBlock mode diskFailed (swapSlot * 4 + i) s).2
    refine ⟨hblocks.trans (readBlock_blocks ..), fun j => (hpage j).trans ?_⟩
    rw [readBlock_fst_congr mode diskFailed _ (readBlock_blocks mode diskFailed _ s),
      Page.block_setBlock]
    by_cases hj : j ∈ l
    · simp [hj]
    · by_cases hji : j = i
      · simp [hji]
      · simp [hj, hji]

@[simp]
lemma raidReadPage_blocks (swapSlot : ℕ) (pg : Page) (mode : RaidMode) (diskFailed : ℤ)
    (s : SwapDisk) : (raidReadPage swapSlot pg mode diskFailed s).2.blocks = s.blocks :=
  (readLoop_spec swapSlot mode diskFailed _ pg s).1

lemma raidReadPage_block (swapSlot : ℕ) (pg : Page) (mode : RaidMode) (diskFailed : ℤ)
    (s : SwapDisk) (i : Fin SWAP_BLOCKS_PER_PAGE) :
    (raidReadPage swapSlot pg mode diskFailed s).1.block i =
      (readBlock mode diskFailed (swapSlot * 4 + i) s).1 := by
  refine ((readLoop_spec swapSlot mode diskFailed _ pg s).2 i).trans ?_
  rw [if_pos (List.mem_finRange i)]

end Xv6.Raid
