import Xv6.Foundations.WeakestPre
import Xv6.Log.Model

/-!
# Inodes and their contents

The block and inode layers of `kernel/fs.c`, from `balloc` to `writei`. Operations run one after
another, so the sleep-locks of inodes and buffers are left out, and the disk is seen through the
buffer cache and the log: a block has the content last written to it.

The inode blocks are an array of `struct dinode`, the bitmap blocks an array of bits, and the other
blocks of the file system an array of `BSIZE` bytes. A block address that leads out of the data
blocks is a `Fault` of its own: the code would go on with a block of another kind.

The inode table is indexed by inode number.
-/

namespace Xv6.Fs

open Function

open Log (getWord setWord)

/-! ## The disk layout -/

/-- Direct blocks of an inode. -/
def NDIRECT : ℕ := 12

/-- Block addresses in an indirect block. -/
def NINDIRECT : ℕ := BSIZE / 4

/-- Maximum number of blocks of a file. -/
def MAXFILE : ℕ := NDIRECT + NINDIRECT

/-- Bitmap bits per block. -/
def BPB : ℕ := BSIZE * 8

/-- `struct superblock`. -/
structure Superblock where
  /-- Size of the file system in blocks. -/
  size : ℕ
  /-- Number of inodes. -/
  ninodes : ℕ
  /-- Block number of the first bitmap block. -/
  bmapstart : ℕ
  size_lt : size < 2 ^ 32

/-- The first data block. -/
def Superblock.datastart (sb : Superblock) : ℕ := sb.bmapstart + (sb.size / BPB + 1)

/-- The type of an inode, `0` if it is free. -/
inductive FileType where
  | free
  | dir
  | file
  | device
  deriving DecidableEq

/-- `struct dinode`. -/
structure Dinode where
  type : FileType := .free
  major : ℤ := 0
  minor : ℤ := 0
  nlink : ℤ := 0
  /-- Size in bytes. -/
  size : ℕ := 0
  /-- Block addresses: `NDIRECT` direct blocks, and the indirect block. -/
  addrs : ℕ → ℕ := fun _ => 0

/-- `struct inode`. -/
structure Inode where
  ref : ℕ := 0
  valid : Bool := false
  /-- The copy of the disk inode. -/
  din : Dinode := {}

/-- The disk and the inode table. -/
structure State where
  dinode : ℕ → Dinode
  bit : ℕ → Bool
  block : ℕ → Block
  inode : ℕ → Inode

/-- Why a function does not return. -/
inductive Fault where
  /-- `panic`. -/
  | panic (msg : String)
  /-- A block address leads out of the data blocks. -/
  | outside
  deriving DecidableEq

/-- Programs of the file system. -/
abbrev M : Type → Type := StateT State (Except Fault)

/-! ## Bytes of a block -/

/-- `memmove` of bytes into a block from offset `off` on. -/
def writeBytes (b : Block) (off : ℕ) (bytes : List UInt8) : Block := fun j =>
  if off ≤ j then bytes.getD (j - off) (b j) else b j

/-- The byte at an offset. -/
def byteAt (b : Block) (j : ℕ) : UInt8 := if h : j < BSIZE then b ⟨j, h⟩ else 0

/-- `memmove` of `m` bytes out of a block from offset `off` on. -/
def readBytes (b : Block) (off m : ℕ) : List UInt8 := (List.range m).map fun i => byteAt b (off + i)

section Functions

variable (sb : Superblock)

/-! ## Blocks -/

/-- The content of a data block. -/
def bread (b : ℕ) : M Block := do
  if sb.datastart ≤ b ∧ b < sb.size then return (← get).block b
  else throw .outside

/-- `log_write` of a data block. -/
def logWrite (b : ℕ) (data : Block) : M Unit := do
  if sb.datastart ≤ b ∧ b < sb.size then
    modify fun s => { s with block := update s.block b data }
  else throw .outside

/-- `bzero`. -/
def bzero (b : ℕ) : M Unit := logWrite sb b 0

/-- `balloc`; `0` if out of disk space. -/
def balloc : M ℕ := do
  let s ← get
  -- the bitmap blocks one after another, the bits of each in order
  match (List.range sb.size).find? fun b => !s.bit b with
  | some b =>
    set { s with bit := update s.bit b true }
    bzero sb b
    return b
  | none => return 0

/-- `bfree`. -/
def bfree (b : ℕ) : M Unit := do
  let s ← get
  if s.bit b then set { s with bit := update s.bit b false }
  else throw (.panic "freeing free block")

/-! ## Inodes -/

/-- Change an entry of the inode table. -/
def modifyEntry (ip : ℕ) (f : Inode → Inode) : M Unit :=
  modify fun s => { s with inode := update s.inode ip (f (s.inode ip)) }

/-- Change the copy of the disk inode in memory. -/
def modifyInode (ip : ℕ) (f : Dinode → Dinode) : M Unit :=
  modifyEntry ip fun e => { e with din := f e.din }

/-- `iupdate`. -/
def iupdate (ip : ℕ) : M Unit :=
  modify fun s => { s with dinode := update s.dinode ip (s.inode ip).din }

/-! ## Inode content -/

/-- The block address `ip->addrs[n]`, with a block allocated for it if there is none. -/
def loadAddr (ip n : ℕ) : M ℕ := do
  let addr := ((← get).inode ip).din.addrs n
  if addr ≠ 0 then return addr
  else
    let addr ← balloc sb
    if addr = 0 then return 0
    else
      modifyInode ip fun d => { d with addrs := update d.addrs n addr }
      return addr

/-- `bmap`; `0` if out of disk space. -/
def bmap (ip bn : ℕ) : M ℕ := do
  if bn < NDIRECT then loadAddr sb ip bn
  else if bn - NDIRECT < NINDIRECT then
    -- load the indirect block, allocating if necessary
    let addr ← loadAddr sb ip NDIRECT
    if addr = 0 then return 0
    else
      let a ← bread sb addr
      let entry := (getWord a (bn - NDIRECT)).toNat
      if entry ≠ 0 then return entry
      else
        let b ← balloc sb
        if b = 0 then return 0
        else
          logWrite sb addr (setWord a (bn - NDIRECT) (BitVec.ofNat 32 b))
          return b
  else throw (.panic "bmap: out of range")

/-- The first loop of `itrunc`. -/
def freeDirect (ip : ℕ) : M Unit :=
  (List.range NDIRECT).forM fun i => do
    let addr := ((← get).inode ip).din.addrs i
    if addr ≠ 0 then
      bfree addr
      modifyInode ip fun d => { d with addrs := update d.addrs i 0 }
    else return

/-- The second loop of `itrunc`, over the entries of the indirect block. -/
def freeEntries (a : Block) : M Unit :=
  (List.range NINDIRECT).forM fun j => do
    let addr := (getWord a j).toNat
    if addr ≠ 0 then bfree addr
    else return

/-- The indirect block in `itrunc`. -/
def freeIndirect (ip : ℕ) : M Unit := do
  let addr := ((← get).inode ip).din.addrs NDIRECT
  if addr ≠ 0 then
    let a ← bread sb addr
    freeEntries a
    bfree addr
    modifyInode ip fun d => { d with addrs := update d.addrs NDIRECT 0 }
  else return

/-- `itrunc`. -/
def itrunc (ip : ℕ) : M Unit := do
  freeDirect ip
  freeIndirect sb ip
  modifyInode ip fun d => { d with size := 0 }
  iupdate ip

/-- The loop of `readi`; `dst` has the bytes copied so far. -/
def readLoop (ip n : ℕ) : ℕ → ℕ → List UInt8 → M (List UInt8)
  | 0, _, dst => return dst
  | fuel + 1, off, dst => do
    if dst.length < n then
      let addr ← bmap sb ip (off / BSIZE)
      if addr = 0 then return dst
      else
        let b ← bread sb addr
        let m := min (n - dst.length) (BSIZE - off % BSIZE)
        readLoop ip n fuel (off + m) (dst ++ readBytes b (off % BSIZE) m)
    else return dst

/-- `readi` to a kernel address; the bytes it copies, as many as it returns. -/
def readi (ip off n : ℕ) : M (List UInt8) := do
  let size := ((← get).inode ip).din.size
  if size < off ∨ (off + n) % 2 ^ 32 < off then return []
  else
    let n := if size < off + n then size - off else n
    -- every turn of the loop copies at least one byte
    readLoop sb ip n n off []

/-- The source of `writei`: whether `either_copyin` of the `m` bytes at `src + tot` succeeds, and
the bytes it copies. -/
abbrev Source : Type := ℕ → ℕ → Bool × List UInt8

/-- A kernel address. -/
def kernelSource (bytes : List UInt8) : Source := fun tot m => (true, (bytes.drop tot).take m)

/-- The loop of `writei`; returns `tot` and `off`. -/
def writeLoop (ip : ℕ) (src : Source) (n : ℕ) : ℕ → ℕ → ℕ → M (ℕ × ℕ)
  | 0, tot, off => return (tot, off)
  | fuel + 1, tot, off => do
    if tot < n then
      let addr ← bmap sb ip (off / BSIZE)
      if addr = 0 then return (tot, off)
      else
        let b ← bread sb addr
        let m := min (n - tot) (BSIZE - off % BSIZE)
        let (copied, bytes) := src tot m
        -- a failed copy may have changed the buffer too
        logWrite sb addr (writeBytes b (off % BSIZE) (bytes.take m))
        if copied then writeLoop ip src n fuel (tot + m) (off + m)
        else return (tot, off)
    else return (tot, off)

/-- `writei`. -/
def writei (ip : ℕ) (src : Source) (off n : ℕ) : M ℤ := do
  let size := ((← get).inode ip).din.size
  if size < off ∨ (off + n) % 2 ^ 32 < off then return -1
  else if MAXFILE * BSIZE < (off + n) % 2 ^ 32 then return -1
  else
    let (tot, off) ← writeLoop sb ip src n n 0 off
    if ((← get).inode ip).din.size < off then
      modifyInode ip fun d => { d with size := off }
      iupdate ip
      return tot
    else
      -- the loop may have added a block to `ip->addrs[]`
      iupdate ip
      return tot

end Functions

end Xv6.Fs
