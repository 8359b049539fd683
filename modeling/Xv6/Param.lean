import Mathlib

/-!
# System parameters, disk blocks and pages

The constants of `kernel/param.h`, `kernel/fs.h`, `kernel/riscv.h` and `kernel/raid.h` that the
development uses, and the two units of storage. A disk block is `BSIZE` bytes, a page is `PGSIZE`
bytes, and a page is exactly `SWAP_BLOCKS_PER_PAGE` consecutive blocks (`Page.ofBlocks_block`,
`Page.block_ofBlocks`).
-/

namespace Xv6

/-! ## `kernel/param.h` -/

/-- Maximum number of processes. -/
def NPROC : ℕ := 64

lemma nproc_pos : 0 < NPROC := by decide

lemma one_lt_nproc : 1 < NPROC := by decide

lemma two_lt_nproc : 2 < NPROC := by decide

/-- Maximum number of blocks any file-system operation writes. -/
def MAXOPBLOCKS : ℕ := 10

/-- Maximum number of data blocks in the on-disk log. -/
def LOGBLOCKS : ℕ := MAXOPBLOCKS * 3

/-- Size of the disk block cache. -/
def NBUF : ℕ := MAXOPBLOCKS * 3

lemma nbuf_pos : 0 < NBUF := by decide

lemma one_lt_nbuf : 1 < NBUF := by decide

/-- Size of the file system in blocks. -/
def FSSIZE : ℕ := 2000

/-! ## Sizes of blocks and pages -/

/-- Block size in bytes. -/
def BSIZE : ℕ := 1024

/-- Bytes per page. -/
def PGSIZE : ℕ := 4096

lemma mod_pgsize_lt (va : ℕ) : va % PGSIZE < PGSIZE := Nat.mod_lt va (by decide)

/-- The number of disk blocks a page occupies. -/
def SWAP_BLOCKS_PER_PAGE : ℕ := 4

/-! ## `kernel/raid.h` -/

/-- The number of simulated disks. -/
def NUM_DISKS : ℕ := 4

/-- The number of blocks of each simulated disk. -/
def SIM_DISK_SIZE : ℕ := 10000

/-- The first block of the swap region, right after the file system. -/
def SWAP_START_BLOCK : ℕ := FSSIZE

/-- The number of swap slots. -/
def MAX_SWAP_PAGES : ℕ := 1024

/-! ## Blocks -/

/-- The contents of a disk block. -/
def Block : Type := Fin BSIZE → UInt8

namespace Block

instance : DecidableEq Block := inferInstanceAs (DecidableEq (Fin BSIZE → UInt8))

instance : Zero Block := ⟨fun _ => 0⟩

instance : Inhabited Block := ⟨0⟩

/-- Byte-wise exclusive-or, the loop `for(j=0;j<BSIZE;j++) a[j]^=b[j]`. -/
instance : XorOp Block := ⟨fun a b j => a j ^^^ b j⟩

@[ext]
lemma ext {a b : Block} (h : ∀ j, a j = b j) : a = b := funext h

@[simp]
lemma xor_apply (a b : Block) (j : Fin BSIZE) : (a ^^^ b) j = a j ^^^ b j := rfl

@[simp]
lemma zero_apply (j : Fin BSIZE) : (0 : Block) j = 0 := rfl

instance : LawfulXor Block where
  xor_assoc a b c := by ext j : 1; simp [LawfulXor.xor_assoc]
  xor_self a := by ext j : 1; simp
  xor_zero a := by ext j : 1; simp
  xor_comm a b := by ext j : 1; simp [LawfulXor.xor_comm (a j)]

/-- The block all of whose bytes are `c`. -/
def fill (c : UInt8) : Block := fun _ => c

end Block

/-! ## Pages -/

/-- The contents of a page. -/
def Page : Type := Fin PGSIZE → UInt8

namespace Page

instance : DecidableEq Page := inferInstanceAs (DecidableEq (Fin PGSIZE → UInt8))

instance : Zero Page := ⟨fun _ => 0⟩

instance : Inhabited Page := ⟨0⟩

@[ext]
lemma ext {a b : Page} (h : ∀ j, a j = b j) : a = b := funext h

/-- `memset(pa, c, PGSIZE)`. -/
def fill (c : UInt8) : Page := fun _ => c

/-- The `i`-th block of a page, the `BSIZE` bytes at `pa+i*BSIZE`. -/
def block (pg : Page) (i : Fin SWAP_BLOCKS_PER_PAGE) : Block := fun j =>
  pg ⟨i * BSIZE + j, by
    have hi := i.isLt
    have hj := j.isLt
    simp only [SWAP_BLOCKS_PER_PAGE, BSIZE, PGSIZE] at *
    omega⟩

/-- The page made of four blocks. -/
def ofBlocks (f : Fin SWAP_BLOCKS_PER_PAGE → Block) : Page := fun n =>
  f ⟨n / BSIZE, by
      have hn := n.isLt
      simp only [SWAP_BLOCKS_PER_PAGE, BSIZE, PGSIZE] at *
      omega⟩
    ⟨n % BSIZE, Nat.mod_lt _ (by decide)⟩

@[simp]
lemma ofBlocks_block (pg : Page) : ofBlocks pg.block = pg := by
  ext n : 1
  refine congrArg pg (Fin.ext ?_)
  exact Nat.div_add_mod' n.val BSIZE

@[simp]
lemma block_ofBlocks (f : Fin SWAP_BLOCKS_PER_PAGE → Block) (i : Fin SWAP_BLOCKS_PER_PAGE) :
    (ofBlocks f).block i = f i := by
  ext j : 1
  have hB : 0 < BSIZE := by decide
  have hdiv : (i.val * BSIZE + j.val) / BSIZE = i.val := by
    rw [Nat.add_comm, Nat.add_mul_div_right _ _ hB, Nat.div_eq_of_lt j.isLt, Nat.zero_add]
  have hmod : (i.val * BSIZE + j.val) % BSIZE = j.val := by
    rw [Nat.add_comm, Nat.add_mul_mod_self_right, Nat.mod_eq_of_lt j.isLt]
  refine congrArg₂ (fun (a : Fin SWAP_BLOCKS_PER_PAGE) (b : Fin BSIZE) => f a b)
    (Fin.ext ?_) (Fin.ext ?_)
  · exact hdiv
  · exact hmod

/-- `memmove` of one block into the page at `pa+i*BSIZE`. -/
def setBlock (pg : Page) (i : Fin SWAP_BLOCKS_PER_PAGE) (b : Block) : Page :=
  ofBlocks (Function.update pg.block i b)

lemma block_setBlock (pg : Page) (i j : Fin SWAP_BLOCKS_PER_PAGE) (b : Block) :
    (pg.setBlock i b).block j = if j = i then b else pg.block j := by
  rw [setBlock, block_ofBlocks, Function.update_apply]

/-- `memmove` of bytes into a page from offset `off` on. -/
def write (pg : Page) (off : ℕ) (bytes : List UInt8) : Page := fun j =>
  if off ≤ j then bytes.getD (j - off) (pg j) else pg j

/-- The `n` bytes of a page from offset `off` on. -/
def read (pg : Page) (off n : ℕ) : List UInt8 :=
  (List.range n).map fun i => if h : off + i < PGSIZE then pg ⟨off + i, h⟩ else 0

lemma ext_block {a b : Page} (h : ∀ i, a.block i = b.block i) : a = b := by
  rw [← ofBlocks_block a, ← ofBlocks_block b, funext h]

end Page

end Xv6
