import Xv6.Param
import Xv6.VM.Pte

/-!
# The memory-management state of the kernel

The state that `kernel/kalloc.c`, `kernel/vm.c`, `kernel/proc.c` and `kernel/exec.c` share: the free
list, the frame table with its clock hand, the swap table, the page tables and the process table.
Physical pages are named by their page number, with `0` for the null pointer; a physical page is
read as bytes (`Kernel.mem`) or, when it is a page-table page, as 512 entries (`Kernel.ptes`).

The functions of the kernel pass this state explicitly. A call that panics is an `Except.error` with
the message of the panic. A lock is represented only by the count `Kernel.noff` of spinlocks that
the CPU holds, which `sched` tests; the operations run one at a time.

The swap device is a parameter (`SwapDev`). `SwapDev.Lawful` is the assumption that a slot returns
the page last written to it.
-/

namespace Xv6.VM

open Function

/-! ## The address space -/

/-- The number of frames of `kernel/kalloc.c`. -/
abbrev NUM_FRAMES : ℕ := 64

instance : NeZero NUM_FRAMES := ⟨by decide⟩

/-- One beyond the highest virtual address that the kernel uses. -/
def MAXVA : ℕ := 2 ^ 38

/-- The trampoline page, at the highest user virtual address. -/
def TRAMPOLINE : ℕ := MAXVA - PGSIZE

/-- The trapframe page, just below the trampoline. -/
def TRAPFRAME : ℕ := TRAMPOLINE - PGSIZE

/-- One beyond the last physical page, `PHYSTOP / PGSIZE`. -/
def PHYSTOP_PAGE : ℕ := 0x88000

/-- `PGROUNDUP(sz)`. -/
def pgroundup (sz : ℕ) : ℕ := (sz + PGSIZE - 1) / PGSIZE * PGSIZE

/-- `PGROUNDDOWN(a)`. -/
def pgrounddown (a : ℕ) : ℕ := a / PGSIZE * PGSIZE

/-- `PX(level, va)`: the index into the page-table page of a level. -/
def px (level va : ℕ) : ℕ := va / 2 ^ (12 + 9 * level) % 512

/-! ## Frames, swap slots and processes -/

/-- An entry of the process table. -/
abbrev ProcId : Type := Fin NPROC

/-- The values `0`, `1` and `2` of `in_use` of a frame. -/
inductive FrameState where
  | free
  | used
  | pinned
  deriving DecidableEq, Repr

/-- `struct frame`. -/
structure Frame where
  inUse : FrameState := .free
  p : Option ProcId := none
  va : ℕ := 0
  /-- The page number of the frame. -/
  pa : ℕ := 0
  ref : Bool := false
  deriving DecidableEq, Repr

/-- `struct swapslot`. -/
structure SwapSlot where
  inUse : Bool := false
  p : Option ProcId := none
  deriving DecidableEq, Repr

/-- `enum procstate`. -/
inductive ProcState where
  | unused
  | used
  | sleeping
  | runnable
  | running
  | zombie
  deriving DecidableEq, Repr

lemma ne_unused {st : ProcState} (h : st = .running) : st ≠ .unused := by simp [h]

/-- The state of a process that the scheduler deals with. -/
def ProcState.Active (s : ProcState) : Prop := s = .sleeping ∨ s = .runnable ∨ s = .running
  deriving Decidable

/-- The registers of `struct trapframe` that the kernel sets. -/
structure Trapframe where
  epc : ℕ := 0
  sp : ℕ := 0
  a0 : ℕ := 0
  a1 : ℕ := 0
  deriving DecidableEq, Repr

/-- The fields of `struct proc` that concern memory and the life of the process. -/
structure Proc where
  state : ProcState := .unused
  pid : ℕ := 0
  parent : Option ProcId := none
  xstate : ℤ := 0
  level : ℤ := 0
  sz : ℕ := 0
  /-- The page number of the root of the page table. -/
  pagetable : ℕ := 0
  /-- The page number of the trapframe. -/
  trapframe : ℕ := 0
  /-- The contents of the trapframe. -/
  regs : Trapframe := {}
  deriving DecidableEq, Repr

/-- The paging statistics of `struct proc`. -/
structure VmStats where
  pageFaults : ℤ := 0
  pagesEvicted : ℤ := 0
  pagesSwappedIn : ℤ := 0
  pagesSwappedOut : ℤ := 0
  residentPages : ℤ := 0
  deriving DecidableEq, Repr

/-- The state of the kernel; `σ` is the state of the swap device. -/
structure Kernel (σ : Type) where
  frametable : Fin NUM_FRAMES → Frame
  clockHand : Fin NUM_FRAMES
  swaptable : ℕ → SwapSlot
  /-- `kmem.freelist`. -/
  freelist : List ℕ
  /-- The pages that `kinit` put on the free list. They do not change, and the code does not keep
  them. -/
  managed : List ℕ
  /-- The first page after the kernel, `end`. -/
  kernelEnd : ℕ
  /-- The bytes of the physical pages. -/
  mem : ℕ → Page
  /-- The physical pages read as page-table pages. -/
  ptes : ℕ → ℕ → Pte
  proc : ProcId → Proc
  stats : ProcId → VmStats
  nextpid : ℕ
  initproc : Option ProcId
  /-- The process for which the page table rooted at a page was made. The code does not keep it;
  it is only used to speak about page tables that no process has yet. -/
  owner : ℕ → Option ProcId
  /-- `mycpu()->noff`. -/
  noff : ℕ
  dev : σ

/-! ## The swap device -/

/-- A swap device: `raid_write_page` and `raid_read_page`, called with `noff` spinlocks held. -/
structure SwapDev (σ : Type) where
  /-- Write a page to a slot. -/
  write : (noff slot : ℕ) → Page → σ → Except String σ
  /-- Read a slot into a page, given what the page held before. -/
  read : (noff slot : ℕ) → Page → σ → Except String (Page × σ)
  /-- What a read of a slot returns. -/
  stored : σ → ℕ → Page

/-- A slot returns the page last written to it, and other slots are left alone. -/
structure SwapDev.Lawful {σ : Type} (D : SwapDev σ) : Prop where
  write_stored : ∀ {noff slot pg s s'}, slot < MAX_SWAP_PAGES → D.write noff slot pg s = .ok s' →
    D.stored s' = update (D.stored s) slot pg
  read_eq : ∀ {noff slot old s pg s'}, slot < MAX_SWAP_PAGES →
    D.read noff slot old s = .ok (pg, s') → pg = D.stored s slot ∧ D.stored s' = D.stored s

/-! ## Elementary updates -/

namespace Kernel

variable {σ : Type}

/-- `acquire`, as far as `noff` is concerned. -/
def acquire (k : Kernel σ) : Kernel σ := { k with noff := k.noff + 1 }

/-- `release`, as far as `noff` is concerned. -/
def release (k : Kernel σ) : Kernel σ := { k with noff := k.noff - 1 }

/-- Store the bytes of a physical page. -/
def setMem (k : Kernel σ) (pa : ℕ) (pg : Page) : Kernel σ :=
  { k with mem := update k.mem pa pg }

/-- `memset(pagetable, 0, PGSIZE)`. -/
def zeroTable (k : Kernel σ) (pg : ℕ) : Kernel σ :=
  { k with ptes := update k.ptes pg fun _ => {} }

/-- Read `*pte`, where `pte` points at an entry of a page-table page. -/
def pte (k : Kernel σ) (q : ℕ × ℕ) : Pte := k.ptes q.1 q.2

/-- Store through a `pte_t *`. -/
def setPte (k : Kernel σ) (q : ℕ × ℕ) (e : Pte) : Kernel σ :=
  { k with ptes := update k.ptes q.1 (update (k.ptes q.1) q.2 e) }

/-- Store into the frame table. -/
def setFrame (k : Kernel σ) (i : Fin NUM_FRAMES) (f : Frame) : Kernel σ :=
  { k with frametable := update k.frametable i f }

/-- Store into the swap table. -/
def setSlot (k : Kernel σ) (j : ℕ) (s : SwapSlot) : Kernel σ :=
  { k with swaptable := update k.swaptable j s }

/-- Store into the process table. -/
def setProc (k : Kernel σ) (p : ProcId) (pr : Proc) : Kernel σ :=
  { k with proc := update k.proc p pr }

/-- Change the statistics of a process. -/
def count (k : Kernel σ) (p : ProcId) (f : VmStats → VmStats) : Kernel σ :=
  { k with stats := update k.stats p (f (k.stats p)) }

/-- Record for which process a page table is made. -/
def setOwner (k : Kernel σ) (r : ℕ) (p : Option ProcId) : Kernel σ :=
  { k with owner := update k.owner r p }

/-- `raid_write_page` of the page at `pa`. -/
def raidWrite (D : SwapDev σ) (k : Kernel σ) (slot pa : ℕ) : Except String (Kernel σ) := do
  let dev ← D.write k.noff slot (k.mem pa) k.dev
  pure { k with dev := dev }

/-- `raid_read_page` into the page at `pa`. -/
def raidRead (D : SwapDev σ) (k : Kernel σ) (slot pa : ℕ) : Except String (Kernel σ) := do
  let (pg, dev) ← D.read k.noff slot (k.mem pa) k.dev
  pure ({ k with dev := dev }.setMem pa pg)

end Kernel

end Xv6.VM
