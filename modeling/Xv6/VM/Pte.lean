import Mathlib

/-!
# Page-table entries

A page-table entry is a number above ten flag bits (`kernel/riscv.h`). With `PTE_V` the number is
the page number of a physical page; this kernel adds `PTE_S`, with which the number is the index of
a swap slot.

The flags `G` and `D` and the second software bit are never read or set by the kernel and are not
part of the model.
-/

namespace Xv6.VM

/-- The flag bits of a page-table entry that the kernel uses. -/
structure Flags where
  /-- `PTE_V`: valid. -/
  v : Bool := false
  /-- `PTE_R`. -/
  r : Bool := false
  /-- `PTE_W`. -/
  w : Bool := false
  /-- `PTE_X`. -/
  x : Bool := false
  /-- `PTE_U`: the user can access the page. -/
  u : Bool := false
  /-- `PTE_A`: accessed. -/
  a : Bool := false
  /-- `PTE_S`: swapped out. -/
  s : Bool := false
  deriving DecidableEq, Repr

/-- A page-table entry. -/
structure Pte where
  /-- The physical page number, or the swap slot. -/
  num : ℕ := 0
  flags : Flags := {}
  deriving DecidableEq, Repr

namespace Pte

/-- `*pte & ~PTE_V`. -/
def clearV (pte : Pte) : Pte := { pte with flags := { pte.flags with v := false } }

/-- `*pte & ~PTE_A`. -/
def clearA (pte : Pte) : Pte := { pte with flags := { pte.flags with a := false } }

/-- `*pte & ~PTE_U`. -/
def clearU (pte : Pte) : Pte := { pte with flags := { pte.flags with u := false } }

/-- `(slot << 10) | (flags & ~PTE_V) | PTE_S`. -/
def toSwap (slot : ℕ) (flags : Flags) : Pte := ⟨slot, { flags with v := false, s := true }⟩

/-- `PA2PTE(pa) | (flags & ~PTE_S) | PTE_V`. -/
def toFrame (ppn : ℕ) (flags : Flags) : Pte := ⟨ppn, { flags with v := true, s := false }⟩

/-- `PA2PTE(pa) | perm | PTE_V`, as `mappages` writes it. -/
def map (ppn : ℕ) (perm : Flags) : Pte := ⟨ppn, { perm with v := true }⟩

/-- The flags that the masks `PTE_V`, `PTE_R` and so on select from a word. -/
def flagsOfWord (word : ℕ) : Flags where
  v := word.testBit 0
  r := word.testBit 1
  w := word.testBit 2
  x := word.testBit 3
  u := word.testBit 4
  a := word.testBit 6
  s := word.testBit 8

end Pte

end Xv6.VM
