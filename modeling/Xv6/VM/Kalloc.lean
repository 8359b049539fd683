import Xv6.VM.State
import Xv6.Raid.ModeChange

/-!
# Page allocation, frames and eviction

The functions of `kernel/kalloc.c`: `kalloc` and `kfree` on the free list of physical pages, and
`kalloc_user` and `kfree_user` on the table of 64 frames for user pages, with the clock algorithm
(`get_victim`) and the transfers to and from the swap slots (`swap_out`, `swap_in`). `walk` of
`kernel/vm.c`, through which these functions reach a page-table entry, comes first.
-/

namespace Xv6.VM.Kernel

open Raid

variable {σ : Type}

/-! ## The free list -/

/-- `kalloc`. -/
def kalloc (k : Kernel σ) : Option ℕ × Kernel σ :=
  match k.freelist with
  | [] => (none, k)
  | pg :: rest => (some pg, { k with freelist := rest }.setMem pg (Page.fill 5))

/-- `kfree`. -/
def kfree (k : Kernel σ) (pa : ℕ) : Except String (Kernel σ) :=
  if pa < k.kernelEnd ∨ PHYSTOP_PAGE ≤ pa then .error "kfree"
  else .ok ({ k with freelist := pa :: k.freelist }.setMem pa (Page.fill 1))

/-! ## Page-table lookup -/

/-- The page-table page that a valid entry of a page-table page points at. -/
def child (k : Kernel σ) (pg i : ℕ) : Option ℕ :=
  if (k.ptes pg i).flags.v then some (k.ptes pg i).num else none

/-- `walk` with `alloc = 0`. -/
def walk (k : Kernel σ) (pagetable va : ℕ) : Except String (Option (ℕ × ℕ)) :=
  if MAXVA ≤ va then .error "walk"
  else .ok <|
    match k.child pagetable (px 2 va) with
    | none => none
    | some l1 =>
      match k.child l1 (px 1 va) with
      | none => none
      | some l0 => some (l0, px 0 va)

/-- One level of `walk` with `alloc = 1`: follow the entry, or make it point at a new page. -/
def walkLevel (k : Kernel σ) (pagetable i : ℕ) : Option ℕ × Kernel σ :=
  match k.child pagetable i with
  | some pg => (some pg, k)
  | none =>
    match k.kalloc with
    | (none, k) => (none, k)
    | (some pg, k) => (some pg, (k.zeroTable pg).setPte (pagetable, i) ⟨pg, { v := true }⟩)

/-- `walk` with `alloc = 1`. -/
def walkAlloc (k : Kernel σ) (pagetable va : ℕ) : Except String (Option (ℕ × ℕ) × Kernel σ) :=
  if MAXVA ≤ va then .error "walk"
  else .ok <|
    match k.walkLevel pagetable (px 2 va) with
    | (none, k) => (none, k)
    | (some l1, k) =>
      match k.walkLevel l1 (px 1 va) with
      | (none, k) => (none, k)
      | (some l0, k) => (some (l0, px 0 va), k)

/-! ## Swap slots -/

/-- The search for a free slot under `swaplock`, which takes the slot for `p`. -/
def takeSlot (k : Kernel σ) (p : ProcId) : Option (ℕ × Kernel σ) :=
  (findFreeSlot fun j => (k.swaptable j).inUse).map fun slot =>
    (slot, k.setSlot slot { inUse := true, p := some p })

/-- `free_swap_slot`. -/
def freeSwapSlot (k : Kernel σ) (idx : ℕ) : Kernel σ :=
  if MAX_SWAP_PAGES ≤ idx then k
  else if (k.swaptable idx).inUse = false then k
  else k.setSlot idx {}

/-- `free_proc_swap`. -/
def freeProcSwap (k : Kernel σ) (p : ProcId) : Kernel σ :=
  { k with swaptable := fun j =>
      if j < MAX_SWAP_PAGES ∧ (k.swaptable j).inUse = true ∧ (k.swaptable j).p = some p then {}
      else k.swaptable j }

/-- `swap_out`: the page at `victimPa`, mapped by the entry `pte` of `victimP`, goes to a slot. -/
def swapOut (D : SwapDev σ) (k : Kernel σ) (victimP : ProcId) (pte : ℕ × ℕ) (victimPa : ℕ) :
    Except String (Kernel σ) :=
  match k.takeSlot victimP with
  | none => .error "swap space full"
  | some (slot, k) =>
    let k := k.setPte pte (.toSwap slot (k.pte pte).flags)
    let k := k.count victimP fun s =>
      { s with
        residentPages := s.residentPages - 1
        pagesEvicted := s.pagesEvicted + 1
        pagesSwappedOut := s.pagesSwappedOut + 1 }
    k.raidWrite D slot victimPa

/-- `swap_in`: the page of `p` at `va` comes back into the frame `newPa`. -/
def swapIn (D : SwapDev σ) (k : Kernel σ) (p : ProcId) (va newPa : ℕ) :
    Except String (Kernel σ) := do
  match ← k.walk (k.proc p).pagetable va with
  | none => .error "swap_in_page: no pte"
  | some pte =>
    let slot := (k.pte pte).num
    if MAX_SWAP_PAGES ≤ slot then .error "swap_in_page: invalid index"
    else do
      let k ← k.raidRead D slot newPa
      let k := k.freeSwapSlot slot
      let k := k.setPte pte (.toFrame newPa (k.pte pte).flags)
      pure (k.count p fun s => { s with pagesSwappedIn := s.pagesSwappedIn + 1 })

/-! ## The clock algorithm -/

/-- The process of a frame may lose pages to eviction: it is not `init` or the shell. -/
def Evictee (k : Kernel σ) (p : ProcId) : Prop := (k.proc p).pid ≠ 1 ∧ (k.proc p).pid ≠ 2
  deriving Decidable

/-- The first loop of `get_victim`: the lowest priority of a process with a frame. -/
def lowPri (k : Kernel σ) : ℤ :=
  (List.finRange NUM_FRAMES).foldl
    (fun low i =>
      match (k.frametable i).p with
      | none => low
      | some p =>
        if (k.frametable i).inUse ≠ .free ∧ k.Evictee p ∧ low < (k.proc p).level then
          (k.proc p).level
        else low)
    (-1)

/-- What `get_victim` does with a frame whose page is resident: a page accessed or referenced since
the last visit gets a second chance. -/
def secondChance (k : Kernel σ) (i : Fin NUM_FRAMES) (pte : ℕ × ℕ) : Bool × Kernel σ :=
  let f := k.frametable i
  let accessed := (k.pte pte).flags.a
  let k := if accessed then k.setPte pte (k.pte pte).clearA else k
  if accessed = true ∨ f.ref = true then (false, k.setFrame i { f with ref := false })
  else (true, k)

/-- One round of a loop of `get_victim` on the frame `i`; `level` is the level that the process must
have in the first of the two loops. The result is whether the frame is the victim. -/
def inspect (level : Option ℤ) (k : Kernel σ) (i : Fin NUM_FRAMES) :
    Except String (Bool × Kernel σ) :=
  let f := k.frametable i
  match f.p with
  | none => .ok (false, k)
  | some p =>
    if f.inUse = .used ∧ (k.proc p).pagetable ≠ 0 ∧ k.Evictee p ∧
        (∀ l ∈ level, (k.proc p).level = l) then do
      match ← k.walk (k.proc p).pagetable f.va with
      | none => .ok (false, k)
      | some pte =>
        if (k.pte pte).flags.v = true ∧ (k.pte pte).num = f.pa then .ok (k.secondChance i pte)
        else .ok (false, k)
    else .ok (false, k)

/-- A loop of `get_victim` with `n` frames left to scan. -/
def clockLoop (level : Option ℤ) : ℕ → Kernel σ → Except String (Option (Fin NUM_FRAMES) × Kernel σ)
  | 0, k => .ok (none, k)
  | n + 1, k => do
    let idx := k.clockHand
    let (found, k) ← { k with clockHand := idx + 1 }.inspect level idx
    if found then .ok (some idx, k) else clockLoop level n k

/-- `get_victim`. -/
def getVictim (k : Kernel σ) : Except String (Fin NUM_FRAMES × Kernel σ) :=
  if k.lowPri = -1 then .error "get_victim: no valid frames to evict"
  else do
    match ← k.clockLoop (some k.lowPri) (NUM_FRAMES * 2) with
    | (some idx, k) => .ok (idx, k)
    | (none, k) =>
      match ← k.clockLoop none (NUM_FRAMES * 2) with
      | (some idx, k) => .ok (idx, k)
      | (none, _) => .error "get_victim: no victim found"

/-! ## User frames -/

/-- The loop of `kalloc_user` that picks a victim: ask `get_victim` until the frame it returns is
still mapped by its process. `fuel` bounds the rounds. The result is the frame, its process and the
entry that maps it, with `PTE_V` cleared and the frame pinned. -/
def pickVictim : ℕ → Kernel σ → Except String ((Fin NUM_FRAMES × ProcId × (ℕ × ℕ)) × Kernel σ)
  | 0, _ => .error "kalloc_user: no victim"
  | fuel + 1, k => do
    let (slot, k) ← k.getVictim
    let f := k.frametable slot
    match f.p with
    | none => pickVictim fuel k
    | some victimP =>
      if (k.proc victimP).pagetable = 0 ∨ f.pa = 0 then pickVictim fuel k
      else do
        match ← k.walk (k.proc victimP).pagetable f.va with
        | none => pickVictim fuel k
        | some pte =>
          if (k.pte pte).flags.v = false ∨ (k.pte pte).num ≠ f.pa then pickVictim fuel k
          else
            let k := k.setPte pte (k.pte pte).clearV
            .ok ((slot, victimP, pte), k.setFrame slot { f with inUse := .pinned })

/-- The frame-table entry that `kalloc_user` makes. -/
def userFrame (va : ℕ) (p : ProcId) (pa : ℕ) : Frame :=
  { inUse := .used, p := some p, va := pgrounddown va, pa := pa, ref := true }

/-- `p->resident_pages++`. -/
def countResident (k : Kernel σ) (p : ProcId) : Kernel σ :=
  k.count p fun s => { s with residentPages := s.residentPages + 1 }

/-- `kalloc_user` when it evicts. The lock of the frame table is not held during `swap_out`. The
entry that `get_victim` returns is still mapped, so one round picks the victim. -/
def evictFor (D : SwapDev σ) (k : Kernel σ) (va : ℕ) (p : ProcId) :
    Except String (ℕ × Kernel σ) := do
  let ((slot, victimP, pte), k) ← k.acquire.pickVictim 1
  let pa := (k.frametable slot).pa
  let k ← k.release.swapOut D victimP pte pa
  let k := k.setMem pa (Page.fill 5)
  let k := (k.acquire.setFrame slot (userFrame va p pa)).countResident p
  pure (pa, k.release)

/-- `kalloc_user`: a frame for the page at `va` of `p`. -/
def kallocUser (D : SwapDev σ) (k : Kernel σ) (va : ℕ) (p : ProcId) :
    Except String (ℕ × Kernel σ) :=
  match (List.finRange NUM_FRAMES).find? fun i => (k.frametable i).inUse = .free with
  | none => k.evictFor D va p
  | some slot =>
    match k.kalloc with
    | (none, k) => k.evictFor D va p
    | (some pa, k) => .ok (pa, (k.setFrame slot (userFrame va p pa)).countResident p)

/-- `kfree_user`. -/
def kfreeUser (k : Kernel σ) (pa : ℕ) : Except String (Kernel σ) :=
  match (List.finRange NUM_FRAMES).find? fun i =>
      (k.frametable i).inUse ≠ .free ∧ (k.frametable i).pa = pa with
  | none => k.kfree pa
  | some i =>
    if (k.frametable i).inUse = .pinned then .ok k
    else
      let k' := k.setFrame i {}
      match (k.frametable i).p with
      | none => k'.kfree pa
      | some p =>
        (k'.count p fun s => { s with residentPages := s.residentPages - 1 }).kfree pa

end Xv6.VM.Kernel
