import Xv6.VM.Kalloc

/-!
# User address spaces

The functions of `kernel/vm.c` on user page tables: mapping and unmapping pages, growing and
shrinking an address space, copying one for `fork`, releasing one, and the copies between the kernel
and user memory with the page faults they take. The process that `myproc()` returns is an argument.

Functions that return `0` or `-1` in the source return `true` or `false`; those that return an
address or a size return a number, with `0` for the error.
-/

namespace Xv6.VM.Kernel

variable {σ : Type}

/-! ## Mapping and unmapping -/

/-- `walkaddr`. -/
def walkaddr (k : Kernel σ) (pagetable va : ℕ) : Except String ℕ :=
  if MAXVA ≤ va then .ok 0
  else do
    match ← k.walk pagetable va with
    | none => .ok 0
    | some pte =>
      if (k.pte pte).flags.v = false ∨ (k.pte pte).flags.u = false then .ok 0
      else .ok (k.pte pte).num

/-- The loop of `mappages`, with `n` pages to map. -/
def mapLoop (pagetable : ℕ) (perm : Flags) : ℕ → ℕ → ℕ → Kernel σ → Except String (Bool × Kernel σ)
  | 0, _, _, k => .ok (true, k)
  | n + 1, a, pa, k => do
    match ← k.walkAlloc pagetable a with
    | (none, k) => .ok (false, k)
    | (some pte, k) =>
      if (k.pte pte).flags.v then .error "mappages: remap"
      else mapLoop pagetable perm n (a + PGSIZE) (pa + 1) (k.setPte pte (.map pa perm))

/-- `mappages`. -/
def mappages (k : Kernel σ) (pagetable va size pa : ℕ) (perm : Flags) :
    Except String (Bool × Kernel σ) :=
  if va % PGSIZE ≠ 0 then .error "mappages: va not aligned"
  else if size % PGSIZE ≠ 0 then .error "mappages: size not aligned"
  else if size = 0 then .error "mappages: size"
  else mapLoop pagetable perm (size / PGSIZE) va pa k

/-- `uvmcreate`. -/
def uvmcreate (k : Kernel σ) : Option ℕ × Kernel σ :=
  match k.kalloc with
  | (none, k) => (none, k)
  | (some pg, k) => (some pg, k.zeroTable pg)

/-- One round of `uvmunmap`. -/
def unmapPage (pagetable : ℕ) (doFree : Bool) (k : Kernel σ) (a : ℕ) :
    Except String (Kernel σ) := do
  match ← k.walk pagetable a with
  | none => .ok k
  | some pte =>
    if (k.pte pte).flags.v = false ∧ (k.pte pte).flags.s = false then .ok k
    else if doFree = false then .ok (k.setPte pte {})
    else if (k.pte pte).flags.s then .ok ((k.setPte pte {}).freeSwapSlot (k.pte pte).num)
    else (k.setPte pte {}).kfreeUser (k.pte pte).num

/-- The loop of `uvmunmap`. -/
def unmapLoop (pagetable : ℕ) (doFree : Bool) : ℕ → ℕ → Kernel σ → Except String (Kernel σ)
  | 0, _, k => .ok k
  | n + 1, a, k => do
    let k ← k.unmapPage pagetable doFree a
    unmapLoop pagetable doFree n (a + PGSIZE) k

/-- `uvmunmap`. -/
def uvmunmap (k : Kernel σ) (pagetable va npages : ℕ) (doFree : Bool) : Except String (Kernel σ) :=
  if va % PGSIZE ≠ 0 then .error "uvmunmap: not aligned"
  else unmapLoop pagetable doFree npages va k

/-! ## Growing and shrinking -/

/-- `uvmdealloc`. -/
def uvmdealloc (k : Kernel σ) (pagetable oldsz newsz : ℕ) : Except String (ℕ × Kernel σ) :=
  if oldsz ≤ newsz then .ok (oldsz, k)
  else if pgroundup newsz < pgroundup oldsz then do
    let npages := (pgroundup oldsz - pgroundup newsz) / PGSIZE
    let k ← k.uvmunmap pagetable (pgroundup newsz) npages true
    pure (newsz, k)
  else .ok (newsz, k)

/-- The loop of `uvmalloc`, with `n` pages to allocate. -/
def uvmallocLoop (D : SwapDev σ) (p : ProcId) (pagetable oldsz : ℕ) (perm : Flags) :
    ℕ → ℕ → Kernel σ → Except String (Bool × Kernel σ)
  | 0, _, k => .ok (true, k)
  | n + 1, a, k => do
    let (mem, k) ← k.kallocUser D a p
    if mem = 0 then do
      let (_, k) ← k.uvmdealloc pagetable a oldsz
      pure (false, k)
    else do
      let k := k.setMem mem 0
      match ← k.mappages pagetable a PGSIZE mem perm with
      | (true, k) => uvmallocLoop D p pagetable oldsz perm n (a + PGSIZE) k
      | (false, k) => do
        let k ← k.kfreeUser mem
        let (_, k) ← k.uvmdealloc pagetable a oldsz
        pure (false, k)

/-- The number of pages at `a`, `a + PGSIZE`, ... below `sz`. -/
def pagesFrom (a sz : ℕ) : ℕ := (sz - a + PGSIZE - 1) / PGSIZE

/-- `uvmalloc`; the argument `xperm` has the permissions besides `PTE_R` and `PTE_U`. -/
def uvmalloc (D : SwapDev σ) (k : Kernel σ) (p : ProcId) (pagetable oldsz newsz : ℕ)
    (xperm : Flags) : Except String (ℕ × Kernel σ) :=
  if newsz < oldsz then .ok (oldsz, k)
  else do
    let a := pgroundup oldsz
    let perm := { xperm with r := true, u := true }
    match ← uvmallocLoop D p pagetable a perm (pagesFrom a newsz) a k with
    | (true, k) => pure (newsz, k)
    | (false, k) => pure (0, k)

/-! ## Releasing -/

/-- `freewalk`; `depth` bounds the levels of the table, which are three. -/
def freewalk : ℕ → Kernel σ → ℕ → Except String (Kernel σ)
  | 0, _, _ => .error "freewalk: too deep"
  | depth + 1, k, pagetable => do
    let k ← (List.range 512).foldlM
      (fun k i =>
        let pte := k.ptes pagetable i
        if pte.flags.v = true ∧ pte.flags.r = false ∧ pte.flags.w = false ∧ pte.flags.x = false
        then do
          let k ← freewalk depth k pte.num
          pure (k.setPte (pagetable, i) {})
        else if pte.flags.v then .error "freewalk: leaf"
        else pure k)
      k
    k.kfree pagetable

/-- `uvmfree`. -/
def uvmfree (k : Kernel σ) (pagetable sz : ℕ) : Except String (Kernel σ) := do
  let k ← (if 0 < sz then k.uvmunmap pagetable 0 (pgroundup sz / PGSIZE) true else pure k)
  let k ← freewalk 3 k pagetable
  pure (k.setOwner pagetable none)

/-- `uvmclear`. -/
def uvmclear (k : Kernel σ) (pagetable va : ℕ) : Except String (Kernel σ) := do
  match ← k.walk pagetable va with
  | none => .error "uvmclear"
  | some pte => pure (k.setPte pte (k.pte pte).clearU)

/-! ## Copying an address space -/

/-- `uvmcopy` of a swapped-out page: the page is copied from the slot of the parent to a new slot of
the child through a bounce buffer. -/
def copySwapped (D : SwapDev σ) (k : Kernel σ) (new i : ℕ) (np : ProcId) (pteVal : Pte) :
    Except String (Bool × Kernel σ) :=
  match k.takeSlot np with
  | none => .ok (false, k)
  | some (childIdx, k) =>
    match k.kalloc with
    | (none, k) => .ok (false, k.freeSwapSlot childIdx)
    | (some bounce, k) => do
      let k ← k.raidRead D pteVal.num bounce
      let k ← k.raidWrite D childIdx bounce
      let k ← k.kfree bounce
      match ← k.walkAlloc new i with
      | (none, k) => pure (false, k.freeSwapSlot childIdx)
      | (some childPte, k) =>
        let k := k.setPte childPte (.toSwap childIdx pteVal.flags)
        pure (true, k.count np fun s => { s with pagesSwappedOut := s.pagesSwappedOut + 1 })

/-- The frame `mem` of the child gets the bytes of the parent's page, from its frame or from its
slot. The result has the flags for the child's entry. -/
def fillFrame (D : SwapDev σ) (k : Kernel σ) (pteVal : Pte) (mem : ℕ) :
    Except String (Flags × Kernel σ) :=
  if pteVal.flags.v then pure (pteVal.flags, k.setMem mem (k.mem pteVal.num))
  else if pteVal.flags.s then do
    let k ← k.raidRead D pteVal.num mem
    pure ((Pte.toFrame mem pteVal.flags).flags, k)
  else pure (pteVal.flags, k)

/-- `uvmcopy` of a resident page, found through the entry `pte` of the parent. The allocation may
evict that very page, so the entry is read again. -/
def copyResident (D : SwapDev σ) (k : Kernel σ) (pte : ℕ × ℕ) (new i : ℕ) (np : ProcId) :
    Except String (Bool × Kernel σ) := do
  let (mem, k) ← k.kallocUser D i np
  if mem = 0 then pure (false, k)
  else do
    let (flags, k) ← k.fillFrame D (k.pte pte) mem
    match ← k.mappages new i PGSIZE mem flags with
    | (true, k) => pure (true, k)
    | (false, k) => do
      let k ← k.kfreeUser mem
      pure (false, k)

/-- One round of `uvmcopy`, for the page at `i`. -/
def copyPage (D : SwapDev σ) (k : Kernel σ) (old new i : ℕ) (np : ProcId) :
    Except String (Bool × Kernel σ) := do
  match ← k.walk old i with
  | none => pure (true, k)
  | some pte =>
    let pteVal := k.pte pte
    if pteVal.flags.v = false ∧ pteVal.flags.s = false then pure (true, k)
    else if pteVal.flags.s then k.copySwapped D new i np pteVal
    else k.copyResident D pte new i np

/-- The loop of `uvmcopy`, with `n` pages to copy. -/
def copyLoop (D : SwapDev σ) (old new : ℕ) (np : ProcId) :
    ℕ → ℕ → Kernel σ → Except String (Bool × Kernel σ)
  | 0, _, k => .ok (true, k)
  | n + 1, i, k => do
    match ← k.copyPage D old new i np with
    | (true, k) => copyLoop D old new np n (i + PGSIZE) k
    | (false, k) => do
      let k ← k.uvmunmap new 0 (i / PGSIZE) true
      pure (false, k)

/-- `uvmcopy`. -/
def uvmcopy (D : SwapDev σ) (k : Kernel σ) (old new sz : ℕ) (np : ProcId) :
    Except String (Bool × Kernel σ) :=
  copyLoop D old new np (pagesFrom 0 sz) 0 k

/-! ## Page faults -/

/-- `ismapped`. -/
def ismapped (k : Kernel σ) (pagetable va : ℕ) : Except String Bool := do
  match ← k.walk pagetable va with
  | none => pure false
  | some pte => pure (k.pte pte).flags.v

/-- `p->page_faults++`. -/
def countFault (k : Kernel σ) (p : ProcId) : Kernel σ :=
  k.count p fun s => { s with pageFaults := s.pageFaults + 1 }

/-- The part of `vmfault` that maps a page of zeros in the frame `pa`. -/
def mapZeros (k : Kernel σ) (p : ProcId) (va pa : ℕ) : Except String (ℕ × Kernel σ) := do
  let k := k.setMem pa 0
  match ← k.mappages (k.proc p).pagetable va PGSIZE pa { w := true, u := true, r := true } with
  | (true, k) => pure (pa, k.countFault p)
  | (false, k) => do
    let k ← k.kfreeUser pa
    pure (0, k)

/-- `vmfault` by the process `p`. -/
def vmfault (D : SwapDev σ) (k : Kernel σ) (p : ProcId) (pagetable va : ℕ) :
    Except String (ℕ × Kernel σ) :=
  if (k.proc p).sz ≤ va then .ok (0, k)
  else do
    let va := pgrounddown va
    if ← k.ismapped pagetable va then pure (0, k.countFault p)
    else do
      let pte ← k.walk pagetable va
      let (pa, k) ← k.kallocUser D va p
      if pa = 0 then pure (0, k)
      else
        match pte with
        | some q =>
          if (k.pte q).flags.s then do
            let k ← k.swapIn D p va pa
            pure (pa, k.countFault p)
          else k.mapZeros p va pa
        | none => k.mapZeros p va pa

/-! ## Copies between the kernel and user memory -/

/-- The lookup of `copyout` and `copyin`: the physical page of a user page, faulting it in if
necessary. -/
def userPa (D : SwapDev σ) (k : Kernel σ) (p : ProcId) (pagetable va0 : ℕ) :
    Except String (ℕ × Kernel σ) := do
  let pa0 ← k.walkaddr pagetable va0
  if pa0 = 0 then k.vmfault D p pagetable va0 else pure (pa0, k)

/-- `copyout`; `fuel` bounds the rounds by the number of bytes. -/
def copyoutLoop (D : SwapDev σ) (p : ProcId) (pagetable : ℕ) :
    ℕ → ℕ → List UInt8 → Kernel σ → Except String (Bool × Kernel σ)
  | 0, _, _, k => .ok (true, k)
  | fuel + 1, dstva, src, k =>
    if src = [] then .ok (true, k)
    else
      let va0 := pgrounddown dstva
      if MAXVA ≤ va0 then .ok (false, k)
      else do
        let (pa0, k) ← k.userPa D p pagetable va0
        if pa0 = 0 then pure (false, k)
        else do
          match ← k.walk pagetable va0 with
          | none => .error "copyout: no pte"
          | some pte =>
            -- forbid copyout over read-only user text pages
            if (k.pte pte).flags.w = false then pure (false, k)
            else
              let n := PGSIZE - (dstva - va0)
              let k := k.setMem pa0 ((k.mem pa0).write (dstva - va0) (src.take n))
              copyoutLoop D p pagetable fuel (va0 + PGSIZE) (src.drop n) k

/-- `copyout`. -/
def copyout (D : SwapDev σ) (k : Kernel σ) (p : ProcId) (pagetable dstva : ℕ) (src : List UInt8) :
    Except String (Bool × Kernel σ) :=
  copyoutLoop D p pagetable src.length dstva src k

/-- `copyin` of `len` bytes; `fuel` bounds the rounds. The bytes copied so far are `dst`. -/
def copyinLoop (D : SwapDev σ) (p : ProcId) (pagetable : ℕ) :
    ℕ → ℕ → ℕ → List UInt8 → Kernel σ → Except String (Option (List UInt8) × Kernel σ)
  | 0, _, _, dst, k => .ok (some dst, k)
  | fuel + 1, srcva, len, dst, k =>
    if len = 0 then .ok (some dst, k)
    else do
      let va0 := pgrounddown srcva
      let (pa0, k) ← k.userPa D p pagetable va0
      if pa0 = 0 then pure (none, k)
      else
        let n := min (PGSIZE - (srcva - va0)) len
        copyinLoop D p pagetable fuel (va0 + PGSIZE) (len - n)
          (dst ++ (k.mem pa0).read (srcva - va0) n) k

/-- `copyin`. -/
def copyin (D : SwapDev σ) (k : Kernel σ) (p : ProcId) (pagetable srcva len : ℕ) :
    Except String (Option (List UInt8) × Kernel σ) :=
  copyinLoop D p pagetable len srcva len [] k

end Xv6.VM.Kernel
