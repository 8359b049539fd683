import Xv6.VM.Vm

/-!
# Processes and their memory

The parts of `kernel/proc.c`, `kernel/sysproc.c` and `kernel/exec.c` that create, replace, resize
and release address spaces: `allocproc`, `freeproc`, `kfork`, `kexit`, `kwait`, `growproc`,
`sys_sbrk` and `kexec`, and the loads and stores of user code. Files, directories, names and the
saved kernel context of a process are not part of the model; the file that `kexec` opens is an
argument.
-/

namespace Xv6.VM

/-! ## Executable files -/

/-- The contents of an inode. -/
structure File where
  size : ℕ
  data : ℕ → UInt8

/-- `readi` into kernel memory, with the 32-bit arithmetic of its arguments: the bytes it copies. -/
def File.readi (ip : File) (off n : ℕ) : List UInt8 :=
  if ip.size < off ∨ (off + n) % 2 ^ 32 < off then []
  else (List.range (if ip.size < off + n then ip.size - off else n)).map fun i => ip.data (off + i)

/-- The little-endian number of `n` bytes at an offset. -/
def le (bytes : List UInt8) (off n : ℕ) : ℕ :=
  (List.range n).foldr (fun i acc => (bytes.getD (off + i) 0).toNat + 256 * acc) 0

/-- The `n` bytes of a number, little-endian. -/
def toBytes (n x : ℕ) : List UInt8 := (List.range n).map fun i => UInt8.ofNat (x / 256 ^ i)

/-- `ELF_MAGIC`. -/
def ELF_MAGIC : ℕ := 0x464C457F

/-- The fields of `struct elfhdr` that `kexec` reads. -/
structure ElfHdr where
  magic : ℕ
  entry : ℕ
  phoff : ℕ
  phnum : ℕ
  deriving DecidableEq, Repr

/-- `sizeof(struct elfhdr)`. -/
def ELFHDR_SIZE : ℕ := 64

/-- The layout of `struct elfhdr`. -/
def ElfHdr.ofBytes (bytes : List UInt8) : ElfHdr where
  magic := le bytes 0 4
  entry := le bytes 24 8
  phoff := le bytes 32 8
  phnum := le bytes 56 2

/-- The fields of `struct proghdr` that `kexec` reads. -/
structure ProgHdr where
  type : ℕ
  flags : ℕ
  off : ℕ
  vaddr : ℕ
  filesz : ℕ
  memsz : ℕ
  deriving DecidableEq, Repr

/-- `sizeof(struct proghdr)`. -/
def PROGHDR_SIZE : ℕ := 56

/-- The layout of `struct proghdr`. -/
def ProgHdr.ofBytes (bytes : List UInt8) : ProgHdr where
  type := le bytes 0 4
  flags := le bytes 4 4
  off := le bytes 8 8
  vaddr := le bytes 16 8
  filesz := le bytes 32 8
  memsz := le bytes 40 8

/-- The value of `type` of a segment to load. -/
def ELF_PROG_LOAD : ℕ := 1

/-- `flags2perm`. -/
def flags2perm (flags : ℕ) : Flags := { x := flags.testBit 0, w := flags.testBit 1 }

/-- Pages of the user stack. -/
def USERSTACK : ℕ := 1

/-- Maximum number of arguments of `exec`. -/
def MAXARG : ℕ := 32

/-- Subtraction of 64-bit numbers. -/
def sub64 (a b : ℕ) : ℕ := (a + 2 ^ 64 - b % 2 ^ 64) % 2 ^ 64

namespace Kernel

variable {σ : Type}

/-! ## Page tables of processes -/

/-- `proc_pagetable`; `trampoline` is the page of the trampoline code. -/
def procPagetable (trampoline : ℕ) (k : Kernel σ) (p : ProcId) :
    Except String (Option ℕ × Kernel σ) :=
  match k.uvmcreate with
  | (none, k) => .ok (none, k)
  | (some pagetable, k) => do
    let k := k.setOwner pagetable (some p)
    match ← k.mappages pagetable TRAMPOLINE PGSIZE trampoline { r := true, x := true } with
    | (false, k) => do
      let k ← k.uvmfree pagetable 0
      pure (none, k)
    | (true, k) =>
      match ← k.mappages pagetable TRAPFRAME PGSIZE (k.proc p).trapframe { r := true, w := true }
      with
      | (false, k) => do
        let k ← k.uvmunmap pagetable TRAMPOLINE 1 false
        let k ← k.uvmfree pagetable 0
        pure (none, k)
      | (true, k) => pure (some pagetable, k)

/-- `proc_freepagetable`. -/
def procFreepagetable (k : Kernel σ) (pagetable sz : ℕ) : Except String (Kernel σ) := do
  let k ← k.uvmunmap pagetable TRAMPOLINE 1 false
  let k ← k.uvmunmap pagetable TRAPFRAME 1 false
  k.uvmfree pagetable sz

/-- `freeproc`. -/
def freeproc (k : Kernel σ) (p : ProcId) : Except String (Kernel σ) := do
  let k ← (if (k.proc p).trapframe ≠ 0 then k.kfree (k.proc p).trapframe else pure k)
  let k := k.setProc p { k.proc p with trapframe := 0 }
  let k ←
    (if (k.proc p).pagetable ≠ 0 then k.procFreepagetable (k.proc p).pagetable (k.proc p).sz
    else pure k)
  let k := k.setProc p {}
  let k := k.freeProcSwap p
  pure (k.count p fun _ => {})

/-- The part of `allocproc` under the label `found`: take the entry `p`, whose lock is held. -/
def takeProc (k : Kernel σ) (p : ProcId) : Kernel σ :=
  let k := k.acquire
  let k := k.setProc p { k.proc p with pid := k.nextpid, state := .used, level := 0 }
  { k with nextpid := k.nextpid + 1 }.count p fun _ => {}

/-- `allocproc`. It returns with the lock of the new process held. -/
def allocproc (trampoline : ℕ) (k : Kernel σ) : Except String (Option ProcId × Kernel σ) :=
  match (List.finRange NPROC).find? fun p => (k.proc p).state = .unused with
  | none => .ok (none, k)
  | some p =>
    let k := k.takeProc p
    match k.kalloc with
    | (none, k) => do
      let k ← (k.setProc p { k.proc p with trapframe := 0 }).freeproc p
      pure (none, k.release)
    | (some pg, k) => do
      let k := k.setProc p { k.proc p with trapframe := pg }
      match ← k.procPagetable trampoline p with
      | (none, k) => do
        let k ← k.freeproc p
        pure (none, k.release)
      | (some pagetable, k) =>
        pure (some p, k.setProc p { k.proc p with pagetable := pagetable })

/-- `userinit`. -/
def userinit (trampoline : ℕ) (k : Kernel σ) : Except String (Kernel σ) := do
  match ← k.allocproc trampoline with
  | (none, _) => .error "userinit"
  | (some p, k) =>
    let k := { k with initproc := some p }
    pure (k.setProc p { k.proc p with state := .runnable }).release

/-! ## Growing and shrinking a process -/

/-- `growproc`. -/
def growproc (D : SwapDev σ) (k : Kernel σ) (p : ProcId) (n : ℤ) :
    Except String (Bool × Kernel σ) :=
  let sz := (k.proc p).sz
  if 0 < n then
    if TRAPFRAME < sz + n.toNat then .ok (false, k)
    else do
      let (sz, k) ← k.uvmalloc D p (k.proc p).pagetable sz (sz + n.toNat) { w := true }
      if sz = 0 then pure (false, k)
      else pure (true, k.setProc p { k.proc p with sz := sz })
  else if n < 0 then do
    let (sz, k) ← k.uvmdealloc (k.proc p).pagetable sz (sub64 sz n.natAbs)
    pure (true, k.setProc p { k.proc p with sz := sz })
  else .ok (true, k)

/-- `sys_sbrk` by `p`: `lazy` if the mode argument is not `SBRK_EAGER`. -/
def sysSbrk (D : SwapDev σ) (k : Kernel σ) (p : ProcId) (n : ℤ) (lazy : Bool) :
    Except String (Bool × Kernel σ) :=
  if lazy = false ∨ n < 0 then k.growproc D p n
  else
    let addr := (k.proc p).sz
    if (addr + n.toNat) % 2 ^ 64 < addr then .ok (false, k)
    else if TRAPFRAME < addr + n.toNat then .ok (false, k)
    else .ok (true, k.setProc p { k.proc p with sz := addr + n.toNat })

/-! ## Creation, exit and reaping -/

/-- `kfork` by `p`, which returns the process id of the child. The lock of the child is held while
its memory is copied. -/
def kfork (D : SwapDev σ) (trampoline : ℕ) (k : Kernel σ) (p : ProcId) :
    Except String (Option ProcId × Kernel σ) := do
  match ← k.allocproc trampoline with
  | (none, k) => pure (none, k)
  | (some np, k) =>
    match ← k.uvmcopy D (k.proc p).pagetable (k.proc np).pagetable (k.proc p).sz np with
    | (false, k) => do
      let k ← k.freeproc np
      pure (none, k.release)
    | (true, k) =>
      let k := k.setProc np
        { k.proc np with sz := (k.proc p).sz, regs := { (k.proc p).regs with a0 := 0 } }
      let k := k.release
      let k := k.setProc np { k.proc np with parent := some p }
      pure (some np, k.setProc np { k.proc np with state := .runnable })

/-- `reparent`. -/
def reparent (k : Kernel σ) (p : ProcId) : Kernel σ :=
  { k with proc := fun pp =>
      if (k.proc pp).parent = some p then { k.proc pp with parent := k.initproc } else k.proc pp }

/-- `kexit`. -/
def kexit (k : Kernel σ) (p : ProcId) (status : ℤ) : Except String (Kernel σ) :=
  if k.initproc = some p then .error "init exiting"
  else
    let k := k.reparent p
    .ok (k.setProc p { k.proc p with xstate := status, state := .zombie })

/-- The exited child of `p` that `kwait` finds first. -/
def zombieChild (k : Kernel σ) (p : ProcId) : Option ProcId :=
  (List.finRange NPROC).find? fun pp => (k.proc pp).parent = some p ∧ (k.proc pp).state = .zombie

/-- A `kwait` of `p` that finds an exited child. `wait_lock` and the lock of the child are held
while the exit status is copied out. The result is the process id of the child. -/
def kwait (D : SwapDev σ) (k : Kernel σ) (p : ProcId) (addr : ℕ) :
    Except String (Option ℕ × Kernel σ) :=
  match k.zombieChild p with
  | none => .ok (none, k)
  | some pp => do
    let k := k.acquire.acquire
    let pid := (k.proc pp).pid
    let (copied, k) ←
      (if addr ≠ 0 then
        k.copyout D p (k.proc p).pagetable addr (toBytes 4 ((k.proc pp).xstate % 2 ^ 32).toNat)
      else pure (true, k))
    if copied then do
      let k ← k.freeproc pp
      pure (some pid, k.release.release)
    else pure (none, k.release.release)

/-! ## Replacing the image of a process -/

/-- The loop of `loadseg`, with `n` pages to load; `sz` is what is left of the segment. -/
def loadsegLoop (pagetable : ℕ) (ip : File) :
    ℕ → ℕ → ℕ → ℕ → Kernel σ → Except String (Bool × Kernel σ)
  | 0, _, _, _, k => .ok (true, k)
  | m + 1, va, offset, sz, k => do
    let pa ← k.walkaddr pagetable va
    if pa = 0 then .error "loadseg: address should exist"
    else
      let n := if sz < PGSIZE then sz else PGSIZE
      let bytes := ip.readi (offset % 2 ^ 32) n
      let k := k.setMem pa ((k.mem pa).write 0 bytes)
      if bytes.length ≠ n then .ok (false, k)
      else loadsegLoop pagetable ip m (va + PGSIZE) (offset + PGSIZE) (sz - PGSIZE) k

/-- `loadseg`, whose last two parameters are 32-bit. -/
def loadseg (k : Kernel σ) (pagetable va : ℕ) (ip : File) (offset sz : ℕ) :
    Except String (Bool × Kernel σ) :=
  let sz := sz % 2 ^ 32
  loadsegLoop pagetable ip (pagesFrom 0 sz) va (offset % 2 ^ 32) sz k

/-- One round of the loop of `kexec` over the program headers: whether to go on, and the new
size. -/
def loadHeader (D : SwapDev σ) (k : Kernel σ) (p : ProcId) (ip : File) (pagetable off sz : ℕ) :
    Except String ((Bool × ℕ) × Kernel σ) :=
  let bytes := ip.readi off PROGHDR_SIZE
  if bytes.length ≠ PROGHDR_SIZE then .ok ((false, sz), k)
  else
    let ph := ProgHdr.ofBytes bytes
    if ph.type ≠ ELF_PROG_LOAD then .ok ((true, sz), k)
    else if ph.memsz < ph.filesz then .ok ((false, sz), k)
    else if (ph.vaddr + ph.memsz) % 2 ^ 64 < ph.vaddr then .ok ((false, sz), k)
    else if ph.vaddr % PGSIZE ≠ 0 then .ok ((false, sz), k)
    else do
      let (sz1, k) ← k.uvmalloc D p pagetable sz (ph.vaddr + ph.memsz) (flags2perm ph.flags)
      if sz1 = 0 then pure ((false, sz), k)
      else do
        let (ok, k) ← k.loadseg pagetable ph.vaddr ip ph.off ph.filesz
        pure ((ok, sz1), k)

/-- The loop of `kexec` over the program headers, with `n` headers left. -/
def loadHeaders (D : SwapDev σ) (p : ProcId) (ip : File) (pagetable : ℕ) :
    ℕ → ℕ → ℕ → Kernel σ → Except String ((Bool × ℕ) × Kernel σ)
  | 0, _, sz, k => .ok ((true, sz), k)
  | n + 1, off, sz, k => do
    match ← k.loadHeader D p ip pagetable off sz with
    | ((false, sz), k) => pure ((false, sz), k)
    | ((true, sz), k) => loadHeaders D p ip pagetable n ((off + PROGHDR_SIZE) % 2 ^ 32) sz k

/-- The loop of `kexec` over the arguments: the stack pointer and the addresses of the strings, or
`none` if they do not fit. -/
def pushArgs (D : SwapDev σ) (p : ProcId) (pagetable stackbase : ℕ) :
    List (List UInt8) → ℕ → List ℕ → Kernel σ →
      Except String (Option (ℕ × List ℕ) × Kernel σ)
  | [], sp, ustack, k => .ok (some (sp, ustack), k)
  | arg :: argv, sp, ustack, k =>
    if MAXARG ≤ ustack.length then .ok (none, k)
    else
      let sp := sub64 sp (arg.length + 1)
      let sp := sp - sp % 16
      if sp < stackbase then .ok (none, k)
      else do
        match ← k.copyout D p pagetable sp (arg ++ [0]) with
        | (false, k) => pure (none, k)
        | (true, k) => pushArgs D p pagetable stackbase argv sp (ustack ++ [sp]) k

/-- The part of `kexec` after the segments: the stack, the arguments and their addresses. The result
is the number of arguments with the stack pointer, and the new size. -/
def buildStack (D : SwapDev σ) (k : Kernel σ) (p : ProcId) (pagetable sz : ℕ)
    (argv : List (List UInt8)) : Except String ((Option (ℕ × ℕ) × ℕ) × Kernel σ) := do
  let sz := pgroundup sz
  let (sz1, k) ← k.uvmalloc D p pagetable sz (sz + (USERSTACK + 1) * PGSIZE) { w := true }
  if sz1 = 0 then pure ((none, sz), k)
  else do
    let sz := sz1
    let k ← k.uvmclear pagetable (sz - (USERSTACK + 1) * PGSIZE)
    let stackbase := sz - USERSTACK * PGSIZE
    match ← pushArgs D p pagetable stackbase argv sz [] k with
    | (none, k) => pure ((none, sz), k)
    | (some (sp, ustack), k) =>
      let sp := sub64 sp ((ustack.length + 1) * 8)
      let sp := sp - sp % 16
      if sp < stackbase then pure ((none, sz), k)
      else do
        match ← k.copyout D p pagetable sp ((ustack ++ [0]).flatMap (toBytes 8)) with
        | (false, k) => pure ((none, sz), k)
        | (true, k) => pure ((some (ustack.length, sp), sz), k)

/-- The part of `kexec` that builds the new image in the page table `pagetable`: the number of
arguments and the stack pointer if it succeeds, and the size of the image so far. -/
def buildImage (D : SwapDev σ) (k : Kernel σ) (p : ProcId) (ip : File) (elf : ElfHdr)
    (pagetable : ℕ) (argv : List (List UInt8)) :
    Except String ((Option (ℕ × ℕ) × ℕ) × Kernel σ) := do
  match ← loadHeaders D p ip pagetable elf.phnum (elf.phoff % 2 ^ 32) 0 k with
  | ((false, sz), k) => pure ((none, sz), k)
  | ((true, sz), k) => k.buildStack D p pagetable sz argv

/-- `kexec` by `p` of the file `ip`. On success it returns `argc`, which `syscall` stores in `a0`.
-/
def kexec (D : SwapDev σ) (trampoline : ℕ) (k : Kernel σ) (p : ProcId) (ip : File)
    (argv : List (List UInt8)) : Except String (Bool × Kernel σ) :=
  let header := ip.readi 0 ELFHDR_SIZE
  if header.length ≠ ELFHDR_SIZE then .ok (false, k)
  else
    let elf := ElfHdr.ofBytes header
    if elf.magic ≠ ELF_MAGIC then .ok (false, k)
    else do
      match ← k.procPagetable trampoline p with
      | (none, k) => pure (false, k)
      | (some pagetable, k) =>
        match ← k.buildImage D p ip elf pagetable argv with
        | ((none, sz), k) => do
          let k ← k.procFreepagetable pagetable sz
          pure (false, k)
        | ((some (argc, sp), sz), k) => do
          let oldpagetable := (k.proc p).pagetable
          let oldsz := (k.proc p).sz
          let regs := { (k.proc p).regs with a0 := argc, a1 := sp, epc := elf.entry, sp := sp }
          let k := k.setProc p { k.proc p with pagetable := pagetable, sz := sz, regs := regs }
          let k ← k.procFreepagetable oldpagetable oldsz
          pure (true, k)

/-! ## User code -/

/-- The entry through which user code of `p` reaches the byte at `va`, if the page is resident. -/
def userPte (k : Kernel σ) (p : ProcId) (va : ℕ) : Option (ℕ × ℕ) :=
  match k.walk (k.proc p).pagetable va with
  | .ok (some pte) =>
    if (k.pte pte).flags.v = true ∧ (k.pte pte).flags.u = true then some pte else none
  | _ => none

/-- The hardware sets `PTE_A` of a page that is accessed. -/
def touch (k : Kernel σ) (pte : ℕ × ℕ) : Kernel σ :=
  k.setPte pte { k.pte pte with flags := { (k.pte pte).flags with a := true } }

/-- A load of user code: the byte, or `none` if the access faults. -/
def userLoad (k : Kernel σ) (p : ProcId) (va : ℕ) : Option (UInt8 × Kernel σ) :=
  match k.userPte p va with
  | none => none
  | some pte =>
    if (k.pte pte).flags.r = true then
      some (k.mem (k.pte pte).num ⟨va % PGSIZE, mod_pgsize_lt va⟩, k.touch pte)
    else none

/-- A store of user code, or `none` if the access faults. -/
def userStore (k : Kernel σ) (p : ProcId) (va : ℕ) (byte : UInt8) : Option (Kernel σ) :=
  match k.userPte p va with
  | none => none
  | some pte =>
    if (k.pte pte).flags.w = true then
      let pa := (k.pte pte).num
      some ((k.touch pte).setMem pa ((k.mem pa).write (va % PGSIZE) [byte]))
    else none

end Kernel

end Xv6.VM
