import Xv6.VM.Proc

/-!
# A machine with unlimited memory

The purpose of the memory system, stated without frames, slots and page tables: every process has an
address space of its own, a map from page numbers to pages with contents and permissions, and what
one operation does to it depends on no other process. `Unlimited.step` says what each event does; it
never evicts a page and never runs out of memory. An event carries its outcome, so an operation that
failed for lack of memory in the kernel is an event that does nothing here.

The functions that store bytes have a parameter `see`, which says what is kept of the contents of a
page. The machine keeps them all (`id`).
-/

namespace Xv6.VM

open Function

/-! ## Pages -/

/-- A page as user code sees it. -/
@[ext]
structure UPage where
  bytes : Page
  r : Bool
  w : Bool
  x : Bool
  u : Bool

/-- The page with the given bytes and the permissions of an entry. -/
def UPage.ofFlags (bytes : Page) (f : Flags) : UPage :=
  { bytes := bytes, r := f.r, w := f.w, x := f.x, u := f.u }

/-- A page of zeros with given permissions. -/
def UPage.zeros (perm : Flags) : UPage := .ofFlags 0 perm

/-- The number of pages of an address space of `sz` bytes. -/
def pageCount (sz : ℕ) : ℕ := (sz + PGSIZE - 1) / PGSIZE

/-- The permissions of a page that is allocated lazily, and of the heap. -/
def lazyPerm : Flags := { w := true, u := true, r := true }

/-- A page after a fault: as it was, or zeros if it had not been allocated. -/
def faultedIn (x : Option UPage) : UPage := x.getD (.zeros lazyPerm)

/-- The pages of an address space by their numbers; `none` if a page has not been allocated. -/
abbrev Space : Type := ℕ → Option UPage

namespace Space

/-- Change the `n` pages from `a` on. -/
def fill (s : Space) (a n : ℕ) (x : Option UPage) : Space := fun v =>
  if a ≤ v ∧ v < a + n then x else s v

/-- Pages of zeros from the end of an address space of `oldsz` bytes to that of one of `newsz`. -/
def alloc (s : Space) (oldsz newsz : ℕ) (perm : Flags) : Space :=
  s.fill (pageCount oldsz) (pageCount newsz - pageCount oldsz) (some (.zeros perm))

/-- No pages beyond the end of an address space of `newsz` bytes. -/
def dealloc (s : Space) (oldsz newsz : ℕ) : Space :=
  s.fill (pageCount newsz) (pageCount oldsz - pageCount newsz) none

/-- Make the page `v` inaccessible to the user. -/
def clearU (s : Space) (v : ℕ) : Space :=
  update s v ((s v).map fun x => { x with u := false })

/-- Store bytes into the page `v`. -/
def write (see : Page → Page) (s : Space) (v off : ℕ) (bytes : List UInt8) : Space :=
  update s v ((s v).map fun x => { x with bytes := see (x.bytes.write off bytes) })

lemma write_eq_none {see : Page → Page} {s : Space} {v v' off : ℕ} {bytes : List UInt8} :
    s.write see v off bytes v' = none ↔ s v' = none := by
  unfold write
  by_cases hv : v' = v
  · subst hv
    simp
  · simp [hv]

lemma write_eq_some (see : Page → Page) {s : Space} {v' : ℕ} {x : UPage} (hx : s v' = some x)
    (v off : ℕ) (bytes : List UInt8) :
    ∃ bytes', s.write see v off bytes v' = some { x with bytes := bytes' } := by
  unfold write
  by_cases hv : v' = v
  · subst hv
    exact ⟨see (x.bytes.write off bytes), by simp [hx]⟩
  · exact ⟨x.bytes, by simp [hv, hx]⟩

end Space

/-- An address space. -/
structure AddressSpace where
  sz : ℕ
  page : Space

/-- The content and the permissions of the page `v`; a page that has not been allocated reads as
zeros and has no permissions. -/
def AddressSpace.userPage (a : AddressSpace) (v : ℕ) : UPage := (a.page v).getD (.zeros {})

/-! ## Loading a program -/

section Load

variable (see : Page → Page)

/-- Load `m` pages of a segment from the file, `sz` bytes in all, to the pages from `v` on. -/
def Space.loadseg (ip : File) : ℕ → ℕ → ℕ → ℕ → Space → Option Space
  | 0, _, _, _, s => some s
  | m + 1, v, offset, sz, s =>
    let n := if sz < PGSIZE then sz else PGSIZE
    let bytes := ip.readi (offset % 2 ^ 32) n
    if bytes.length ≠ n then none
    else Space.loadseg ip m (v + 1) (offset + PGSIZE) (sz - PGSIZE) (s.write see v 0 bytes)

/-- Push the arguments of a program on its stack: the stack pointer and their addresses. -/
def Space.pushArgs (stackbase : ℕ) :
    List (List UInt8) → ℕ → List ℕ → Space → Option ((ℕ × List ℕ) × Space)
  | [], sp, ustack, s => some ((sp, ustack), s)
  | arg :: argv, sp, ustack, s =>
    if MAXARG ≤ ustack.length then none
    else
      let sp := sp - (arg.length + 1)
      let sp := sp - sp % 16
      if sp < stackbase then none
      else Space.pushArgs stackbase argv sp (ustack ++ [sp])
        (s.write see (sp / PGSIZE) (sp % PGSIZE) (arg ++ [0]))

namespace AddressSpace

/-- Load the segment of the program header at `off`. -/
def loadHeader (ip : File) (off : ℕ) (a : AddressSpace) : Option AddressSpace :=
  let bytes := ip.readi off PROGHDR_SIZE
  if bytes.length ≠ PROGHDR_SIZE then none
  else
    let ph := ProgHdr.ofBytes bytes
    if ph.type ≠ ELF_PROG_LOAD then some a
    else if ph.memsz < ph.filesz then none
    else if (ph.vaddr + ph.memsz) % 2 ^ 64 < ph.vaddr then none
    else if ph.vaddr % PGSIZE ≠ 0 then none
    else if max a.sz (ph.vaddr + ph.memsz) = 0 then none
    else
      let page := a.page.alloc a.sz (ph.vaddr + ph.memsz)
        { flags2perm ph.flags with r := true, u := true }
      let sz := ph.filesz % 2 ^ 32
      (page.loadseg see ip (pageCount sz) (ph.vaddr / PGSIZE) (ph.off % 2 ^ 32) sz).map fun page =>
        ⟨max a.sz (ph.vaddr + ph.memsz), page⟩

/-- Load the segments of `n` program headers from `off` on. -/
def loadHeaders (ip : File) : ℕ → ℕ → AddressSpace → Option AddressSpace
  | 0, _, a => some a
  | n + 1, off, a => do
    let a ← a.loadHeader see ip off
    loadHeaders ip n ((off + PROGHDR_SIZE) % 2 ^ 32) a

/-- Add a guard page and a stack with the arguments. -/
def buildStack (a : AddressSpace) (argv : List (List UInt8)) : Option AddressSpace := do
  let base := pgroundup a.sz
  let sz := base + (USERSTACK + 1) * PGSIZE
  let stackbase := sz - USERSTACK * PGSIZE
  let page := (a.page.alloc base sz lazyPerm).clearU (pageCount a.sz)
  let ((sp, ustack), page) ← page.pushArgs see stackbase argv sz []
  let sp := sp - (ustack.length + 1) * 8
  let sp := sp - sp % 16
  if sp < stackbase then none
  else
    some ⟨sz, page.write see (sp / PGSIZE) (sp % PGSIZE) ((ustack ++ [0]).flatMap (toBytes 8))⟩

/-- The address space of a program started from the file `ip`. -/
def exec (ip : File) (argv : List (List UInt8)) : Option AddressSpace :=
  let header := ip.readi 0 ELFHDR_SIZE
  if header.length ≠ ELFHDR_SIZE then none
  else
    let elf := ElfHdr.ofBytes header
    if elf.magic ≠ ELF_MAGIC then none
    else do
      let a ← loadHeaders see ip elf.phnum (elf.phoff % 2 ^ 32) ⟨0, fun _ => none⟩
      a.buildStack see argv

end AddressSpace

end Load

/-! ## Operations on an address space -/

namespace AddressSpace

/-- A page fault at `va` that is served. -/
def fault (a : AddressSpace) (va : ℕ) : Option AddressSpace :=
  if va < a.sz then
    some { a with page := update a.page (va / PGSIZE) (some (faultedIn (a.page (va / PGSIZE)))) }
  else none

/-- The byte that a load at `va` returns. -/
def load (a : AddressSpace) (va : ℕ) : Option UInt8 :=
  match a.page (va / PGSIZE) with
  | none => none
  | some x =>
    if x.u = true ∧ x.r = true then some (x.bytes ⟨va % PGSIZE, mod_pgsize_lt va⟩) else none

/-- A store at `va`. -/
def store (a : AddressSpace) (va : ℕ) (byte : UInt8) : Option AddressSpace :=
  match a.page (va / PGSIZE) with
  | none => none
  | some x =>
    if x.u = true ∧ x.w = true then
      some { a with page := a.page.write id (va / PGSIZE) (va % PGSIZE) [byte] }
    else none

/-- `sbrk`. Memory that is asked for lazily is allocated by later faults. -/
def sbrk (a : AddressSpace) (n : ℤ) (lazy : Bool) : Option AddressSpace :=
  if 0 < n then
    if TRAPFRAME < a.sz + n.toNat then none
    else if lazy then some { a with sz := a.sz + n.toNat }
    else some ⟨a.sz + n.toNat, a.page.alloc a.sz (a.sz + n.toNat) lazyPerm⟩
  else if n < 0 then
    let newsz := min a.sz (sub64 a.sz n.natAbs)
    some ⟨newsz, a.page.dealloc a.sz newsz⟩
  else some a

end AddressSpace

/-! ## The machine -/

/-- What happens in a run, with its outcome. -/
inductive Event where
  /-- A page fault of `p` at `va`; `ok` if the process can go on. -/
  | fault (p : ProcId) (va : ℕ) (ok : Bool)
  /-- A load of one byte. -/
  | load (p : ProcId) (va : ℕ) (byte : UInt8)
  /-- A store of one byte. -/
  | store (p : ProcId) (va : ℕ) (byte : UInt8)
  /-- `sbrk`. -/
  | sbrk (p : ProcId) (n : ℤ) (lazy ok : Bool)
  /-- `fork`, with the child if it succeeds. -/
  | fork (p : ProcId) (child : Option ProcId)
  /-- `exec` of the file `ip`. -/
  | exec (p : ProcId) (ip : File) (argv : List (List UInt8)) (ok : Bool)
  /-- `exit`. -/
  | exit (p : ProcId) (status : ℤ)
  /-- `wait` with the address for the exit status, and the child that was reaped. -/
  | wait (p : ProcId) (addr : ℕ) (child : Option ProcId)
  /-- The scheduler changes the state or the priority of a process. -/
  | schedule (p : ProcId) (state : ProcState) (level : ℤ)

/-- The address spaces of the processes that exist. -/
abbrev Unlimited : Type := ProcId → Option AddressSpace

namespace Unlimited

/-- Only the process `p` exists, with an empty address space. -/
def boot (p : ProcId) : Unlimited := update (fun _ => none) p (some ⟨0, fun _ => none⟩)

/-- Change the address space of `p`. -/
def modify (m : Unlimited) (p : ProcId) (f : AddressSpace → Option AddressSpace) :
    Option Unlimited := do
  let a ← m p
  let a ← f a
  some (update m p (some a))

lemma modify_eq {m : Unlimited} {p : ProcId} {f : AddressSpace → Option AddressSpace}
    {a a' : AddressSpace} (hp : m p = some a) (hf : f a = some a') :
    m.modify p f = some (update m p (some a')) := by
  rw [modify, hp]
  change (f a).bind _ = _
  rw [hf]
  rfl

/-- What a change of one address space is. -/
theorem exists_of_modify {m m' : Unlimited} {p : ProcId}
    {f : AddressSpace → Option AddressSpace} (h : m.modify p f = some m') :
    ∃ a a', m p = some a ∧ f a = some a' ∧ m' = update m p (some a') := by
  obtain ⟨a, ha, h⟩ := Option.bind_eq_some_iff.mp h
  obtain ⟨a', hf, h⟩ := Option.bind_eq_some_iff.mp h
  cases h
  exact ⟨a, a', ha, hf, rfl⟩

/-- What an event does, or `none` if the machine cannot do it. -/
def step (m : Unlimited) : Event → Option Unlimited
  | .fault p va ok => if ok then m.modify p (·.fault va) else some m
  | .load p va byte => if ((m p).bind (·.load va)) = some byte then some m else none
  | .store p va byte => m.modify p (·.store va byte)
  | .sbrk p n lazy ok => if ok then m.modify p (·.sbrk n lazy) else some m
  | .fork _ none => some m
  | .fork p (some np) =>
    if (m np).isNone then (m p).map fun a => update m np (some a) else none
  | .exec p ip argv ok =>
    if ok then m.modify p fun _ => AddressSpace.exec id ip argv else some m
  | .exit _ _ => some m
  | .wait _ _ none => some m
  | .wait _ _ (some c) => if (m c).isSome then some (update m c none) else none
  | .schedule _ _ _ => some m

end Unlimited

end Xv6.VM
