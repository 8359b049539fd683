import Xv6.Foundations.Blocks
import Xv6.Foundations.LinkedCircle
import Xv6.Foundations.Transition

/-!
# The memory allocator of user programs

Model of `user/umalloc.c`. A free block begins with a header that holds the address of the next free
block and the size of the block in units of a header; the free blocks form a circle with the static
header `base`. Addresses are those of bytes. `size` is a `uint`, so sums of sizes are taken modulo
`2 ^ 32`.

The loops have a fuel argument and return `none` when it runs out; a call has a result if some
amount of fuel gives one.

The state also has what the program and the kernel know: the pointers that `malloc` returned and
that have not been freed, with the sizes that were asked for, the memory obtained from `sbrk`, and
an address that lies above it.
-/

namespace Xv6.Umalloc

open LinkedCircle Function

/-- `sizeof(Header)` -/
def HEADER : ℕ := 16

/-- A pointer that `malloc` has returned for a request of `nbytes` bytes. -/
structure Alloc where
  ap : ℕ
  nbytes : ℕ
deriving DecidableEq

/-- The allocator, its program and its memory. -/
structure Heap where
  /-- `s.ptr` of the header at an address. -/
  ptr : ℕ → ℕ
  /-- `s.size` of the header at an address. -/
  size : ℕ → ℕ
  freep : ℕ
  live : List Alloc
  obtained : List MemBlock
  brk : ℕ

/-- What `sbrk` returns when the memory obtained so far ends below the first argument and the second
argument is asked for; `none` is `SBRK_ERROR`. -/
abbrev Sbrk := ℕ → ℕ → Option ℕ

namespace Heap

def setPtr (x v : ℕ) (s : Heap) : Heap := { s with ptr := update s.ptr x v }

def setSize (x v : ℕ) (s : Heap) : Heap := { s with size := update s.size x v }

/-! ## `free` -/

/-- The condition on which the loop of `free` ends. -/
def IsPlaceOf (s : Heap) (bp p : ℕ) : Prop :=
  -- `bp > p && bp < p->s.ptr`
  (p < bp ∧ bp < s.ptr p) ∨
    -- `p >= p->s.ptr && (bp > p || bp < p->s.ptr)`
    (s.ptr p ≤ p ∧ (p < bp ∨ bp < s.ptr p))

instance (s : Heap) (bp : ℕ) : DecidablePred (s.IsPlaceOf bp) := fun _ =>
  inferInstanceAs (Decidable (_ ∨ _))

/-- The first `if` of `free`: join the block with the one above it. -/
def joinUpper (bp p : ℕ) (s : Heap) : Heap :=
  if bp + HEADER * s.size bp = s.ptr p then
    (s.setSize bp ((s.size bp + s.size (s.ptr p)) % 2 ^ 32)).setPtr bp (s.ptr (s.ptr p))
  else s.setPtr bp (s.ptr p)

/-- The second `if` of `free`: join the block with the one below it. -/
def joinLower (bp p : ℕ) (s : Heap) : Heap :=
  if p + HEADER * s.size p = bp then
    (s.setSize p ((s.size p + s.size bp) % 2 ^ 32)).setPtr p (s.ptr bp)
  else s.setPtr p bp

def free (fuel ap : ℕ) (s : Heap) : Option Heap := do
  let bp := ap - HEADER
  let p ← search s.ptr (s.IsPlaceOf bp) fuel s.freep
  pure { (s.joinUpper bp p).joinLower bp p with freep := p }

/-! ## `malloc` -/

/-- The number of units that `morecore` asks for. -/
def coreUnits (nu : ℕ) : ℕ := if nu < 4096 then 4096 else nu

/-- The state when `sbrk` has handed out `nu` units at the address `p`, in which `morecore` puts a
header. -/
def grow (p nu : ℕ) (s : Heap) : Heap :=
  { s with
    size := update s.size p nu
    obtained := s.obtained ++ [⟨p, nu⟩]
    brk := p + nu * HEADER }

/-- `morecore`; the result 0 means that there is no memory. -/
def morecore (fuel : ℕ) (sbrk : Sbrk) (nu : ℕ) (s : Heap) : Option (ℕ × Heap) :=
  match sbrk s.brk (coreUnits nu * HEADER) with
  | none => some (0, s)
  | some p => ((s.grow p (coreUnits nu)).free fuel (p + HEADER)).map fun s => (s.freep, s)

/-- The number of units for a request, with the header. -/
def nunits (nbytes : ℕ) : ℕ := (nbytes + HEADER - 1) / HEADER + 1

/-- The part of `malloc` that takes `nunits` units from the block `p` behind `prevp`: the whole
block or its end. -/
def take (nunits prevp p : ℕ) (s : Heap) : ℕ × Heap :=
  if s.size p = nunits then (p + HEADER, { s.setPtr prevp (s.ptr p) with freep := prevp })
  else
    let s := s.setSize p (s.size p - nunits)
    let q := p + HEADER * s.size p
    (q + HEADER, { s.setSize q nunits with freep := prevp })

/-- The loop of `malloc`. -/
def mallocLoop (sbrk : Sbrk) (nunits : ℕ) : ℕ → ℕ → ℕ → Heap → Option (ℕ × Heap)
  | 0, _, _, _ => none
  | fuel + 1, prevp, p, s =>
    if s.size p ≥ nunits then some (s.take nunits prevp p)
    else if p = s.freep then
      match s.morecore fuel sbrk nunits with
      | none => none
      | some (p, s) => if p = 0 then some (0, s) else mallocLoop sbrk nunits fuel p (s.ptr p) s
    else mallocLoop sbrk nunits fuel p (s.ptr p) s

/-- The first call makes `base` the only block, of size 0. -/
def start (base : ℕ) (s : Heap) : Heap :=
  if s.freep = 0 then { (s.setPtr base base).setSize base 0 with freep := base } else s

def malloc (base fuel : ℕ) (sbrk : Sbrk) (nbytes : ℕ) (s : Heap) : Option (ℕ × Heap) :=
  let s := s.start base
  mallocLoop sbrk (nunits nbytes) fuel s.freep (s.ptr s.freep) s

end Heap

/-! ## Programs -/

/-- What a program does. It may write to the memory that it has been given, which may change what is
there if it is taken for a header. -/
inductive Call where
  | malloc (nbytes : ℕ) (sbrk : Sbrk)
  | free (ap : ℕ)
  | write (ptr size : ℕ → ℕ)

/-- `sbrk` fails, or hands out memory at an aligned address above what it has handed out before. -/
def SbrkLawful (sbrk : Sbrk) : Prop := ∀ brk n p, sbrk brk n = some p → brk ≤ p ∧ HEADER ∣ p

namespace Heap

/-- No byte of a header at `x` belongs to the memory that the program has been given. -/
def Untouchable (s : Heap) (x : ℕ) : Prop :=
  ∀ a ∈ s.live, x + HEADER ≤ a.ap ∨ a.ap + a.nbytes ≤ x

/-- What a program may do: ask for a number of bytes that, with the header and rounded up, fits into
a positive `int`, free a pointer that it has, or write to its memory. -/
def Allowed (s : Heap) : Call → Prop
  | .malloc nbytes sbrk => nunits nbytes * HEADER < 2 ^ 31 ∧ SbrkLawful sbrk
  | .free ap => ap ∈ s.live.map Alloc.ap
  | .write ptr size => ∀ x, s.Untouchable x → ptr x = s.ptr x ∧ size x = s.size x

/-- One call with a given amount of fuel. -/
def exec (base fuel : ℕ) (s : Heap) : Call → Option Heap
  | .malloc nbytes sbrk => (s.malloc base fuel sbrk nbytes).map fun (ap, s) =>
      if ap = 0 then s else { s with live := ⟨ap, nbytes⟩ :: s.live }
  | .free ap => (s.free fuel ap).map fun s =>
      { s with live := s.live.eraseP fun a => a.ap = ap }
  | .write ptr size => some { s with ptr, size }

end Heap

/-- A program before its first call: nothing has been obtained, and `sbrk` will hand out memory
above the header `base`. -/
def InitHeap (base : ℕ) (s : Heap) : Prop :=
  s.freep = 0 ∧ s.live = [] ∧ s.obtained = [] ∧ base + HEADER ≤ s.brk

/-- All programs that use the allocator. -/
def heapSystem (base : ℕ) : TransitionSystem Heap Call where
  init s := InitHeap base s
  step s c s' := s.Allowed c ∧ ∃ fuel, s.exec base fuel c = some s'

end Xv6.Umalloc
