import Xv6.VM.NoLeak
import Xv6.VM.OwnershipBijection
import Xv6.VM.Pressure

/-!
# Running out of memory

The callers of `kalloc_user` all have a branch for an allocation that fails, but `kalloc_user` never
returns zero: when no frame is free and no page can be evicted, or no swap slot is free,
`get_victim` or `swap_out` panics. So in such a state (`Exhausted`) a request for memory panics if
and only if it gets as far as its first call of `kalloc_user` (`NeedsUserPage`), as
`out_of_memory_handled_iff` says.
-/

namespace Xv6.VM

open Fallible Kernel Function Option Nat

/-- The computation panics because there is no page to evict or no slot to put it in. -/
def Exhausts {α : Type} (x : Except String α) : Prop := ∃ msg ∈ exhaustionMessages, x = .error msg

namespace Exhausts

variable {α β : Type} {x : Except String α} {a : α} {f : α → Except String β}

lemma bind (h : Exhausts x) : Exhausts (x >>= f) := by
  obtain ⟨msg, hmem, hx⟩ := h
  exact ⟨msg, hmem, bind_of_error hx f⟩

lemma bind_ok (hx : x = .ok a) (h : Exhausts (f a)) : Exhausts (x >>= f) := by
  rw [bind_of_ok hx]
  exact h

end Exhausts

namespace Kernel

variable {σ : Type}

/-! ## The requests -/

/-- No frame or no physical page is free, and either no frame is one that `get_victim` accepts or
every swap slot is in use. -/
structure Exhausted (k : Kernel σ) : Prop where
  needs : k.NeedsVictim
  stuck : (∀ i p, ¬k.EvictableBy i p) ∨ k.SlotsFull

/-- The loop of `uvmcopy` calls `kalloc_user`: it comes to a resident page before the copy of a
swapped-out page fails. -/
def CopyNeedsPage (D : SwapDev σ) (old new : ℕ) (np : ProcId) : ℕ → ℕ → Kernel σ → Prop
  | 0, _, _ => False
  | n + 1, i, k =>
    ∃ o, k.walk old i = .ok o ∧
      match o with
      | none => CopyNeedsPage D old new np n (i + PGSIZE) k
      | some pte =>
        if (k.pte pte).flags.v = false ∧ (k.pte pte).flags.s = false then
          CopyNeedsPage D old new np n (i + PGSIZE) k
        else if (k.pte pte).flags.s then
          ∃ k', k.copySwapped D new i np (k.pte pte) = .ok (true, k') ∧
            CopyNeedsPage D old new np n (i + PGSIZE) k'
        else True

/-- `kexec` calls `kalloc_user`: the first segment to load is well formed and not empty, or there is
none, and then the stack needs pages. -/
def ImageNeedsPage (ip : File) : ℕ → ℕ → Prop
  | 0, _ => True
  | n + 1, off =>
    let bytes := ip.readi off PROGHDR_SIZE
    let ph := ProgHdr.ofBytes bytes
    if bytes.length ≠ PROGHDR_SIZE then False
    else if ph.type ≠ ELF_PROG_LOAD then ImageNeedsPage ip n ((off + PROGHDR_SIZE) % 2 ^ 32)
    else if ph.memsz < ph.filesz then False
    else if (ph.vaddr + ph.memsz) % 2 ^ 64 < ph.vaddr then False
    else if ph.vaddr % PGSIZE ≠ 0 then False
    else 0 < ph.vaddr + ph.memsz

/-- The request of the event `e` gets as far as a call of `kalloc_user`. -/
def NeedsUserPage (D : SwapDev σ) (trampoline : ℕ) (k : Kernel σ) (e : Event) : Prop :=
  match e with
  | .sbrk p n lazy _ => lazy = false ∧ 0 < n ∧ (k.proc p).sz + n.toNat ≤ TRAPFRAME ∧
      pgroundup (k.proc p).sz < (k.proc p).sz + n.toNat
  | .fault p va _ => va < (k.proc p).sz ∧ (k.userEntry p (va / PGSIZE)).flags.v = false
  | .fork p _ => ∃ np k1, k.allocproc trampoline = .ok (some np, k1) ∧
      CopyNeedsPage D (k1.proc p).pagetable (k1.proc np).pagetable np
        (pagesFrom 0 (k1.proc p).sz) 0 k1
  | .exec p ip _ _ =>
      let header := ip.readi 0 ELFHDR_SIZE
      let elf := ElfHdr.ofBytes header
      header.length = ELFHDR_SIZE ∧ elf.magic = ELF_MAGIC ∧
        (∃ r k1, k.procPagetable trampoline p = .ok (some r, k1)) ∧
        ImageNeedsPage ip elf.phnum (elf.phoff % 2 ^ 32)
  | _ => False

/-- A running process makes the request of the event `e`: it grows, faults, forks or executes a
file. -/
def Requests (k : Kernel σ) : Event → Prop
  | .sbrk p _ _ _ | .fault p _ _ | .fork p _ => (k.proc p).state = .running
  | .exec p _ argv _ => (k.proc p).state = .running ∧ ∀ arg ∈ argv, arg.length < PGSIZE
  | _ => False

/-- The request of the event `e` cannot succeed without a user page. -/
def AsksForPage (k : Kernel σ) : Event → Prop
  | .sbrk p n lazy _ => lazy = false ∧ 0 < n ∧
      pgroundup (k.proc p).sz < (k.proc p).sz + n.toNat
  | .fault p va _ => va < (k.proc p).sz ∧ (k.userEntry p (va / PGSIZE)).flags.v = false
  | .fork p _ => ∃ v pa, k.Maps p v pa
  | .exec _ _ _ _ => True
  | _ => False

end Kernel

/-- The process of an event. -/
def Event.process : Event → ProcId
  | .fault p _ _ | .load p _ _ | .store p _ _ | .sbrk p _ _ _ | .fork p _ | .exec p _ _ _
  | .exit p _ | .wait p _ _ | .schedule p _ _ => p

/-- The request returns an error, or the fault is not resolved. -/
def Event.Failed : Event → Prop
  | .sbrk _ _ _ ok | .fault _ _ ok | .exec _ _ _ ok => ok = false
  | .fork _ child => child = none
  | _ => False

/-- Running out of memory is handled: the request does not panic, it fails if it asked for a page,
and the address spaces of the other processes stay what they were. -/
def Kernel.HandlesExhaustion {σ : Type} (D : SwapDev σ) (trampoline : ℕ) (k : Kernel σ)
    (e : Event) : Prop :=
  (∀ msg, ¬k.Panics D trampoline e msg) ∧
    ∀ k', k.Step D trampoline e k' → (k.AsksForPage e → e.Failed) ∧
      ∀ q, q ≠ e.process → (k.proc q).state ≠ .unused → k'.view D q = k.view D q

/-! ## What comes before the first allocation -/

namespace Kernel

variable {σ : Type} {D : SwapDev σ} {k k' k'' : Kernel σ} {p np : ProcId} {r va pa n i j : ℕ}

/-- The frame table, the swap table and the processes are unchanged. -/
structure Keeps (k k' : Kernel σ) : Prop where
  frametable : k'.frametable = k.frametable
  swaptable : k'.swaptable = k.swaptable
  proc : k'.proc = k.proc

lemma Keeps.refl (k : Kernel σ) : k.Keeps k := ⟨rfl, rfl, rfl⟩

lemma Keeps.trans (h : k.Keeps k') (h' : k'.Keeps k'') : k.Keeps k'' where
  frametable := h'.frametable.trans h.frametable
  swaptable := h'.swaptable.trans h.swaptable
  proc := h'.proc.trans h.proc

lemma tableStable_keeps (k : Kernel σ) : TableStable (fun _ => True) k.Keeps where
  table _ _ := trivial
  only h hk := by
    obtain ⟨_, _, _, rfl⟩ := h
    exact ⟨hk.frametable, hk.swaptable, hk.proc⟩

lemma walkAlloc_keeps {o : Option (ℕ × ℕ)} (hrun : k.walkAlloc r va = .ok (o, k')) :
    k.Keeps k' :=
  ((tableStable_keeps k).walkAlloc (.refl k)).result _ hrun

lemma mappages_keeps {perm : Flags} {b : Bool} (hrun : k.mappages r va n pa perm = .ok (b, k')) :
    k.Keeps k' :=
  ((tableStable_keeps k).mappages (.refl k)).result _ hrun

/-- Making a page table takes pages from the free list. -/
theorem procPagetable_keeps {trampoline : ℕ}
    (hrun : k.procPagetable trampoline p = .ok (some r, k')) :
    k.Keeps k' ∧ k.freelist ≠ [] := by
  unfold procPagetable uvmcreate at hrun
  cases hkalloc : k.kalloc with
  | mk o k1 =>
    rw [hkalloc] at hrun
    cases o with
    | none => cases hrun
    | some pg =>
      obtain ⟨rest, hfree, rfl⟩ := kalloc_some hkalloc
      obtain ⟨⟨b1, k2⟩, hmap1, hrun⟩ := bind_eq_ok.mp hrun
      have h1 := mappages_keeps hmap1
      cases b1 with
      | false =>
        obtain ⟨k3, -, hrun⟩ := bind_eq_ok.mp hrun
        cases hrun
      | true =>
        obtain ⟨⟨b2, k3⟩, hmap2, hrun⟩ := bind_eq_ok.mp hrun
        have h2 := mappages_keeps hmap2
        cases b2 with
        | false =>
          obtain ⟨k4, -, hrun⟩ := bind_eq_ok.mp hrun
          obtain ⟨k5, -, hrun⟩ := bind_eq_ok.mp hrun
          cases hrun
        | true =>
          cases hrun
          have h12 := h1.trans h2
          exact ⟨⟨h12.frametable, h12.swaptable, h12.proc⟩, by simp [hfree]⟩

lemma allocproc_frames {trampoline : ℕ} (hrun : k.allocproc trampoline = .ok (some np, k')) :
    k'.frametable = k.frametable ∧ k'.swaptable = k.swaptable ∧ k.freelist ≠ [] := by
  unfold allocproc at hrun
  split at hrun
  · cases hrun
  · rename_i p hfind
    dsimp only at hrun
    cases hkalloc : (k.takeProc p).kalloc with
    | mk o k1 =>
      rw [hkalloc] at hrun
      cases o with
      | none =>
        obtain ⟨k2, -, hrun⟩ := bind_eq_ok.mp hrun
        cases hrun
      | some pg =>
        obtain ⟨rest, hfree, rfl⟩ := kalloc_some hkalloc
        obtain ⟨⟨o, k2⟩, htable, hrun⟩ := bind_eq_ok.mp hrun
        cases o with
        | none =>
          obtain ⟨k3, -, hrun⟩ := bind_eq_ok.mp hrun
          cases hrun
        | some r =>
          cases hrun
          have hkeeps := (procPagetable_keeps htable).1
          have hne : k.freelist ≠ [] := by
            rw [show k.freelist = pg :: rest from hfree]
            simp
          exact ⟨hkeeps.frametable, hkeeps.swaptable, hne⟩

lemma copySwapped_frames {e : Pte} (hrun : k.copySwapped D r i np e = .ok (true, k')) :
    k'.frametable = k.frametable ∧ k'.proc = k.proc ∧ ¬k.SlotsFull := by
  unfold copySwapped at hrun
  split at hrun
  · cases hrun
  · rename_i c k1 htake
    have hslots : ¬k.SlotsFull := fun hfull => by
      rw [takeSlot_of_slotsFull hfull] at htake
      cases htake
    obtain ⟨-, -, rfl⟩ := takeSlot_eq_some htake
    split at hrun
    · cases hrun
    · rename_i bounce k2 hkalloc
      obtain ⟨rest, -, rfl⟩ := kalloc_some hkalloc
      obtain ⟨k3, hread, hrun⟩ := bind_eq_ok.mp hrun
      obtain ⟨k4, hwrite, hrun⟩ := bind_eq_ok.mp hrun
      obtain ⟨k5, hkfree, hrun⟩ := bind_eq_ok.mp hrun
      obtain ⟨⟨o, k6⟩, hwalk, hrun⟩ := bind_eq_ok.mp hrun
      obtain ⟨⟨pg, dev⟩, -, hread⟩ := bind_eq_ok.mp hread
      cases hread
      obtain ⟨dev', -, hwrite⟩ := bind_eq_ok.mp hwrite
      cases hwrite
      have h5 := kfree_ok hkfree
      subst h5
      have hkeeps := walkAlloc_keeps hwalk
      cases o with
      | none => cases hrun
      | some q =>
        cases hrun
        exact ⟨hkeeps.frametable, hkeeps.proc, hslots⟩

/-! ## The first allocation panics -/

/-- With a page on the free list, it is the frame table that is full. -/
theorem NeedsVictim.full (h : k.NeedsVictim) (hfree : k.freelist ≠ []) (i : Fin NUM_FRAMES) :
    (k.frametable i).inUse ≠ .free :=
  h.resolve_right hfree i

lemma uvmalloc_exhausts {oldsz newsz : ℕ} {xperm : Flags} (h : k.Starved)
    (hlt : pgroundup oldsz < newsz) : Exhausts (k.uvmalloc D p r oldsz newsz xperm) := by
  obtain ⟨m, hm⟩ : ∃ m, pagesFrom (pgroundup oldsz) newsz = m + 1 := by
    refine exists_eq_succ_of_ne_zero ?_
    change (newsz - pgroundup oldsz + 4096 - 1) / 4096 ≠ 0
    omega
  have hge : ¬newsz < oldsz := by
    change (oldsz + 4096 - 1) / 4096 * 4096 < newsz at hlt
    omega
  unfold uvmalloc
  rw [if_neg hge]
  refine .bind ?_
  rw [hm]
  exact .bind (h.kallocUser D _ p)

/-- `uvmcopy` panics at the first resident page. -/
theorem copyLoop_exhausts {old new : ℕ} (n : ℕ) : ∀ {i : ℕ} {k : Kernel σ},
    (∀ j, (k.frametable j).inUse ≠ .free) → (k.NoEvictee ∨ k.Consistent ∧ k.SlotsFull) →
    CopyNeedsPage D old new np n i k → Exhausts (copyLoop D old new np n i k) := by
  induction n with
  | zero => exact fun _ _ hneeds => hneeds.elim
  | succ n ih =>
    intro i k hfull hstuck hneeds
    obtain ⟨o, hwalk, hneeds⟩ := hneeds
    unfold copyLoop copyPage
    rw [bind_of_ok hwalk]
    cases o with
    | none => exact .bind_ok rfl (ih hfull hstuck hneeds)
    | some pte =>
      dsimp only at hneeds ⊢
      split_ifs at hneeds ⊢ with hnone hs
      · exact .bind_ok rfl (ih hfull hstuck hneeds)
      · -- a slot was taken, so it is the frames that cannot be evicted
        obtain ⟨k1, hcopy, hneeds⟩ := hneeds
        obtain ⟨hft, hproc, hslots⟩ := copySwapped_frames hcopy
        have hno := hstuck.resolve_right fun hc => hslots hc.2
        refine .bind_ok hcopy (ih ?_ (.inl ?_) hneeds)
        · rw [hft]
          exact hfull
        · unfold NoEvictee Evictee
          rw [hft, hproc]
          exact hno
      · have hstarved : k.Starved := ⟨.inl hfull, hstuck⟩
        exact .bind (.bind (hstarved.kallocUser D i np))

/-- Loading an image panics at its first page. -/
theorem loadHeaders_exhausts {ip : File} (n : ℕ) : ∀ {off : ℕ}, k.Starved →
    ImageNeedsPage ip n off →
    Exhausts (loadHeaders D p ip r n off 0 k) ∨
      loadHeaders D p ip r n off 0 k = .ok ((true, 0), k) := by
  induction n with
  | zero => exact fun _ _ => .inr rfl
  | succ n ih =>
    intro off hstarved hneeds
    unfold ImageNeedsPage at hneeds
    unfold loadHeaders loadHeader
    dsimp only at hneeds ⊢
    split_ifs at hneeds ⊢
    · rw [bind_of_ok rfl]
      exact ih hstarved hneeds
    · left
      refine .bind (.bind (uvmalloc_exhausts hstarved ?_))
      exact hneeds

lemma buildImage_exhausts {ip : File} {elf : ElfHdr} {argv : List (List UInt8)}
    (hstarved : k.Starved) (hneeds : ImageNeedsPage ip elf.phnum (elf.phoff % 2 ^ 32)) :
    Exhausts (k.buildImage D p ip elf r argv) := by
  unfold buildImage
  rcases loadHeaders_exhausts (D := D) (p := p) (r := r) _ hstarved hneeds with hload | hload
  · exact .bind hload
  · refine .bind_ok hload (.bind (uvmalloc_exhausts hstarved ?_))
    decide

end Kernel

namespace Idle

variable {σ : Type} {D : SwapDev σ} {m : List ℕ} {k k' : Kernel σ} {p : ProcId} {v va : ℕ}
  {trampoline : ℕ} {e : Event}

section

variable (hk : Idle D m k)

include hk

/-- Between operations every frame in use is mapped by its process, so if none can be evicted, none
belongs to a process that may lose pages. -/
theorem noEvictee (h : ∀ i p, ¬k.EvictableBy i p) : k.NoEvictee := by
  intro i p hi hp hev
  obtain ⟨p', v, pa, ⟨hlive, hsz, hv, hnum⟩, hrec⟩ := hk.page_of_frame hi
  obtain rfl : p' = p := Option.some.inj (hrec.2.1.symm.trans hp)
  have hmax := mul_pgsize_lt_maxva (hk.lt_top hsz)
  have hva : (k.frametable i).va / PGSIZE = v := by rw [hrec.2.2.1, mul_pgsize_div]
  rw [hk.userEntry_eq hlive hmax] at hv hnum
  refine h i p' ⟨hp, hrec.1, hk.settled.live p' hlive, hev, ?_, ?_, ?_⟩
  · rw [hrec.2.2.1]
    exact hmax
  · rw [hva]
    exact hv
  · rw [hva, hnum, hrec.2.2.2]

lemma starved (h : k.Exhausted) : k.Starved where
  needs := h.needs
  stuck := h.stuck.imp hk.noEvictee fun hfull => ⟨hk.consistent, hfull⟩

lemma ismapped_eq (hp : (k.proc p).state ≠ .unused) (hva : v * PGSIZE < MAXVA) :
    k.ismapped (k.proc p).pagetable (v * PGSIZE) = .ok (k.userEntry p v).flags.v := by
  have hwalk := walk_eq (k := k) (r := (k.proc p).pagetable) (by rw [hk.owner hp]; rfl) hva
  rw [mul_pgsize_div] at hwalk
  rw [hk.userEntry_eq hp hva]
  unfold ismapped
  rw [bind_of_ok hwalk]
  cases href : k.core.leafRef (k.proc p).pagetable v with
  | none => rw [Core.leaf_eq_of_none href]; rfl
  | some q =>
    dsimp only
    rw [pte_eq_leaf href]
    rfl

lemma fault_exhausts (hstarved : k.Starved) (hp : (k.proc p).state ≠ .unused)
    (hsz : va < (k.proc p).sz) (hv : (k.userEntry p (va / PGSIZE)).flags.v = false) :
    Exhausts (k.vmfault D p (k.proc p).pagetable va) := by
  have hlt : va / PGSIZE * PGSIZE < (k.proc p).sz := (div_mul_le_self va PGSIZE).trans_lt hsz
  have hmax := mul_pgsize_lt_maxva (hk.lt_top hlt)
  unfold vmfault
  rw [if_neg (not_le.mpr hsz)]
  refine .bind_ok (hk.ismapped_eq hp hmax) ?_
  rw [hv]
  exact .bind_ok (walk_eq (by rw [hk.owner hp]; rfl) hmax)
    (.bind (hstarved.kallocUser D _ p))

lemma fork_exhausts {np : ProcId} {k1 : Kernel σ} (h : k.Exhausted)
    (halloc : k.allocproc trampoline = .ok (some np, k1))
    (hneeds : CopyNeedsPage D (k1.proc p).pagetable (k1.proc np).pagetable np
      (pagesFrom 0 (k1.proc p).sz) 0 k1) :
    Exhausts (k.kfork D trampoline p) := by
  obtain ⟨hft, hslots, hfree⟩ := allocproc_frames halloc
  obtain ⟨hk1, hcases⟩ := hk.allocproc halloc
  rcases hcases with ⟨hc, -⟩ | ⟨np', heq, hunused, -, hother, -⟩
  · cases hc
  obtain rfl := Option.some.inj heq
  refine .bind_ok halloc (.bind (copyLoop_exhausts _ ?_ ?_ hneeds))
  · rw [hft]
    exact h.needs.full hfree
  · refine h.stuck.imp (fun hno i q hi hq => ?_) fun hfull => ⟨hk1.consistent, ?_⟩
    · -- the frames belong to processes that existed before
      rw [hft] at hi hq
      obtain ⟨q', v, pa, hmaps, hrec⟩ := hk.page_of_frame hi
      obtain rfl : q' = q := Option.some.inj (hrec.2.1.symm.trans hq)
      have hne : q' ≠ np := by
        rintro rfl
        exact hmaps.1 hunused
      have hev := hk.noEvictee hno i q' hi hq
      unfold Evictee at hev ⊢
      rw [hother q' hne]
      exact hev
    · unfold SlotsFull
      rw [hslots]
      exact hfull

lemma exec_exhausts {ip : File} {argv : List (List UInt8)} (h : k.Exhausted)
    (hneeds : k.NeedsUserPage D trampoline (.exec p ip argv true)) :
    Exhausts (k.kexec D trampoline p ip argv) := by
  obtain ⟨hlen, hmagic, ⟨r, k1, htable⟩, himage⟩ := hneeds
  obtain ⟨hkeeps, hfree⟩ := procPagetable_keeps htable
  unfold Kernel.kexec
  dsimp only
  rw [if_neg (not_not.mpr hlen), if_neg (not_not.mpr hmagic)]
  refine .bind_ok htable (.bind (buildImage_exhausts ⟨.inl ?_, ?_⟩ himage))
  · rw [hkeeps.frametable]
    exact h.needs.full hfree
  · refine h.stuck.imp (fun hno => ?_) fun hfull => ⟨?_, ?_⟩
    · have hev := hk.noEvictee hno
      unfold NoEvictee Evictee at hev ⊢
      rw [hkeeps.frametable, hkeeps.proc]
      exact hev
    · rcases procPagetable_spec (D := D) hk.inv htable with ⟨hc, -⟩ | ⟨r', heq, hnew⟩
      · cases hc
      · exact ⟨hnew.inv, hnew.attached hk.attached⟩
    · unfold SlotsFull
      rw [hkeeps.swaptable]
      exact hfull

/-- A request that gets as far as `kalloc_user` panics. -/
theorem panics_of_needsUserPage (h : k.Exhausted) (hreq : k.Requests e)
    (hneeds : k.NeedsUserPage D trampoline e) :
    ∃ msg ∈ exhaustionMessages, k.Panics D trampoline e msg := by
  cases e with
  | sbrk p n lazy ok =>
    obtain ⟨rfl, hn, htop, hlt⟩ := hneeds
    have hpanic : Exhausts (k.sysSbrk D p n false) := by
      unfold Kernel.sysSbrk Kernel.growproc
      rw [if_pos (.inl rfl)]
      dsimp only
      rw [if_pos hn, if_neg (not_lt.mpr htop)]
      exact .bind (uvmalloc_exhausts (hk.starved h) hlt)
    obtain ⟨msg, hmem, heq⟩ := hpanic
    exact ⟨msg, hmem, hreq, heq⟩
  | fault p va ok =>
    obtain ⟨msg, hmem, heq⟩ := hk.fault_exhausts (hk.starved h) (ne_unused hreq) hneeds.1 hneeds.2
    exact ⟨msg, hmem, hreq, heq⟩
  | fork p child =>
    obtain ⟨np, k1, halloc, hcopy⟩ := hneeds
    obtain ⟨msg, hmem, heq⟩ := hk.fork_exhausts h halloc hcopy
    exact ⟨msg, hmem, hreq, heq⟩
  | exec p ip argv ok =>
    have hpanic : Exhausts (k.kexec D trampoline p ip argv) := hk.exec_exhausts h hneeds
    obtain ⟨msg, hmem, heq⟩ := hpanic
    exact ⟨msg, hmem, hreq.1, hreq.2, heq⟩
  | load | store | exit | wait | schedule => exact hneeds.elim

end

end Idle

/-! ## Requests that stop earlier -/

namespace Kernel

variable {σ : Type} {D : SwapDev σ} {k k' : Kernel σ} {p np : ProcId} {r old new : ℕ}
  {msg : String}

lemma uvmalloc_of_le {oldsz newsz : ℕ} {xperm : Flags} (hle : oldsz ≤ newsz)
    (hpages : newsz ≤ pgroundup oldsz) : k.uvmalloc D p r oldsz newsz xperm = .ok (newsz, k) := by
  have hzero : pagesFrom (pgroundup oldsz) newsz = 0 := by
    change (newsz - pgroundup oldsz + 4096 - 1) / 4096 = 0
    omega
  unfold uvmalloc
  rw [if_neg (not_lt.mpr hle)]
  dsimp only
  rw [hzero]
  rfl

/-- The copy of a swapped-out page allocates no user page, and cannot panic. -/
theorem copySwapped_quiet {v : ℕ} {pteVal : Pte} (hQ : k.rest.Quiet msg)
    (hD : D.Avoids msg) (hI : k.core.Inv {}) (hlt : v < USER_TOP) :
    Avoids msg (k.copySwapped D new (v * PGSIZE) np pteVal) := by
  unfold copySwapped
  split
  · exact .ok _
  · rename_i c k1 htake
    obtain ⟨-, -, rfl⟩ := takeSlot_eq_some htake
    split
    · exact .ok _
    · rename_i bounce k2 hkalloc
      obtain ⟨rest, hfree, rfl⟩ := kalloc_some hkalloc
      have hmem : bounce ∈ k.managed := by
        refine (hI.pages.managed bounce).mpr ⟨.free, ?_⟩
        change bounce ∈ k.freelist
        rw [show k.freelist = bounce :: rest from hfree]
        exact List.mem_cons_self
      refine (raidRead_avoids hD).bind fun k3 hread => ?_
      refine (raidWrite_avoids hD).bind fun k4 hwrite => ?_
      have hend : k4.kernelEnd = k.kernelEnd := by
        obtain ⟨⟨pg, dev⟩, -, hread⟩ := bind_eq_ok.mp hread
        obtain ⟨dev', -, hwrite⟩ := bind_eq_ok.mp hwrite
        cases hread
        cases hwrite
        rfl
      refine (kfree_quiet hQ hend hmem).bind fun k5 _ => ?_
      refine .bind ?_ fun res _ => ?_
      · unfold walkAlloc
        rw [if_neg (not_le.mpr (mul_pgsize_lt_maxva hlt))]
        exact .ok _
      · obtain ⟨o, k6⟩ := res
        cases o with
        | none | some => exact .ok _

/-- `uvmcopy` that comes to no resident page does not panic. -/
theorem copyLoop_avoids_of_not_needs (hD : D.Avoids msg) (n : ℕ) : ∀ {k : Kernel σ} {v : ℕ},
    k.rest.Quiet msg → k.core.Inv {} → k.Attached → (k.owner old).isSome →
    k.owner new = some np → k.Framed new → v + n ≤ USER_TOP →
    (∀ v', v ≤ v' → k.page D new v' = none) → ¬CopyNeedsPage D old new np n (v * PGSIZE) k →
    Avoids msg (copyLoop D old new np n (v * PGSIZE) k) := by
  induction n with
  | zero => exact fun _ _ _ _ _ _ _ _ _ => .ok _
  | succ n ih =>
    intro k v hQ hI ha hold hnew hframed hle hempty hneeds
    have hwalk := walk_eq hold (mul_pgsize_lt_maxva (show v < USER_TOP by omega))
    unfold copyLoop
    refine .bind ?_ fun res hpage => ?_
    · unfold copyPage
      rw [bind_of_ok hwalk]
      cases href : k.core.leafRef old (v * PGSIZE / PGSIZE) with
      | none => exact .ok _
      | some pte =>
        dsimp only
        split_ifs with hnone hs
        · exact .ok _
        · exact copySwapped_quiet hQ hD hI (by omega)
        · rw [href] at hwalk
          refine absurd ⟨some pte, hwalk, ?_⟩ hneeds
          dsimp only
          rw [if_neg hnone, if_neg hs]
          trivial
    · obtain ⟨b, k1⟩ := res
      obtain ⟨hI1, hsame, hres⟩ := copyPage_spec hI ha hold hnew hframed (by omega)
        (hempty v le_rfl) hpage
      have hQ1 : k1.rest.Quiet msg := by
        rw [show k1.rest = k.rest from hsame]
        exact hQ
      cases b with
      | false =>
        refine .bind ?_ fun _ _ => .ok _
        rw [mul_pgsize_div, show (0 : ℕ) = 0 * PGSIZE by simp]
        exact uvmunmap_quiet D hQ1 hI1 (by rw [hsame.owner, hnew]; rfl) (by omega)
      | true =>
        have hpage1 := (hres.resolve_right fun hc => by cases hc.1).2
        dsimp only
        rw [← succ_mul]
        refine ih hQ1 hI1 (hsame.attached ha) (by rw [hsame.owner]; exact hold)
          (by rw [hsame.owner, hnew]) (hsame.framed hframed) (by omega) (fun v' hv' => ?_)
          fun hrest => hneeds ?_
        · rw [hpage1, setAt, if_neg (by omega)]
          exact hempty v' (by omega)
        · unfold copyPage at hpage
          obtain ⟨o, hwalk', hpage⟩ := bind_eq_ok.mp hpage
          rw [succ_mul] at hrest
          refine ⟨o, hwalk', ?_⟩
          cases o with
          | none =>
            cases hpage
            exact hrest
          | some pte =>
            dsimp only at hpage ⊢
            split_ifs at hpage ⊢ with hnone hs
            · cases hpage
              exact hrest
            · exact ⟨k1, hpage, hrest⟩

/-- An image that is rejected before its first page. -/
theorem loadHeaders_of_not_needs {ip : File} (n : ℕ) : ∀ {off : ℕ}, ¬ImageNeedsPage ip n off →
    loadHeaders D p ip r n off 0 k = .ok ((false, 0), k) := by
  induction n with
  | zero => exact fun hneeds => absurd trivial hneeds
  | succ n ih =>
    intro off hneeds
    unfold ImageNeedsPage at hneeds
    unfold loadHeaders loadHeader
    dsimp only at hneeds ⊢
    split_ifs at hneeds ⊢
    · rfl
    · rw [bind_of_ok rfl]
      exact ih hneeds
    · rfl
    · rfl
    · rfl
    · -- the segment is empty, and `uvmalloc` returns zero
      have hzero := Nat.eq_zero_of_not_pos hneeds
      rw [hzero, bind_of_ok (uvmalloc_of_le le_rfl (zero_le _))]
      rfl

lemma buildImage_of_not_needs {ip : File} {elf : ElfHdr} {argv : List (List UInt8)}
    (hneeds : ¬ImageNeedsPage ip elf.phnum (elf.phoff % 2 ^ 32)) :
    k.buildImage D p ip elf r argv = .ok ((none, 0), k) := by
  unfold buildImage
  rw [bind_of_ok (loadHeaders_of_not_needs _ hneeds)]
  rfl

/-- A frame that is recorded as the page `w` of the only table of `p` is mapped there. -/
theorem leaf_valid_of_frame {i : Fin NUM_FRAMES} {w : ℕ} (hI : k.core.Inv {})
    (hunique : ∀ r, k.owner r = some p → r = old) (hi : (k.frametable i).inUse ≠ .free)
    (hp : (k.frametable i).p = some p) (hva : (k.frametable i).va = w * PGSIZE) :
    (k.core.leaf old w).flags.v = true := by
  rcases hI.frames.cells.covered i hi with hheld | ⟨⟨r, v⟩, hres⟩
  · cases hheld
  obtain ⟨howned, hva'⟩ := hI.frames.owned _ i hres
  obtain rfl : r = old := hunique r (howned.symm.trans hp)
  obtain rfl : v = w := eq_of_mul_eq_mul_right (by decide) (hva'.symm.trans hva)
  exact hres.2.1

/-- `uvmcopy` that copies an address space with a resident page comes to it. -/
theorem copyNeedsPage_of_frame {i : Fin NUM_FRAMES} {w : ℕ} (n : ℕ) :
    ∀ {k : Kernel σ} {v : ℕ}, k.core.Inv {} → k.owner old = some p →
      (∀ r, k.owner r = some p → r = old) → k.owner new = some np → v + n ≤ USER_TOP →
      (∀ v', v ≤ v' → k.page D new v' = none) → (k.frametable i).inUse ≠ .free →
      (k.frametable i).p = some p → (k.frametable i).va = w * PGSIZE → v ≤ w → w < v + n →
      copyLoop D old new np n (v * PGSIZE) k = .ok (true, k') →
      CopyNeedsPage D old new np n (v * PGSIZE) k := by
  induction n with
  | zero =>
    intro k v hI hold hunique hnew htop hempty hi hp hva hle hlt hrun
    omega
  | succ n ih =>
    intro k v hI hold hunique hnew htop hempty hi hp hva hle hlt hrun
    have hvalid := leaf_valid_of_frame hI hunique hi hp hva
    have hwalk := walk_eq (k := k) (r := old) (by rw [hold]; rfl)
      (mul_pgsize_lt_maxva (show v < USER_TOP by omega))
    rw [mul_pgsize_div] at hwalk
    have hpgsize : (v + 1) * PGSIZE = v * PGSIZE + PGSIZE := succ_mul v PGSIZE
    -- the page `v` is not resident: go on
    have hskip : (k.core.leaf old v).flags.v = false → v + 1 ≤ w := by
      intro hv
      have hvw : v ≠ w := by
        rintro rfl
        rw [hvalid] at hv
        cases hv
      omega
    unfold copyLoop copyPage at hrun
    rw [bind_of_ok hwalk] at hrun
    refine ⟨_, hwalk, ?_⟩
    cases href : k.core.leafRef old v with
    | none =>
      rw [href] at hrun
      change copyLoop D old new np n (v * PGSIZE + PGSIZE) k = _ at hrun
      dsimp only
      rw [← hpgsize] at hrun ⊢
      exact ih hI hold hunique hnew (by omega) (fun v' hv' => hempty v' (by omega)) hi hp hva
        (hskip (by rw [Core.leaf_eq_of_none href])) (by omega) hrun
    | some q =>
      rw [href] at hrun
      dsimp only at hrun ⊢
      rw [pte_eq_leaf href] at hrun ⊢
      split_ifs at hrun ⊢ with hnone hs
      · change copyLoop D old new np n (v * PGSIZE + PGSIZE) k = _ at hrun
        rw [← hpgsize] at hrun ⊢
        exact ih hI hold hunique hnew (by omega) (fun v' hv' => hempty v' (by omega)) hi hp hva
          (hskip hnone.1) (by omega) hrun
      · obtain ⟨⟨b, k1⟩, hcopy, hrun⟩ := bind_eq_ok.mp hrun
        cases b with
        | false =>
          obtain ⟨k2, -, hrun⟩ := bind_eq_ok.mp hrun
          cases hrun
        | true =>
          obtain ⟨hnv, -, -⟩ := hI.slots.swapped (old, v) _ ⟨hs, rfl⟩
          obtain ⟨hI1, hsame, hres⟩ := copySwapped_spec hI hnew hs (hempty v le_rfl) hcopy
          obtain ⟨hft, -, -⟩ := copySwapped_frames hcopy
          have hpage := (hres.resolve_right fun hc => by cases hc.1).2
          refine ⟨k1, hcopy, ?_⟩
          rw [← hpgsize] at hrun ⊢
          refine ih hI1 (by rw [hsame.owner]; exact hold) (by rw [hsame.owner]; exact hunique)
            (by rw [hsame.owner]; exact hnew) (by omega) (fun v' hv' => ?_) (by rw [hft]; exact hi)
            (by rw [hft]; exact hp) (by rw [hft]; exact hva) (hskip hnv) (by omega) hrun
          rw [hpage, setAt, if_neg (by omega)]
          exact hempty v' (by omega)

end Kernel

/-- A request changes no address space of another process. -/
theorem Unlimited.step_of_request {σ : Type} {k : Kernel σ} {e : Event} {u u' : Unlimited}
    {q : ProcId} (hreq : k.Requests e) (hstep : u.step e = some u') (hq : q ≠ e.process)
    (hlive : (u q).isSome) : u' q = u q := by
  have hmodify : ∀ {p : ProcId} {f : AddressSpace → Option AddressSpace} {ok : Bool}, q ≠ p →
      (if ok then u.modify p f else some u) = some u' → u' q = u q := by
    intro p f ok hqp h
    split_ifs at h
    · obtain ⟨a, -, h⟩ := bind_eq_some_iff.mp h
      obtain ⟨a', -, h⟩ := bind_eq_some_iff.mp h
      cases h
      exact update_of_ne hqp _ _
    · cases h
      rfl
  cases e with
  | sbrk | fault | exec => exact hmodify hq hstep
  | fork p child =>
    cases child with
    | none =>
      cases hstep
      rfl
    | some np =>
      change (if (u np).isNone then (u p).map fun a => update u np (some a) else none) = _
        at hstep
      split_ifs at hstep with hnone
      obtain ⟨a, -, rfl⟩ := map_eq_some_iff.mp hstep
      refine update_of_ne ?_ _ _
      -- the child did not exist before
      rintro rfl
      rw [isNone_iff_eq_none] at hnone
      rw [hnone] at hlive
      cases hlive
  | load | store | exit | wait | schedule => exact hreq.elim

namespace Idle

variable {σ : Type} {D : SwapDev σ} {m : List ℕ} {k k' : Kernel σ} {p : ProcId} {v pa : ℕ}
  {trampoline : ℕ} {e : Event} {msg : String}

lemma ne_unused_of_running (hp : (k.proc p).state = .running) : (k.proc p).state ≠ .unused := by
  rw [hp]
  simp

lemma vmfault_avoids_of_not_needs {va : ℕ} (hk : Idle D m k) (hp : (k.proc p).state ≠ .unused)
    (hneeds : ¬(va < (k.proc p).sz ∧ (k.userEntry p (va / PGSIZE)).flags.v = false)) :
    Avoids msg (k.vmfault D p (k.proc p).pagetable va) := by
  unfold vmfault
  split_ifs with hsz
  · exact .ok _
  · have hlt : va < (k.proc p).sz := Nat.lt_of_not_le hsz
    have hv : (k.userEntry p (va / PGSIZE)).flags.v = true := by
      rw [← Bool.not_eq_false]
      exact fun hv => hneeds ⟨hlt, hv⟩
    have hmax := mul_pgsize_lt_maxva
      (hk.lt_top ((div_mul_le_self va PGSIZE).trans_lt hlt))
    have hmapped : k.ismapped (k.proc p).pagetable (pgrounddown va) = .ok true := by
      rw [← hv]
      exact hk.ismapped_eq hp hmax
    dsimp only
    rw [bind_of_ok hmapped]
    exact .ok _

section

variable (hk : Idle D m k) (hQ : k.rest.Quiet msg)

include hk hQ

lemma sysSbrk_avoids_of_not_needs {n : ℤ} {lazy : Bool} (hp : (k.proc p).state ≠ .unused)
    (hneeds : ¬(lazy = false ∧ 0 < n ∧ (k.proc p).sz + n.toNat ≤ TRAPFRAME ∧
      pgroundup (k.proc p).sz < (k.proc p).sz + n.toNat)) :
    Avoids msg (k.sysSbrk D p n lazy) := by
  unfold Kernel.sysSbrk
  dsimp only
  split_ifs with hmode
  · unfold Kernel.growproc
    dsimp only
    split_ifs with hn htop
    · exact .ok _
    · -- the new size is in the last page, and there is nothing to allocate
      have hlazy : lazy = false := hmode.resolve_right (by omega)
      have hlast : ¬pgroundup (k.proc p).sz < (k.proc p).sz + n.toNat := fun hlt =>
        hneeds ⟨hlazy, hn, Nat.le_of_not_lt htop, hlt⟩
      rw [bind_of_ok (uvmalloc_of_le (Nat.le_add_right _ _) (Nat.le_of_not_lt hlast))]
      dsimp only
      split_ifs
      · exact .ok _
      · exact .ok _
    · refine .bind ?_ fun _ _ => .ok _
      exact uvmdealloc_quiet D hQ hk.inv (by rw [hk.owner hp]; rfl) (hk.top p)
    · exact .ok _
  · exact .ok _
  · exact .ok _
  · exact .ok _

lemma kfork_avoids_of_not_needs {child : Option ProcId} (hD : D.Avoids msg)
    (hp : (k.proc p).state ≠ .unused) (hneeds : ¬k.NeedsUserPage D trampoline (.fork p child)) :
    Avoids msg (k.kfork D trampoline p) := by
  refine hk.kfork_avoids_of_uvmcopy hQ hp fun np k1 halloc => ?_
  obtain ⟨hk1, hcases⟩ := hk.allocproc halloc
  rcases hcases with ⟨hc, -⟩ | ⟨np', heq, hnp, hnp1, hother, hempty, -⟩
  · cases hc
  obtain rfl := Option.some.inj heq
  have hne : p ≠ np := by
    rintro rfl
    exact hp hnp
  have hlive : (k1.proc p).state ≠ .unused := by rw [hother p hne]; exact hp
  have hcount : pagesFrom 0 (k1.proc p).sz = pageCount (k1.proc p).sz := pagesFrom_eq 0 _
  have htop : pageCount (k1.proc p).sz ≤ USER_TOP := hk1.top p
  have hcopy : ¬CopyNeedsPage D (k1.proc p).pagetable (k1.proc np).pagetable np
      (pageCount (k1.proc p).sz) (0 * PGSIZE) k1 := by
    rw [Nat.zero_mul, ← hcount]
    exact fun hcopy => hneeds ⟨np, k1, halloc, hcopy⟩
  unfold Kernel.uvmcopy
  rw [hcount, show (0 : ℕ) = 0 * PGSIZE by simp]
  exact copyLoop_avoids_of_not_needs hD _ (hk.allocproc_quiet hQ halloc) hk1.inv hk1.attached
    (by rw [hk1.owner hlive]; rfl) (hk1.owner hnp1) (hk1.framed hnp1) (by omega)
    (fun v' _ => hempty v') hcopy

/-- A request that does not get as far as `kalloc_user` does not panic. -/
theorem not_panics_of_not_needsUserPage (hD : D.Avoids msg) (hreq : k.Requests e)
    (hneeds : ¬k.NeedsUserPage D trampoline e) : ¬k.Panics D trampoline e msg := by
  cases e with
  | sbrk p n lazy ok =>
    exact fun hpanic =>
      hk.sysSbrk_avoids_of_not_needs hQ (ne_unused_of_running hreq) hneeds hpanic.2
  | fault p va ok =>
    exact fun hpanic => hk.vmfault_avoids_of_not_needs (ne_unused_of_running hreq) hneeds hpanic.2
  | fork p child =>
    exact fun hpanic =>
      hk.kfork_avoids_of_not_needs hQ hD (ne_unused_of_running hreq) hneeds hpanic.2
  | exec p ip argv ok =>
    refine fun hpanic => hk.kexec_avoids_of_buildImage hQ (ne_unused_of_running hreq.1) hreq.2
      (fun hlen hmagic r k1 htable => ?_) hpanic.2.2
    rw [buildImage_of_not_needs fun himage => hneeds ⟨hlen, hmagic, ⟨r, k1, htable⟩, himage⟩]
    exact .ok _
  | load | store | exit | wait | schedule => exact hreq.elim

end

/-- A fork that succeeds without a user page is that of a process with no resident page. -/
theorem fork_failed {child : Option ProcId} (hk : Idle D m k) (hp : (k.proc p).state ≠ .unused)
    (hneeds : ¬k.NeedsUserPage D trampoline (.fork p child)) (hmaps : k.Maps p v pa)
    (hrun : k.kfork D trampoline p = .ok (child, k')) : child = none := by
  unfold Kernel.kfork at hrun
  obtain ⟨⟨o1, k1⟩, halloc, hrun⟩ := bind_eq_ok.mp hrun
  obtain ⟨hk1, hcases⟩ := hk.allocproc halloc
  rcases hcases with ⟨rfl, -⟩ | ⟨np, rfl, hnp, hnp1, hother, hempty, -⟩
  · cases hrun
    rfl
  obtain ⟨⟨copied, k2⟩, hcopy, hrun⟩ := bind_eq_ok.mp hrun
  cases copied with
  | false =>
    obtain ⟨k3, -, hrun⟩ := bind_eq_ok.mp hrun
    cases hrun
    rfl
  | true =>
    refine absurd ⟨np, k1, halloc, ?_⟩ hneeds
    have hne : p ≠ np := by
      rintro rfl
      exact hp hnp
    obtain ⟨i, hrec, -⟩ := hk.frame_of_page hmaps
    obtain ⟨hft, -, -⟩ := allocproc_frames halloc
    have hproc : k1.proc p = k.proc p := hother p hne
    have hlive : (k1.proc p).state ≠ .unused := by rw [hproc]; exact hp
    have hcount : pagesFrom 0 (k1.proc p).sz = pageCount (k1.proc p).sz := pagesFrom_eq 0 _
    have htop : pageCount (k1.proc p).sz ≤ USER_TOP := hk1.top p
    have hlt : v < pageCount (k1.proc p).sz := by
      have hsz := hmaps.2.1
      rw [hproc]
      change v * 4096 < _ at hsz
      change v < (_ + 4096 - 1) / 4096
      omega
    have hunique : ∀ r, k1.owner r = some p → r = (k1.proc p).pagetable := fun r hr =>
      ((hk1.settled.owner r p).mp hr).1.symm
    have hzero : (0 : ℕ) = 0 * PGSIZE := by simp
    unfold Kernel.uvmcopy at hcopy
    rw [hcount, hzero] at hcopy ⊢
    exact copyNeedsPage_of_frame (i := i) (w := v) _ hk1.inv (hk1.owner hlive) hunique
      (hk1.owner hnp1) (by omega) (fun v' _ => hempty v') (by rw [hft, hrec.1]; simp)
      (by rw [hft]; exact hrec.2.1) (by rw [hft]; exact hrec.2.2.1) (zero_le v) (by omega) hcopy

lemma exec_failed {ip : File} {argv : List (List UInt8)} {ok : Bool}
    (hneeds : ¬k.NeedsUserPage D trampoline (.exec p ip argv ok))
    (hrun : k.kexec D trampoline p ip argv = .ok (ok, k')) : ok = false := by
  unfold Kernel.kexec at hrun
  dsimp only at hrun
  split_ifs at hrun with hlen hmagic
  · cases hrun
    rfl
  · cases hrun
    rfl
  · obtain ⟨⟨o, k1⟩, htable, hrun⟩ := bind_eq_ok.mp hrun
    cases o with
    | none =>
      cases hrun
      rfl
    | some r =>
      dsimp only at hrun
      rw [bind_of_ok (buildImage_of_not_needs fun himage =>
        hneeds ⟨not_not.mp hlen, not_not.mp hmagic, ⟨r, k1, htable⟩, himage⟩)] at hrun
      obtain ⟨k2, -, hrun⟩ := bind_eq_ok.mp hrun
      cases hrun
      rfl

lemma failed_of_not_needsUserPage (hk : Idle D m k) (hreq : k.Requests e)
    (hneeds : ¬k.NeedsUserPage D trampoline e) (hstep : k.Step D trampoline e k')
    (hasks : k.AsksForPage e) : e.Failed := by
  cases e with
  | sbrk p n lazy ok =>
    obtain ⟨rfl, hn, hlt⟩ := hasks
    have htop : TRAPFRAME < (k.proc p).sz + n.toNat := by
      by_contra hle
      exact hneeds ⟨rfl, hn, Nat.le_of_not_lt hle, hlt⟩
    have hrun : k.sysSbrk D p n false = .ok (ok, k') := hstep.2
    unfold Kernel.sysSbrk Kernel.growproc at hrun
    rw [if_pos (.inl rfl)] at hrun
    dsimp only at hrun
    rw [if_pos hn, if_pos htop] at hrun
    cases hrun
    rfl
  | fault p va ok => exact absurd hasks hneeds
  | fork p child =>
    obtain ⟨v, pa, hmaps⟩ := hasks
    exact hk.fork_failed (ne_unused_of_running hreq) hneeds hmaps hstep.2
  | exec p ip argv ok => exact exec_failed hneeds hstep.2.2
  | load | store | exit | wait | schedule => exact hreq.elim

lemma view_of_request {q : ProcId} (hk : Idle D m k) (hD : D.Lawful) (hreq : k.Requests e)
    (hstep : k.Step D trampoline e k') (hq : q ≠ e.process) (hlive : (k.proc q).state ≠ .unused) :
    k'.view D q = k.view D q := by
  have hstatus : e.NoStatus := by
    cases e with
    | wait p addr child => exact hreq.elim
    | _ => trivial
  refine Unlimited.step_of_request hreq ((hk.step hstep).2 hD hstatus) hq ?_
  rw [view_eq hlive]
  rfl

end Idle

/-- **Running out of memory.** On a device that keeps its pages and does not panic, let no frame or
no physical page be free, and let no frame be evictable or no slot be free. A request for memory is
handled as an error, without a panic and without an effect on other processes, if and only if it
does not get as far as its first call of `kalloc_user`. -/
theorem out_of_memory_handled_iff {σ : Type} {D : SwapDev σ} {trampoline : ℕ} {k : Kernel σ}
    {e : Event} (hk : (memorySystem D trampoline).Reachable k) (hrange : k.rest.InRange)
    (hlawful : D.Lawful) (hD : ∀ msg, D.Avoids msg) (hex : k.Exhausted) (hreq : k.Requests e) :
    k.HandlesExhaustion D trampoline e ↔ ¬k.NeedsUserPage D trampoline e := by
  have hidle := idle_of_reachable hk
  constructor
  · rintro ⟨hsafe, -⟩ hneeds
    obtain ⟨msg, -, hpanic⟩ := hidle.panics_of_needsUserPage hex hreq hneeds
    exact hsafe msg hpanic
  · intro hneeds
    refine ⟨fun msg => ?_, fun k' hstep => ⟨?_, fun q hq hlive => ?_⟩⟩
    · exact hidle.not_panics_of_not_needsUserPage (.inr hrange) (hD msg) hreq hneeds
    · exact hidle.failed_of_not_needsUserPage hreq hneeds hstep
    · exact hidle.view_of_request hlawful hreq hstep hq hlive

/-! ## A process that fills memory -/

/-- `init`, whose pages are never evicted, fills all frames. -/
def fillingRun : List Event :=
  [.schedule ⟨0, nproc_pos⟩ .running 0, .sbrk ⟨0, nproc_pos⟩ (64 * 4096) false true]

/-- What the kernel looks like after `fillingRun`. -/
structure Kernel.Filled {σ : Type} (k : Kernel σ) : Prop where
  running : (k.proc ⟨0, by decide⟩).state = .running
  sz : (k.proc ⟨0, by decide⟩).sz = 64 * 4096
  needs : k.NeedsVictim
  fixed : ∀ i, ∀ p ∈ (k.frametable i).p, ¬k.Evictee p
  range : ∀ pg ∈ k.managed, k.kernelEnd ≤ pg ∧ pg < PHYSTOP_PAGE

instance {σ : Type} (k : Kernel σ) : Decidable k.Filled :=
  decidable_of_iff ((k.proc ⟨0, nproc_pos⟩).state = .running ∧
      (k.proc ⟨0, nproc_pos⟩).sz = 64 * 4096 ∧ k.NeedsVictim ∧
      (∀ i, ∀ p ∈ (k.frametable i).p, ¬k.Evictee p) ∧
      ∀ pg ∈ k.managed, k.kernelEnd ≤ pg ∧ pg < PHYSTOP_PAGE)
    ⟨fun ⟨h1, h2, h3, h4, h5⟩ => ⟨h1, h2, h3, h4, h5⟩, fun h => ⟨h.1, h.2, h.3, h.4, h.5⟩⟩

lemma Kernel.Filled.exhausted {σ : Type} {k : Kernel σ} (h : k.Filled) : k.Exhausted :=
  ⟨h.needs, .inl fun i p hev => h.fixed i p hev.owner hev.evictee⟩

lemma exists_filled : ∃ k0 k, (memorySystem arrayDev 0x80000).init k0 ∧
    (memorySystem arrayDev 0x80000).Run k0 fillingRun k ∧ k.Filled ∧
    k.sysSbrk arrayDev ⟨0, by decide⟩ 4096 false =
      .error "get_victim: no valid frames to evict" := by
  have heval : (bootRun arrayDev (fun _ => 0) 0x80000 200 fillingRun).any (fun k =>
      decide (k.Filled ∧ (k.sysSbrk arrayDev ⟨0, by decide⟩ 4096 false).map (fun _ => ()) =
        .error "get_victim: no valid frames to evict")) = true := by
    decide +kernel
  obtain ⟨k, hk, hfilled⟩ := any_eq_true _ _ |>.mp heval
  obtain ⟨k0, hinit, hrun⟩ := run_of_bootRun hk
  obtain ⟨hfilled, hpanic⟩ := of_decide_eq_true hfilled
  refine ⟨k0, k, hinit, hrun, hfilled, ?_⟩
  generalize k.sysSbrk arrayDev ⟨0, by decide⟩ 4096 false = x at hpanic ⊢
  cases x with
  | error msg =>
    cases hpanic
    rfl
  | ok a => cases hpanic

/-- **Asking for one page too many panics.** `init` fills all frames and asks for one more page. -/
theorem out_of_memory_panics : ∃ k0 k, (memorySystem arrayDev 0x80000).init k0 ∧
    (memorySystem arrayDev 0x80000).Run k0 fillingRun k ∧ k.Exhausted ∧
    k.AsksForPage (.sbrk ⟨0, by decide⟩ 4096 false false) ∧
    k.Panics arrayDev 0x80000 (.sbrk ⟨0, by decide⟩ 4096 false false)
      "get_victim: no valid frames to evict" ∧
    ¬k.HandlesExhaustion arrayDev 0x80000 (.sbrk ⟨0, by decide⟩ 4096 false false) := by
  obtain ⟨k0, k, hinit, hrun, hfilled, hpanic⟩ := exists_filled
  refine ⟨k0, k, hinit, hrun, hfilled.exhausted, ⟨rfl, by decide, ?_⟩, ⟨hfilled.running, hpanic⟩,
    fun hsafe => hsafe.1 _ ⟨hfilled.running, hpanic⟩⟩
  rw [hfilled.sz]
  decide

/-- In the same state the `exec` of an empty file is handled, and the `sbrk` is not. -/
theorem out_of_memory_handled_exec : ∃ k0 k, (memorySystem arrayDev 0x80000).init k0 ∧
    (memorySystem arrayDev 0x80000).Run k0 fillingRun k ∧ k.Exhausted ∧
    k.HandlesExhaustion arrayDev 0x80000 (.exec ⟨0, by decide⟩ ⟨0, fun _ => 0⟩ [] false) ∧
    ¬k.HandlesExhaustion arrayDev 0x80000 (.sbrk ⟨0, by decide⟩ 4096 false false) := by
  obtain ⟨k0, k, hinit, hrun, hfilled, -⟩ := exists_filled
  have hhandled : ∀ e, k.Requests e →
      (k.HandlesExhaustion arrayDev 0x80000 e ↔ ¬k.NeedsUserPage arrayDev 0x80000 e) := fun _ =>
    out_of_memory_handled_iff (hrun.reachable (.init hinit)) hfilled.range arrayDev_lawful
      (fun msg => ⟨fun _ _ _ _ => .ok _, fun _ _ _ _ => .ok _⟩) hfilled.exhausted
  have hexec := hhandled (.exec ⟨0, by decide⟩ ⟨0, fun _ => 0⟩ [] false) ⟨hfilled.running, by simp⟩
  have hsbrk := hhandled (.sbrk ⟨0, by decide⟩ 4096 false false) hfilled.running
  refine ⟨k0, k, hinit, hrun, hfilled.exhausted, hexec.mpr ?_,
    fun hsafe => hsbrk.mp hsafe ⟨rfl, by decide, ?_, ?_⟩⟩
  · rintro ⟨hlen, -⟩
    revert hlen
    decide
  · rw [hfilled.sz]
    decide
  · rw [hfilled.sz]
    decide

end Xv6.VM
