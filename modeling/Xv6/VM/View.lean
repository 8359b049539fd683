import Xv6.Foundations.Fallible
import Xv6.VM.TableMoves
import Xv6.VM.Unlimited

/-!
# What user code sees of its memory

`Kernel.page` is the abstract page behind an entry of a page table: its bytes, in a frame or in a
swap slot, and its permissions. `Kernel.Same` says that two states agree on everything but pages,
frames and slots. The specifications of the kernel functions are stated with these two and with the
ownership invariant of `Kernel.core`.
-/

namespace Xv6.VM

namespace SwapDev

variable {σ : Type} (D : SwapDev σ)

open Classical in
/-- The bytes of a page as far as the development speaks about them: all of them if the device keeps
what is written to it, nothing if it may lose pages. -/
noncomputable def seen (pg : Page) : Page := if D.Lawful then pg else 0

/-- The bytes in a slot. -/
noncomputable def slotBytes (s : σ) (j : ℕ) : Page := D.seen (D.stored s j)

variable {D} {noff slot : ℕ} {pg old : Page} {s s' : σ}

lemma seen_of_lawful (hD : D.Lawful) : D.seen = id := by
  funext pg
  exact if_pos hD

@[simp]
lemma seen_zero : D.seen 0 = 0 := by
  unfold seen
  split_ifs <;> rfl

/-- What is seen of a page after a store depends on what was seen before. -/
theorem seen_write (pg : Page) (off : ℕ) (bytes : List UInt8) :
    D.seen ((D.seen pg).write off bytes) = D.seen (pg.write off bytes) := by
  unfold seen
  split_ifs <;> rfl

lemma slotBytes_write (hslot : slot < MAX_SWAP_PAGES) (h : D.write noff slot pg s = .ok s') :
    D.slotBytes s' = Function.update (D.slotBytes s) slot (D.seen pg) := by
  funext j
  by_cases hD : D.Lawful
  · simp only [slotBytes, seen_of_lawful hD, id, hD.write_stored hslot h]
    by_cases hj : j = slot
    · simp [hj]
    · simp [hj, slotBytes, seen_of_lawful hD]
  · by_cases hj : j = slot
    · simp [slotBytes, seen, hD, hj]
    · simp [slotBytes, seen, hD, hj]

lemma slotBytes_read (hslot : slot < MAX_SWAP_PAGES)
    (h : D.read noff slot old s = .ok (pg, s')) :
    D.seen pg = D.slotBytes s slot ∧ D.slotBytes s' = D.slotBytes s := by
  by_cases hD : D.Lawful
  · obtain ⟨hpg, hs⟩ := hD.read_eq hslot h
    exact ⟨by rw [slotBytes, hpg], funext fun j => by rw [slotBytes, slotBytes, hs]⟩
  · exact ⟨by simp [slotBytes, seen, hD], funext fun j => by simp [slotBytes, seen, hD]⟩

end SwapDev

namespace Kernel

variable {σ : Type} {D : SwapDev σ} {k k' k'' : Kernel σ}

/-- The abstract page behind an entry, if the entry is that of a user page that has been
allocated. -/
noncomputable def entryPage (D : SwapDev σ) (k : Kernel σ) (v : ℕ) (e : Pte) : Option UPage :=
  if USER_TOP ≤ v then none
  else if e.flags.v then some (.ofFlags (D.seen (k.mem e.num)) e.flags)
  else if e.flags.s then some (.ofFlags (D.slotBytes k.dev e.num) e.flags)
  else none

/-- The abstract page `v` of the table rooted at `r`. -/
noncomputable def page (D : SwapDev σ) (k : Kernel σ) (r v : ℕ) : Option UPage :=
  k.entryPage D v (k.core.leaf r v)

/-- What matters of the entry of a page above user memory: `PTE_V` and `PTE_U`. -/
def upperBits (e : Pte) : Bool × Bool := (e.flags.v, e.flags.u)

/-- Everything but pages, frames and slots: the processes, which page tables there are, what is
mapped above user memory, and which physical pages there are. -/
structure Rest where
  proc : ProcId → Proc
  owner : ℕ → Option ProcId
  upper : ℕ → ℕ → Bool × Bool
  noff : ℕ
  nextpid : ℕ
  initproc : Option ProcId
  managed : List ℕ
  kernelEnd : ℕ

def rest (k : Kernel σ) : Rest where
  proc := k.proc
  owner := k.owner
  upper r v := if USER_TOP ≤ v then upperBits (k.core.leaf r v) else (false, false)
  noff := k.noff
  nextpid := k.nextpid
  initproc := k.initproc
  managed := k.managed
  kernelEnd := k.kernelEnd

/-- The states differ at most in pages, frames and slots. -/
def Same (k k' : Kernel σ) : Prop := k'.rest = k.rest

lemma Same.refl (k : Kernel σ) : k.Same k := rfl

lemma Same.trans (h : k.Same k') (h' : k'.Same k'') : k.Same k'' := Eq.trans h' h

lemma Same.proc (h : k.Same k') : k'.proc = k.proc := congrArg Rest.proc h

lemma Same.owner (h : k.Same k') : k'.owner = k.owner := congrArg Rest.owner h

lemma Same.managed (h : k.Same k') : k'.managed = k.managed := congrArg Rest.managed h

lemma Same.upper (h : k.Same k') {r v : ℕ} (hv : USER_TOP ≤ v) :
    upperBits (k'.core.leaf r v) = upperBits (k.core.leaf r v) := by
  have := congrFun (congrFun (congrArg Rest.upper h) r) v
  simpa [rest, hv] using this

lemma Same.mk (hproc : k'.proc = k.proc) (howner : k'.owner = k.owner)
    (hupper : ∀ r v, USER_TOP ≤ v → upperBits (k'.core.leaf r v) = upperBits (k.core.leaf r v))
    (hnoff : k'.noff = k.noff) (hnextpid : k'.nextpid = k.nextpid)
    (hinitproc : k'.initproc = k.initproc) (hmanaged : k'.managed = k.managed)
    (hend : k'.kernelEnd = k.kernelEnd) : k.Same k' := by
  unfold Same rest
  rw [hproc, howner, hnoff, hnextpid, hinitproc, hmanaged, hend]
  congr 1
  funext r v
  split_ifs with hv
  · exact hupper r v hv
  · rfl

/-- The page tables of the processes are tables made for them. -/
def Attached (k : Kernel σ) : Prop :=
  ∀ p, (k.proc p).pagetable ≠ 0 → k.owner (k.proc p).pagetable = some p

lemma Same.attached (h : k.Same k') (ha : k.Attached) : k'.Attached := by
  unfold Attached
  rw [h.proc, h.owner]
  exact ha

/-! ## Looking up an entry -/

variable {r va v : ℕ} {q : ℕ × ℕ}

lemma px_eq (hva : va < MAXVA) : px 2 va = va / PGSIZE / 512 / 512 ∧
    px 1 va = va / PGSIZE / 512 % 512 ∧ px 0 va = va / PGSIZE % 512 ∧
    va / PGSIZE / 512 / 512 < 512 := by
  have hlt : va < 2 ^ 38 := hva
  refine ⟨?_, ?_, ?_, ?_⟩
  · change va / 2 ^ 30 % 512 = va / 4096 / 512 / 512
    omega
  · change va / 2 ^ 21 % 512 = va / 4096 / 512 % 512
    omega
  · rfl
  · change va / 4096 / 512 / 512 < 512
    omega

lemma walk_eq (hr : (k.owner r).isSome) (hva : va < MAXVA) :
    k.walk r va = .ok (k.core.leafRef r (va / PGSIZE)) := by
  obtain ⟨h2, h1, h0, hlt⟩ := px_eq hva
  have hdir1 : k.core.dir1 r (va / PGSIZE / 512 / 512) =
      k.child r (va / PGSIZE / 512 / 512) := if_pos ⟨hr, hlt⟩
  unfold walk Core.leafRef Core.dir0
  rw [if_neg (by simpa using hva), hdir1, h2, h1, h0]
  cases hl1 : k.child r (va / PGSIZE / 512 / 512) with
  | none => rfl
  | some l1 =>
    have hchild : k.core.child l1 (va / PGSIZE / 512 % 512) =
      k.child l1 (va / PGSIZE / 512 % 512) := rfl
    dsimp only [Option.bind]
    rw [hchild]
    cases k.child l1 (va / PGSIZE / 512 % 512) <;> rfl

lemma walk_ok (hr : (k.owner r).isSome) {o : Option (ℕ × ℕ)} (h : k.walk r va = .ok o) :
    va < MAXVA ∧ k.core.leafRef r (va / PGSIZE) = o := by
  by_cases hva : va < MAXVA
  · rw [walk_eq hr hva] at h
    injection h with h
    exact ⟨hva, h⟩
  · unfold walk at h
    rw [if_pos (by simpa using hva)] at h
    cases h

lemma pte_eq_leaf (hq : k.core.leafRef r v = some q) : k.pte q = k.core.leaf r v :=
  (Core.leaf_eq_of_ref hq).symm

/-! ## The abstract page behind an entry -/

lemma page_of_top (hv : USER_TOP ≤ v) : k.page D r v = none := if_pos hv

lemma page_of_valid (hv : v < USER_TOP) (he : (k.core.leaf r v).flags.v = true) :
    k.page D r v =
      some (.ofFlags (D.seen (k.mem (k.core.leaf r v).num)) (k.core.leaf r v).flags) := by
  unfold page entryPage
  rw [if_neg (by omega), if_pos he]

lemma page_of_swapped (hv : v < USER_TOP) (he : (k.core.leaf r v).flags.v = false)
    (hs : (k.core.leaf r v).flags.s = true) :
    k.page D r v =
      some (.ofFlags (D.slotBytes k.dev (k.core.leaf r v).num) (k.core.leaf r v).flags) := by
  unfold page entryPage
  rw [if_neg (by omega), if_neg (by simp [he]), if_pos hs]

@[simp]
lemma entryPage_empty : k.entryPage D v {} = none := by
  simp [entryPage]

lemma page_of_empty (he : k.core.leaf r v = {}) : k.page D r v = none := by
  rw [page, he, entryPage_empty]

lemma page_setPte {h : Held} (hI : k.core.Inv h) (hq : k.core.leafRef r v = some q) (e : Pte) :
    (k.setPte q e).page D = setAt (k.page D) r v (k.entryPage D v e) := by
  funext r' v'
  change k.entryPage D v' ((k.core.setPte q e).leaf r' v') = _
  rw [hI.pages.leaf_setPte hq]
  unfold setAt
  split_ifs with hrv
  · rw [hrv.2]
  · rfl

lemma page_of_leaf_eq (hleaf : k'.core.leaf = k.core.leaf) (hmem : k'.mem = k.mem)
    (hdev : k'.dev = k.dev) : k'.page D = k.page D := by
  unfold page entryPage
  rw [hleaf, hmem, hdev]

lemma page_congr {r' v' : ℕ} (hv : USER_TOP ≤ v' ↔ USER_TOP ≤ v)
    (hleaf : (k'.core.leaf r' v').num = (k.core.leaf r v).num ∧
      (k'.core.leaf r' v').flags.v = (k.core.leaf r v).flags.v ∧
      (k'.core.leaf r' v').flags.s = (k.core.leaf r v).flags.s ∧
      ∀ bytes, UPage.ofFlags bytes (k'.core.leaf r' v').flags =
        .ofFlags bytes (k.core.leaf r v).flags)
    (hmem : v < USER_TOP → (k.core.leaf r v).flags.v = true →
      k'.mem (k.core.leaf r v).num = k.mem (k.core.leaf r v).num)
    (hdev : v < USER_TOP → (k.core.leaf r v).flags.v = false → (k.core.leaf r v).flags.s = true →
      D.slotBytes k'.dev (k.core.leaf r v).num = D.slotBytes k.dev (k.core.leaf r v).num) :
    k'.page D r' v' = k.page D r v := by
  obtain ⟨hnum, hfv, hfs, hperm⟩ := hleaf
  unfold page entryPage
  simp only [hnum, hfv, hfs, hperm]
  by_cases htop : USER_TOP ≤ v
  · rw [if_pos htop, if_pos (hv.mpr htop)]
  · rw [if_neg htop, if_neg (fun hc => htop (hv.mp hc))]
    split_ifs with hvalid hswap
    · rw [hmem (by omega) hvalid]
    · rw [hdev (by omega) ((Bool.not_eq_true _).mp hvalid) hswap]
    · rfl

/-! ## The page that a process finds in its table -/

/-- The entry of the page `v` in the page table of `p`, zero if there is none. -/
def userEntry (k : Kernel σ) (p : ProcId) (v : ℕ) : Pte :=
  match k.walk (k.proc p).pagetable (v * PGSIZE) with
  | .ok (some pte) => k.pte pte
  | _ => {}

/-- The content and the permissions of the page `v` of `p`: the bytes of its frame if `PTE_V` is
set, those of its slot if `PTE_S` is set, and zeros otherwise. -/
def userPage (D : SwapDev σ) (k : Kernel σ) (p : ProcId) (v : ℕ) : UPage :=
  let e := k.userEntry p v
  .ofFlags (if e.flags.v then k.mem e.num else if e.flags.s then D.stored k.dev e.num else 0)
    e.flags

variable {p : ProcId}

lemma mul_pgsize_lt_maxva (hv : v < USER_TOP) : v * PGSIZE < MAXVA := by
  change v * 4096 < 2 ^ 38
  change v < (2 ^ 38 - 4096 - 4096) / 4096 at hv
  omega

lemma userEntry_eq (hr : (k.owner (k.proc p).pagetable).isSome) (hva : v * PGSIZE < MAXVA) :
    k.userEntry p v = k.core.leaf (k.proc p).pagetable v := by
  have hdiv : v * PGSIZE / PGSIZE = v := Nat.mul_div_cancel v (by decide)
  unfold userEntry
  rw [walk_eq hr hva, hdiv]
  cases hq : k.core.leafRef (k.proc p).pagetable v with
  | none => exact (Core.leaf_eq_of_none hq).symm
  | some q => exact pte_eq_leaf hq

/-- There is no entry beyond the end of the address space. -/
theorem userEntry_of_maxva_le (hva : MAXVA ≤ v * PGSIZE) : k.userEntry p v = {} := by
  unfold userEntry walk
  rw [if_pos hva]

lemma userPage_eq {h : Held} (hD : D.Lawful) (hI : k.core.Inv h)
    (hr : (k.owner (k.proc p).pagetable).isSome) (hv : v < USER_TOP) :
    k.userPage D p v = (k.page D (k.proc p).pagetable v).getD (.zeros {}) := by
  unfold userPage page entryPage SwapDev.slotBytes
  rw [userEntry_eq hr (mul_pgsize_lt_maxva hv), SwapDev.seen_of_lawful hD, if_neg (by omega)]
  dsimp only
  split_ifs with hvalid hswap
  · rfl
  · rfl
  · rw [hI.shape _ _ ((Bool.not_eq_true _).mp hvalid) ((Bool.not_eq_true _).mp hswap)]
    rfl

/-- What holds whenever `kalloc_user` is called, also in the middle of an operation: each page,
frame and slot has one use, and the page tables of the processes are tables made for them. -/
structure Consistent (k : Kernel σ) : Prop where
  inv : k.core.Inv {}
  attached : k.Attached

/-- Every page of every process has the same content and permissions in both states. -/
def SamePages (D : SwapDev σ) (k k' : Kernel σ) : Prop :=
  ∀ p v, (k.proc p).pagetable ≠ 0 → v < USER_TOP → k'.userPage D p v = k.userPage D p v

lemma samePages_of_page_eq {h h' : Held} (hD : D.Lawful) (ha : k.Attached)
    (hI : k.core.Inv h) (hI' : k'.core.Inv h') (hsame : k.Same k')
    (hpage : k'.page D = k.page D) : k.SamePages D k' := by
  intro p v hp hv
  have hr : (k.owner (k.proc p).pagetable).isSome := by rw [ha p hp]; rfl
  have hr' : (k'.owner (k'.proc p).pagetable).isSome := by rw [hsame.owner, hsame.proc]; exact hr
  rw [userPage_eq hD hI' hr' hv, userPage_eq hD hI hr hv, hsame.proc, hpage]

end Kernel

end Xv6.VM
