import Xv6.VM.Releasing
import Xv6.VM.System

/-!
# A page table is a finite map

The three levels of a page table implement a map from page-aligned addresses to entries,
`Kernel.binding`, which is what `walk` finds. `mappages` and `uvmunmap` change this map on the pages
that they are given and nowhere else, although `walk` adds page-table pages that neighbouring
addresses share. `Kernel.IsMap` collects what the operations do to the map, and that the
page-table pages form a tree that `freewalk` gives back as a whole.

All of this rests on one invariant, `Core.PagesOk`: a physical page has one use, of which being the
page of a directory entry is one. What the entries of pages map does not matter for it, so it holds
for every table that is built by the operations in any order.
-/

namespace Xv6.VM

open Fallible Nat

/-- The entry after `uvmunmap`, which clears the entries that are valid or swapped out. -/
def Pte.unmapped (e : Pte) : Pte :=
  if e.flags.v = false ∧ e.flags.s = false then e else {}

namespace Kernel

variable {σ : Type} {k k' k'' : Kernel σ} {r v pa : ℕ} {q : ℕ × ℕ} {perm : Flags} {doFree : Bool}

/-! ## What the operations keep -/

/-- From `k` to `k'` the tables stay tables, and no page gets a second use. -/
structure Kept (k k' : Kernel σ) : Prop where
  pages : k'.core.PagesOk none
  owner : k'.owner = k.owner
  managed : k'.managed = k.managed
  kernelEnd : k'.kernelEnd = k.kernelEnd

lemma Kept.trans (h : Kept k k') (h' : Kept k' k'') : Kept k k'' :=
  ⟨h'.pages, h'.owner.trans h.owner, h'.managed.trans h.managed, h'.kernelEnd.trans h.kernelEnd⟩

lemma Grown.kept (h : Grown k k') (hP : k'.core.PagesOk none) : Kept k k' :=
  ⟨hP, h.same.owner, congrArg Rest.managed h.same, congrArg Rest.kernelEnd h.same⟩

lemma kept_setPte (e : Pte) (hP : k.core.PagesOk none) (hq : k.core.leafRef r v = some q) :
    Kept k (k.setPte q e) :=
  ⟨hP.setPte hq, rfl, rfl, rfl⟩

/-! ## `mappages` -/

/-- The `n` pages of `r` from `v` on have been bound to consecutive physical pages, or some of them
if `b` is false. -/
structure Bound (k : Kernel σ) (r v n pa : ℕ) (perm : Flags) (b : Bool) (k' : Kernel σ) : Prop where
  kept : Kept k k'
  outside : ∀ r' w, ¬ (r' = r ∧ v ≤ w ∧ w < v + n) → k'.core.leaf r' w = k.core.leaf r' w
  inside : b = true → ∀ w, v ≤ w → w < v + n →
    w * PGSIZE < MAXVA ∧ k'.core.leaf r w = .map (pa + (w - v)) perm

lemma mapLoop_spec (n : ℕ) : ∀ {k k' : Kernel σ} {v pa : ℕ} {b : Bool}, k.core.PagesOk none →
    (k.owner r).isSome → mapLoop r perm n (v * PGSIZE) pa k = .ok (b, k') →
    Bound k r v n pa perm b k' := by
  induction n with
  | zero =>
    intro k k' v pa b hP hr hrun
    cases hrun
    exact ⟨⟨hP, rfl, rfl, rfl⟩, fun _ _ _ => rfl, fun _ w hle hlt => absurd hlt (by omega)⟩
  | succ n ih =>
    intro k k' v pa b hP hr hrun
    unfold mapLoop at hrun
    obtain ⟨⟨o, k1⟩, hwalk, hrun⟩ := bind_eq_ok.mp hrun
    obtain ⟨hva, hP1, hgrown, href⟩ := walkAlloc_spec hP hr hwalk
    have hk1 := hgrown.kept hP1
    cases o with
    | none =>
      cases hrun
      exact ⟨hk1, fun r' w _ => by rw [hgrown.leaf], by simp⟩
    | some q =>
      have hq := href q rfl
      rw [mul_pgsize_div] at hq
      dsimp only at hrun
      split_ifs at hrun with hv
      rw [← Nat.succ_mul] at hrun
      have hk2 := hk1.trans (kept_setPte (.map pa perm) hP1 hq)
      have hleaf : (k1.setPte q (.map pa perm)).core.leaf =
          setAt k.core.leaf r v (.map pa perm) := by
        rw [← hgrown.leaf]
        exact hP1.leaf_setPte hq
      obtain ⟨hk3, hout, hin⟩ := ih hk2.pages (by rw [hk2.owner]; exact hr) hrun
      refine ⟨hk2.trans hk3, fun r' w hw => ?_, fun hb w hle hlt => ?_⟩
      · rw [hout r' w fun hc => hw ⟨hc.1, by omega, by omega⟩, hleaf, setAt,
          if_neg fun hc => hw ⟨hc.1, by omega, by omega⟩]
      · rcases eq_or_lt_of_le hle with rfl | hgt
        · refine ⟨hva, ?_⟩
          rw [hout r v (by omega), hleaf, setAt_self, Nat.sub_self, Nat.add_zero]
        · obtain ⟨hmax, heq⟩ := hin hb w hgt (by omega)
          refine ⟨hmax, ?_⟩
          rw [heq]
          congr 1
          omega

/-! ## `uvmunmap` -/

/-- The pages behind the `n` pages from `v` on can be freed: they are pages of frames, and each is
mapped once. -/
structure Releasable (k : Kernel σ) (r v n : ℕ) : Prop where
  frame : ∀ w, v ≤ w → w < v + n → (k.core.leaf r w).flags.v = true →
    ∃ i, k.core.PageUses none (k.core.leaf r w).num (.frame i)
  inj : ∀ w w', v ≤ w → w < v + n → v ≤ w' → w' < v + n → (k.core.leaf r w).flags.v = true →
    (k.core.leaf r w').flags.v = true → (k.core.leaf r w).num = (k.core.leaf r w').num → w = w'

/-- Between operations this is so of all user pages: a resident page has a frame of its own. -/
theorem Releasable.of_idle {D : SwapDev σ} {m : List ℕ} {n : ℕ} (hk : Idle D m k)
    (htop : v + n ≤ USER_TOP) : k.Releasable r v n := by
  have hresident : ∀ w, w < v + n → (k.core.leaf r w).flags.v = true →
      ∃ i, Resides k.core.frametable k.core.leaf (r, w) i := fun w hlt hw =>
    hk.inv.frames.resident r w (hlt.trans_le htop) hw
  constructor
  case frame =>
    intro w _ hlt hw
    obtain ⟨i, -, -, hnum, huse⟩ := hresident w hlt hw
    exact ⟨i, huse, hnum.symm⟩
  case inj =>
    intro w w' _ hlt _ hlt' hw hw' heq
    obtain ⟨i, hi⟩ := hresident w hlt hw
    -- with the same physical page, both would be in the frame `i`
    have hi' : Resides k.core.frametable k.core.leaf (r, w') i :=
      ⟨hlt'.trans_le htop, hw', heq.symm.trans hi.2.2.1, hi.2.2.2⟩
    exact congrArg Prod.snd (hk.inv.frames.cells.ref_inj _ _ i hi hi')

lemma kfreeUser_kept {i : Fin NUM_FRAMES} (hP : k.core.PagesOk none)
    (hi : k.core.PageUses none pa (.frame i)) (h : k.kfreeUser pa = .ok k') :
    Kept k k' ∧ k'.core.leaf = k.core.leaf ∧
      ∀ j, (k.frametable j).pa = pa ∨ k'.frametable j = k.frametable j := by
  have hP1 : (k.core.setFrame i {}).PagesOk (some pa) := by
    refine hP.setFrame (fun pg => ?_) (by simp)
    rw [Option.some.injEq]
    exact ⟨fun heq => heq ▸ hi, fun hu => hi.2.symm.trans hu.2⟩
  have hft : ∀ j, (k.frametable j).pa = pa ∨
      Function.update k.frametable i {} j = k.frametable j := by
    intro j
    by_cases hj : j = i
    · exact .inl (hj ▸ hi.2)
    · exact .inr (Function.update_of_ne hj _ _)
  rcases kfreeUser_cases hP hi.1 hi.2 h with ⟨-, rfl⟩ | hfree | ⟨p, g, hfree⟩
  · exact ⟨⟨hP, rfl, rfl, rfl⟩, rfl, fun _ => .inr rfl⟩
  · rw [kfree_ok hfree]
    exact ⟨⟨hP1.kfree, rfl, rfl, rfl⟩, rfl, hft⟩
  · rw [kfree_ok hfree]
    exact ⟨⟨hP1.kfree, rfl, rfl, rfl⟩, rfl, hft⟩

lemma freeSwapSlot_kept {j : ℕ} (hP : k.core.PagesOk none) : Kept k (k.freeSwapSlot j) ∧
    (k.freeSwapSlot j).core.leaf = k.core.leaf ∧
    (k.freeSwapSlot j).frametable = k.frametable := by
  have hslot : (k.setSlot j {}).core.PagesOk none :=
    hP.of_iff (fun _ u => by cases u <;> exact Iff.rfl) hP.nodup rfl (hP.dirs.congr rfl rfl)
  unfold freeSwapSlot
  split_ifs
  · exact ⟨⟨hP, rfl, rfl, rfl⟩, rfl, rfl⟩
  · exact ⟨⟨hP, rfl, rfl, rfl⟩, rfl, rfl⟩
  · exact ⟨⟨hslot, rfl, rfl, rfl⟩, rfl, rfl⟩

lemma unmapPage_kept (hP : k.core.PagesOk none) (hr : (k.owner r).isSome)
    (hfree : doFree = true → (k.core.leaf r v).flags.v = true →
      ∃ i, k.core.PageUses none (k.core.leaf r v).num (.frame i))
    (hrun : k.unmapPage r doFree (v * PGSIZE) = .ok k') : Kept k k' ∧
      k'.core.leaf = setAt k.core.leaf r v (k.core.leaf r v).unmapped ∧
      ∀ i, ((k.core.leaf r v).flags.v = true ∧ (k.frametable i).pa = (k.core.leaf r v).num) ∨
        k'.frametable i = k.frametable i := by
  rcases unmapPage_cases hr hrun with ⟨hv, hs, rfl⟩ | ⟨q, href, hbound, hcases⟩
  · rw [Pte.unmapped, if_pos ⟨hv, hs⟩]
    exact ⟨⟨hP, rfl, rfl, rfl⟩, (setAt_eq_self rfl).symm, fun _ => .inr rfl⟩
  · have hk1 := kept_setPte {} hP href
    have hleaf : (k.setPte q {}).core.leaf =
        setAt k.core.leaf r v (k.core.leaf r v).unmapped := by
      rw [Pte.unmapped, if_neg hbound]
      exact hP.leaf_setPte href
    rcases hcases with ⟨-, rfl⟩ | ⟨hf, ⟨-, rfl⟩ | ⟨hv, hrun⟩⟩
    · exact ⟨hk1, hleaf, fun _ => .inr rfl⟩
    · obtain ⟨hk2, hleaf2, hft⟩ := freeSwapSlot_kept (j := (k.core.leaf r v).num) hk1.pages
      exact ⟨hk1.trans hk2, hleaf2.trans hleaf, fun i => .inr (congrFun hft i)⟩
    · obtain ⟨i, hi⟩ := hfree hf hv
      obtain ⟨hk2, hleaf2, hft⟩ := kfreeUser_kept (k := k.setPte q {}) hk1.pages hi hrun
      exact ⟨hk1.trans hk2, hleaf2.trans hleaf, fun j => (hft j).imp_left fun hpa => ⟨hv, hpa⟩⟩

/-- The loop of `uvmunmap` clears the entries of the `n` pages from `v` on. -/
theorem unmapLoop_kept (n : ℕ) : ∀ {k k' : Kernel σ} {v : ℕ}, k.core.PagesOk none →
    (k.owner r).isSome → (doFree = true → k.Releasable r v n) →
    k.unmapLoop r doFree n (v * PGSIZE) = .ok k' → Kept k k' ∧ ∀ r' w,
      k'.core.leaf r' w = if r' = r ∧ v ≤ w ∧ w < v + n then (k.core.leaf r' w).unmapped
        else k.core.leaf r' w := by
  induction n with
  | zero =>
    intro k k' v hP hr _ hrun
    cases hrun
    exact ⟨⟨hP, rfl, rfl, rfl⟩, fun r' w => (if_neg (by omega)).symm⟩
  | succ n ih =>
    intro k k' v hP hr hfree hrun
    unfold unmapLoop at hrun
    obtain ⟨k1, hpage, hrun⟩ := bind_eq_ok.mp hrun
    obtain ⟨hk1, hleaf1, hft1⟩ := unmapPage_kept hP hr
      (fun hf hv => (hfree hf).frame v le_rfl (by omega) hv) hpage
    rw [← Nat.succ_mul] at hrun
    have hleaf : ∀ w, v < w → k1.core.leaf r w = k.core.leaf r w := fun w hw => by
      rw [hleaf1, setAt, if_neg (by omega)]
    -- the frames of the pages that are left are still in use
    have hfree1 : doFree = true → k1.Releasable r (v + 1) n := by
      intro hf
      obtain ⟨hframe, hinj⟩ := hfree hf
      refine ⟨fun w hle hlt hv => ?_, fun w w' hle hlt hle' hlt' hv hv' heq => ?_⟩
      · rw [hleaf w hle] at hv ⊢
        obtain ⟨i, hi⟩ := hframe w (by omega) (by omega) hv
        refine ⟨i, ?_⟩
        rcases hft1 i with ⟨hv1, hpa⟩ | heq
        · have := hinj v w le_rfl (by omega) (by omega) (by omega) hv1 hv (hpa.symm.trans hi.2)
          omega
        · have heq' : k1.core.frametable i = k.core.frametable i := heq
          simpa only [Core.PageUses, heq'] using hi
      · rw [hleaf w hle] at hv heq
        rw [hleaf w' hle'] at hv' heq
        exact hinj w w' (by omega) (by omega) (by omega) (by omega) hv hv' heq
    obtain ⟨hk2, hleaf2⟩ := ih hk1.pages (by rw [hk1.owner]; exact hr) hfree1 hrun
    refine ⟨hk1.trans hk2, fun r' w => ?_⟩
    rw [hleaf2, hleaf1, setAt]
    by_cases hrw : r' = r ∧ w = v
    · obtain ⟨rfl, rfl⟩ := hrw
      rw [if_neg (by omega), if_pos ⟨rfl, rfl⟩, if_pos ⟨rfl, by omega, by omega⟩]
    · rw [if_neg hrw]
      exact if_congr (by omega) rfl rfl

/-! ## `freewalk` -/

/-- A page of the table rooted at `r`. -/
def TablePage (k : Kernel σ) (r pg : ℕ) : Prop :=
  pg = r ∨ (∃ i, k.core.dir1 r i = some pg) ∨ ∃ j, k.core.dir0 r j = some pg

/-- The page is free or pointed at by a directory of the table rooted at `r`. -/
def OfTable (r : ℕ) : PageUse → Prop
  | .free => True
  | .dir1 r' _ => r' = r
  | .dir0 r' _ => r' = r
  | _ => False

lemma exists_ofTable {c : Core} {pg : ℕ} : (∃ u, OfTable r u ∧ c.PageUses none pg u) ↔
    pg ∈ c.freelist ∨ (∃ i, c.dir1 r i = some pg) ∨ ∃ j, c.dir0 r j = some pg := by
  constructor
  · rintro ⟨u, hS, hu⟩
    cases u with
    | free => exact .inl hu
    | dir1 r' i => exact .inr (.inl ⟨i, hS ▸ hu⟩)
    | dir0 r' j => exact .inr (.inr ⟨j, hS ▸ hu⟩)
    | _ => exact hS.elim
  · rintro (h | ⟨i, h⟩ | ⟨j, h⟩)
    · exact ⟨.free, trivial, h⟩
    · exact ⟨.dir1 r i, rfl, h⟩
    · exact ⟨.dir0 r j, rfl, h⟩

/-- The other uses of pages are as before. -/
theorem Shrunk.uses_iff {u : PageUse} {pg : ℕ} (h : Shrunk r k k') (hu : ¬ OfTable r u) :
    k'.core.PageUses none pg u ↔ k.core.PageUses none pg u := by
  have hdirs := h.dirs
  obtain ⟨_, _, _, rfl⟩ := h.only
  cases u with
  | free => exact absurd trivial hu
  | dir1 r' i | dir0 r' j => simp only [Core.PageUses, hdirs r' hu]
  | _ => exact Iff.rfl

section

variable (hP : k.core.PagesOk none) (hr : (k.owner r).isSome)

include hP hr

/-- What `freewalk` adds to the free list are the pages of the table. -/
theorem freewalk_frees (hrun : freewalk 3 k r = .ok k') : k'.freelist.Nodup ∧
      ∀ pg, pg ∈ k'.freelist ↔ pg ∈ k.freelist ∨ k.TablePage r pg := by
  obtain ⟨k1, hP1, hsh, hdir1, hkfree⟩ := freewalk_three hP hr hrun
  have hr1 : (k1.core.owner r).isSome := by
    rw [show k1.core.owner = k.owner from hsh.owner]
    exact hr
  have hmanaged : k1.core.managed = k.core.managed := by
    obtain ⟨_, _, _, rfl⟩ := hsh.only
    rfl
  rw [kfree_ok hkfree]
  refine ⟨(hP1.freeRoot hr1 hdir1).1.kfree.nodup, fun pg => ?_⟩
  -- the pages without another use are the same before and after
  have hiff : (∃ u, OfTable r u ∧ k1.core.PageUses none pg u) ↔
      ∃ u, OfTable r u ∧ k.core.PageUses none pg u := by
    rw [hP1.exclusive.exists_iff, hP.exclusive.exists_iff, ← hP1.managed, ← hP.managed, hmanaged]
    refine and_congr_right fun _ => forall_congr' fun u => ?_
    by_cases hu : OfTable r u
    · simp only [hu, imp_true_iff]
    · rw [hsh.uses_iff hu]
  rw [exists_ofTable, exists_ofTable] at hiff
  simp only [Core.dir0, hdir1, Option.bind_none, reduceCtorEq, exists_false, or_false] at hiff
  change pg ∈ r :: k1.core.freelist ↔ _
  rw [List.mem_cons, hiff, TablePage]
  exact or_left_comm

/-! ## Tables that the operations build -/

/-- The operations on tables, and what the rest of the kernel may do in between. -/
inductive TableStep : Kernel σ → Kernel σ → Prop
  | uvmcreate {k k' : Kernel σ} {r : ℕ} (p : ProcId) (h : k.uvmcreate = (some r, k')) :
    TableStep k (k'.setOwner r (some p))
  | walk {k k' : Kernel σ} {r va : ℕ} {o : Option (ℕ × ℕ)} (hr : (k.owner r).isSome)
    (h : k.walkAlloc r va = .ok (o, k')) : TableStep k k'
  | mappages {k k' : Kernel σ} {r va size pa : ℕ} {perm : Flags} {b : Bool}
    (hr : (k.owner r).isSome) (h : k.mappages r va size pa perm = .ok (b, k')) : TableStep k k'
  | uvmunmap {k k' : Kernel σ} {r va npages : ℕ} {doFree : Bool} (hr : (k.owner r).isSome)
    (hfree : doFree = true → k.Releasable r (va / PGSIZE) npages)
    (h : k.uvmunmap r va npages doFree = .ok k') : TableStep k k'
  /-- `swap_out` and `swap_in` store an entry that `walk` found. -/
  | swap {k : Kernel σ} {r va : ℕ} {pte : ℕ × ℕ} (e : Pte) (hr : (k.owner r).isSome)
    (h : k.walk r va = .ok (some pte)) : TableStep k (k.setPte pte e)
  | uvmclear {k k' : Kernel σ} {r va : ℕ} (hr : (k.owner r).isSome)
    (h : k.uvmclear r va = .ok k') : TableStep k k'
  /-- Pages that are not part of tables get other uses. -/
  | other {k k' : Kernel σ} (hkept : Kept k k') (hptes : k'.ptes = k.ptes) : TableStep k k'

/-- The tables that are built from boot on, when the pages of `kinit` pass the check of `kfree`. -/
def tableSystem (σ : Type) : TransitionSystem (Kernel σ) Unit where
  init k := Booted k ∧ k.rest.InRange
  step k _ k' := TableStep k k'

lemma mappages_kept {va size : ℕ} {b : Bool} (hrun : k.mappages r va size pa perm = .ok (b, k')) :
    ∃ v n, va = v * PGSIZE ∧ size = n * PGSIZE ∧ 0 < n ∧ Bound k r v n pa perm b k' := by
  unfold mappages at hrun
  split_ifs at hrun with hva hsize hzero
  obtain ⟨v, rfl⟩ : PGSIZE ∣ va := dvd_of_mod_eq_zero (not_not.mp hva)
  obtain ⟨n, rfl⟩ : PGSIZE ∣ size := dvd_of_mod_eq_zero (not_not.mp hsize)
  rw [Nat.mul_comm PGSIZE v, Nat.mul_div_cancel_left n (by decide)] at hrun
  refine ⟨v, n, Nat.mul_comm .., Nat.mul_comm .., ?_, mapLoop_spec n hP hr hrun⟩
  exact Nat.pos_of_ne_zero fun hn => hzero (by rw [hn, Nat.mul_zero])

lemma uvmunmap_kept {va n : ℕ} (hfree : doFree = true → k.Releasable r (va / PGSIZE) n)
    (hrun : k.uvmunmap r va n doFree = .ok k') : ∃ v, va = v * PGSIZE ∧ Kept k k' ∧ ∀ r' w,
      k'.core.leaf r' w = if r' = r ∧ v ≤ w ∧ w < v + n then (k.core.leaf r' w).unmapped
        else k.core.leaf r' w := by
  unfold uvmunmap at hrun
  split_ifs at hrun with hva
  obtain ⟨v, rfl⟩ : PGSIZE ∣ va := dvd_of_mod_eq_zero (not_not.mp hva)
  rw [Nat.mul_div_cancel_left v (by decide)] at hfree
  rw [Nat.mul_comm PGSIZE v] at hrun
  exact ⟨v, Nat.mul_comm .., unmapLoop_kept n hP hr hfree hrun⟩

end

lemma uvmcreate_pages (p : ProcId) (hP : k.core.PagesOk none)
    (hrun : k.uvmcreate = (some r, k')) : (k'.setOwner r (some p)).core.PagesOk none ∧
      k'.rest = k.rest := by
  unfold uvmcreate at hrun
  split at hrun
  · cases hrun
  · rename_i k1 hk1
    cases hrun
    obtain ⟨hP1, hgrown, -, -, hzero⟩ := kalloc_zeroTable hP hk1
    exact ⟨(hP1.newRoot p fun b => by simp [Core.child, core, hzero]).1, hgrown.same⟩

/-- The invariant. -/
def TablesOk (k : Kernel σ) : Prop := k.core.PagesOk none ∧ k.rest.InRange

lemma Kept.tablesOk (hk : Kept k k') (h : TablesOk k) : TablesOk k' := by
  refine ⟨hk.pages, ?_⟩
  have hrange := h.2
  unfold Rest.InRange at *
  rw [show k'.rest.managed = k.rest.managed from hk.managed,
    show k'.rest.kernelEnd = k.rest.kernelEnd from hk.kernelEnd]
  exact hrange

lemma tablesOk_of_reachable (h : (tableSystem σ).Reachable k) : TablesOk k := by
  induction h with
  | init hk => exact ⟨hk.1.inv.pages, hk.2⟩
  | step _ hstep hk =>
    cases hstep with
    | uvmcreate p h =>
      obtain ⟨hP, hrest⟩ := uvmcreate_pages p hk.1 h
      refine ⟨hP, ?_⟩
      have hr := hk.2
      rw [← hrest] at hr
      exact hr
    | walk hr h =>
      obtain ⟨-, hP, hgrown, -⟩ := walkAlloc_spec hk.1 hr h
      exact (hgrown.kept hP).tablesOk hk
    | mappages hr h =>
      obtain ⟨v, n, -, -, -, hk', -⟩ := mappages_kept hk.1 hr h
      exact hk'.tablesOk hk
    | uvmunmap hr hfree h =>
      obtain ⟨v, -, hk', -⟩ := uvmunmap_kept hk.1 hr hfree h
      exact hk'.tablesOk hk
    | swap e hr h => exact (kept_setPte e hk.1 (walk_ok hr h).2).tablesOk hk
    | uvmclear hr h =>
      obtain ⟨o, hwalk, h⟩ := bind_eq_ok.mp h
      cases o with
      | none => cases h
      | some q =>
        cases h
        exact (kept_setPte _ hk.1 (walk_ok hr hwalk).2).tablesOk hk
    | other hk' _ => exact hk'.tablesOk hk

/-! ## The map -/

/-- The entry that `walk` finds for the page at `a`, empty if there is none. -/
def binding (k : Kernel σ) (r a : ℕ) : Pte :=
  match k.walk r a with
  | .ok (some pte) => k.pte pte
  | _ => {}

lemma binding_eq {a : ℕ} (hr : (k.owner r).isSome) (ha : a < MAXVA) :
    k.binding r a = k.core.leaf r (a / PGSIZE) := by
  unfold binding
  rw [walk_eq hr ha]
  cases href : k.core.leafRef r (a / PGSIZE) with
  | none => exact (Core.leaf_eq_of_none href).symm
  | some q => exact pte_eq_leaf href

/-- The page-aligned addresses of `[va, va + n)`, as numbers of pages. -/
theorem in_range_iff {a v n : ℕ} (ha : a % PGSIZE = 0) :
    v ≤ a / PGSIZE ∧ a / PGSIZE < v + n ↔ v * PGSIZE ≤ a ∧ a < v * PGSIZE + n * PGSIZE := by
  obtain ⟨w, rfl⟩ := dvd_of_mod_eq_zero ha
  have hpos : 0 < PGSIZE := by decide
  rw [Nat.mul_div_cancel_left w hpos, Nat.mul_comm PGSIZE w, ← Nat.add_mul]
  exact and_congr (Nat.mul_le_mul_right_iff hpos).symm (Nat.mul_lt_mul_right hpos).symm

/-- The table rooted at `r` is a map from page-aligned addresses to entries, and its pages form a
tree. -/
structure IsMap (k : Kernel σ) (r : ℕ) : Prop where
  /-- `mappages` that succeeds binds the pages of its range to consecutive physical pages. -/
  mapped : ∀ va size pa perm k', k.mappages r va size pa perm = .ok (true, k') →
    va + size ≤ MAXVA ∧ ∀ r' a, (k.owner r').isSome → a % PGSIZE = 0 → a < MAXVA →
      k'.binding r' a = if r' = r ∧ va ≤ a ∧ a < va + size
        then .map (pa + (a - va) / PGSIZE) perm else k.binding r' a
  /-- `mappages` that fails changes nothing outside its range. -/
  failed : ∀ va size pa perm k', k.mappages r va size pa perm = .ok (false, k') →
    ∀ r' a, (k.owner r').isSome → a % PGSIZE = 0 → a < MAXVA →
      ¬ (r' = r ∧ va ≤ a ∧ a < va + size) → k'.binding r' a = k.binding r' a
  /-- `uvmunmap` removes the bindings of its range that are valid or swapped out. If it is to free
  the pages, these must be `Releasable`, as the user pages of a process are between operations
  (`Releasable.of_idle`). -/
  unmapped : ∀ va n doFree k', (doFree = true → k.Releasable r (va / PGSIZE) n) →
    k.uvmunmap r va n doFree = .ok k' →
    ∀ r' a, (k.owner r').isSome → a % PGSIZE = 0 → a < MAXVA →
      k'.binding r' a = if r' = r ∧ va ≤ a ∧ a < va + n * PGSIZE
        then (k.binding r' a).unmapped else k.binding r' a
  /-- No page, and so no page-table page, is reached in two ways. -/
  tree : ∀ pg u u', k.core.PageUses none pg u → k.core.PageUses none pg u' → u = u'
  /-- `freewalk` of a table without valid entries frees each of its pages once. -/
  freed : (∀ v, (k.core.leaf r v).flags.v = false) → ∃ k', freewalk 3 k r = .ok k' ∧
    k'.freelist.Nodup ∧ (∀ pg, pg ∈ k'.freelist ↔ pg ∈ k.freelist ∨ k.TablePage r pg) ∧
    ∀ pg, k.TablePage r pg → pg ∉ k.freelist

/-- **Page tables are finite maps.** -/
theorem pagetable_is_map (hk : (tableSystem σ).Reachable k) (hr : (k.owner r).isSome) :
    k.IsMap r := by
  obtain ⟨hP, hrange⟩ := tablesOk_of_reachable hk
  -- what the entries of pages say about bindings
  have hbind : ∀ {k' : Kernel σ}, Kept k k' → ∀ {r' a : ℕ}, (k.owner r').isSome → a < MAXVA →
      k'.binding r' a = k'.core.leaf r' (a / PGSIZE) := fun hk' r' a hr' ha =>
    binding_eq (by rw [hk'.owner]; exact hr') ha
  constructor
  · intro va size pa perm k' hrun
    obtain ⟨v, n, rfl, rfl, hn, hk', hout, hin⟩ := mappages_kept hP hr hrun
    refine ⟨?_, fun r' a hr' ha hmax => ?_⟩
    · have hlast := (hin rfl (v + n - 1) (by omega) (by omega)).1
      have hsum : v * PGSIZE + n * PGSIZE = (v + n - 1) * PGSIZE + PGSIZE := by
        rw [← Nat.add_mul, ← Nat.succ_mul]
        congr 1
        omega
      rw [hsum]
      unfold MAXVA PGSIZE at *
      omega
    · rw [hbind hk' hr' hmax, binding_eq hr' hmax]
      split_ifs with hc
      · rw [← in_range_iff ha] at hc
        rw [hc.1, (hin rfl _ hc.2.1 hc.2.2).2]
        congr 2
        unfold PGSIZE
        omega
      · rw [← in_range_iff ha] at hc
        exact hout r' _ hc
  · intro va size pa perm k' hrun r' a hr' ha hmax hc
    obtain ⟨v, n, rfl, rfl, -, hk', hout, -⟩ := mappages_kept hP hr hrun
    rw [← in_range_iff ha] at hc
    rw [hbind hk' hr' hmax, binding_eq hr' hmax, hout r' _ hc]
  · intro va n doFree k' hfree hrun r' a hr' ha hmax
    obtain ⟨v, rfl, hk', hleaf⟩ := uvmunmap_kept hP hr hfree hrun
    rw [hbind hk' hr' hmax, binding_eq hr' hmax, hleaf]
    exact if_congr (and_congr_right fun _ => in_range_iff ha) rfl rfl
  · exact fun pg u u' hu hu' => hP.exclusive hu hu'
  · intro hvalid
    obtain ⟨k', hrun⟩ := Avoids.exists_ok fun msg =>
      freewalk_three_avoids (.inr hrange) hP hr hvalid
    obtain ⟨hnodup, hmem⟩ := freewalk_frees hP hr hrun
    refine ⟨k', hrun, hnodup, hmem, fun pg hpg hfree => ?_⟩
    rcases hpg with rfl | ⟨i, hi⟩ | ⟨j, hj⟩
    · cases (show PageUse.free = .root from hP.exclusive hfree hr)
    · cases (show PageUse.free = .dir1 r i from hP.exclusive hfree hi)
    · cases (show PageUse.free = .dir0 r j from hP.exclusive hfree hj)

theorem pagetable_is_map_two_pages : ∃ k : Kernel Unit, (tableSystem Unit).Reachable k ∧
    k.binding 0x80100 0x2000 = .map 0x90001 { r := true } ∧ k.IsMap 0x80100 := by
  let k0 := ((bootState () 8).uvmcreate.2).setOwner 0x80100 (some ⟨0, by decide⟩)
  have hrun : (returning (k0.mappages 0x80100 0x1000 0x2000 0x90000 { r := true }) id).any (fun k =>
      decide (k.binding 0x80100 0x2000 = .map 0x90001 { r := true }) &&
        (k.owner 0x80100).isSome) = true := by
    decide +kernel
  obtain ⟨k, hk, hfacts⟩ := Option.any_eq_true _ _ |>.mp hrun
  obtain ⟨hbind, howner⟩ := (Bool.and_eq_true _ _).mp hfacts
  obtain ⟨b, hmap, -⟩ := returning_eq_some hk
  have hinit : (tableSystem Unit).init (bootState () 8) :=
    ⟨booted_bootState () 8, fun pg hpg => by
      obtain ⟨i, hi, rfl⟩ := List.mem_map.mp hpg
      have := List.mem_range.mp hi
      exact ⟨le_add_right _ _, by unfold PHYSTOP_PAGE; omega⟩⟩
  have hcreate : (tableSystem Unit).step (bootState () 8) () k0 := .uvmcreate _ rfl
  have hreach : (tableSystem Unit).Reachable k := .step (.step (.init hinit) hcreate) (l := ())
    (.mappages (by simp [k0, setOwner]) hmap)
  exact ⟨k, hreach, of_decide_eq_true hbind, pagetable_is_map hreach howner⟩

end Kernel

end Xv6.VM
