import Xv6.VM.KallocSpec

/-!
# Specifications of mapping and unmapping

What `walk` with allocation, `mappages` of one page and `uvmunmap` do to the ownership of pages and
to the abstract pages.
-/

namespace Xv6.VM

open Fallible

/-- Change what a function of tables and pages says about the `n` pages of `r` from `a` on. -/
def setRange {α : Type*} (f : ℕ → ℕ → α) (r a n : ℕ) (x : α) : ℕ → ℕ → α := fun r' v =>
  if r' = r ∧ a ≤ v ∧ v < a + n then x else f r' v

lemma setRange_zero {α : Type*} (f : ℕ → ℕ → α) (r a : ℕ) (x : α) : setRange f r a 0 x = f := by
  funext r' v
  exact if_neg (by omega)

lemma setRange_setAt {α : Type*} (f : ℕ → ℕ → α) (r a n : ℕ) (x : α) :
    setRange (setAt f r a x) r (a + 1) n x = setRange f r a (n + 1) x := by
  funext r' v
  unfold setRange setAt
  by_cases hr : r' = r
  · by_cases hva : v = a
    · subst hva
      simp [hr]
    · by_cases hlt : a + 1 ≤ v ∧ v < a + 1 + n
      · rw [if_pos ⟨hr, hlt⟩, if_pos ⟨hr, by omega, by omega⟩]
      · rw [if_neg (fun hc => hlt hc.2), if_neg (fun hc => hva hc.2),
          if_neg (fun hc => hlt ⟨by omega, by omega⟩)]
  · simp [hr]

namespace Kernel

variable {σ : Type} {D : SwapDev σ} {k k' k'' : Kernel σ} {f : Option (Fin NUM_FRAMES)}
  {s : Option ℕ} {i : Fin NUM_FRAMES} {p : ProcId} {r v va pa : ℕ} {q : ℕ × ℕ} {perm : Flags}

/-! ## `walk` with allocation -/

/-- From `k` to `k'` at most page-table pages have been added. -/
structure Grown (k k' : Kernel σ) : Prop where
  same : k.Same k'
  leaf : k'.core.leaf = k.core.leaf
  frametable : k'.frametable = k.frametable
  swaptable : k'.swaptable = k.swaptable
  dev : k'.dev = k.dev
  mem : ∀ pg, pg ∉ k.freelist → k'.mem pg = k.mem pg
  freelist : ∀ pg ∈ k'.freelist, pg ∈ k.freelist
  leafRef : ∀ r v q, k.core.leafRef r v = some q → k'.core.leafRef r v = some q

lemma Grown.refl (k : Kernel σ) : Grown k k :=
  ⟨.refl k, rfl, rfl, rfl, rfl, fun _ _ => rfl, fun _ h => h, fun _ _ _ h => h⟩

lemma Grown.trans (h : Grown k k') (h' : Grown k' k'') : Grown k k'' where
  same := h.same.trans h'.same
  leaf := h'.leaf.trans h.leaf
  frametable := h'.frametable.trans h.frametable
  swaptable := h'.swaptable.trans h.swaptable
  dev := h'.dev.trans h.dev
  mem pg hpg := (h'.mem pg fun hmem => hpg (h.freelist pg hmem)).trans (h.mem pg hpg)
  freelist pg hpg := h.freelist pg (h'.freelist pg hpg)
  leafRef r v q hq := h'.leafRef r v q (h.leafRef r v q hq)

/-- Frames and slots are as they were. -/
theorem Grown.inv {held held' : Option ℕ} (h : Grown k k') (hI : k.core.Inv ⟨f, s, held⟩)
    (hP : k'.core.PagesOk held') : k'.core.Inv ⟨f, s, held'⟩ :=
  hI.of_tables hP h.frametable h.swaptable h.leaf fun r _ _ => congrFun h.same.owner r

/-- The page-table pages were free, so no abstract page changes. -/
theorem Grown.page {h : Held} (hg : Grown k k') (hI : k.core.Inv h) : k'.page D = k.page D := by
  funext r v
  refine page_congr Iff.rfl (by rw [hg.leaf]; exact ⟨rfl, rfl, rfl, fun _ => rfl⟩)
    (fun hlt hv => hg.mem _ fun hmem => ?_) fun _ _ _ => by rw [hg.dev]
  exact hI.num_ne (u := .free) hmem (by simp) hlt hv rfl

/-- A change of page-table pages that changes no entry. -/
theorem Grown.of_ptes {ptes : ℕ → ℕ → Pte}
    (hleaf : (Kernel.core { k with ptes := ptes }).leaf = k.core.leaf)
    (href : ∀ r v q, k.core.leafRef r v = some q →
      (Kernel.core { k with ptes := ptes }).leafRef r v = some q) :
    Grown k { k with ptes := ptes } := by
  exact ⟨.mk rfl rfl (fun r v _ => by rw [hleaf]) rfl rfl rfl rfl rfl, hleaf,
    rfl, rfl, rfl, fun _ _ => rfl, fun _ h => h, href⟩

lemma Grown.of_kalloc {pg : ℕ} (hP : k.core.PagesOk none) (h : k.kalloc = (some pg, k')) :
    k'.core.PagesOk (some pg) ∧ Grown k k' := by
  obtain ⟨rest, hfree, rfl⟩ := kalloc_some h
  refine ⟨hP.kalloc hfree, .refl k, rfl, rfl, rfl, rfl, fun pg' hpg' => ?_, fun pg' hpg' => ?_,
    fun _ _ _ h => h⟩
  · refine Function.update_of_ne ?_ _ _
    rintro rfl
    exact hpg' (by simp [hfree])
  · rw [hfree]
    exact List.mem_cons_of_mem _ hpg'

lemma kalloc_zeroTable {pg : ℕ} (hP : k.core.PagesOk none) (h : k.kalloc = (some pg, k')) :
    (k'.zeroTable pg).core.PagesOk (some pg) ∧ Grown k (k'.zeroTable pg) ∧
      (k'.zeroTable pg).core.dir1 = k.core.dir1 ∧ (k'.zeroTable pg).core.dir0 = k.core.dir0 ∧
      ∀ b, (k'.zeroTable pg).ptes pg b = {} := by
  obtain ⟨hP1, hgrown⟩ := Grown.of_kalloc hP h
  obtain ⟨hP2, hdir1, hdir0, hleaf⟩ := hP1.zeroTable
  have hgrown2 : Grown k' (k'.zeroTable pg) := by
    refine .of_ptes hleaf fun r v q hq => ?_
    change (k'.core.zeroTable pg).leafRef r v = some q
    unfold Core.leafRef at *
    rw [hdir0]
    exact hq
  obtain ⟨rest, -, rfl⟩ := kalloc_some h
  exact ⟨hP2, hgrown.trans hgrown2, hdir1, hdir0, fun b => by simp [zeroTable]⟩

/-- A level of `walk` finds a page, or needs one that is not free, or takes one. -/
theorem walkLevel_cases (k : Kernel σ) (r i : ℕ) :
    (∃ l, k.child r i = some l ∧ k.walkLevel r i = (some l, k)) ∨
    (k.child r i = none ∧ k.freelist = [] ∧ k.walkLevel r i = (none, k)) ∨
    ∃ pg rest k1, k.child r i = none ∧ k.freelist = pg :: rest ∧ k.kalloc = (some pg, k1) ∧
      k1.freelist = rest ∧
      k.walkLevel r i = (some pg, (k1.zeroTable pg).setPte (r, i) ⟨pg, { v := true }⟩) := by
  unfold walkLevel
  cases hchild : k.child r i with
  | some l => exact .inl ⟨l, rfl, rfl⟩
  | none =>
    cases hfree : k.freelist with
    | nil =>
      have hkalloc : k.kalloc = (none, k) := by
        unfold kalloc
        rw [hfree]
      exact .inr (.inl ⟨rfl, rfl, by rw [hkalloc]⟩)
    | cons pg rest =>
      have hkalloc : k.kalloc = (some pg, { k with freelist := rest }.setMem pg (Page.fill 5)) := by
        unfold kalloc
        rw [hfree]
      exact .inr (.inr ⟨pg, rest, _, rfl, rfl, hkalloc, rfl, by rw [hkalloc]⟩)

/-- What a level of `walk` does when `dir`, one of the directories, says what it finds. -/
inductive Level (k : Kernel σ) (dir : Option ℕ) (added : ℕ → Kernel σ → Prop) :
    Option ℕ × Kernel σ → Prop
  | found {l : ℕ} (h : dir = some l) : Level k dir added (some l, k)
  | full (h : dir = none) (hfree : k.freelist = []) : Level k dir added (none, k)
  | new {pg : ℕ} {k' : Kernel σ} (h : dir = none) (hfree : k.freelist = pg :: k'.freelist)
    (hP : k'.core.PagesOk none) (hgrown : Grown k k') (hnew : added pg k') :
    Level k dir added (some pg, k')

lemma walkLevel_root {i : ℕ} (hP : k.core.PagesOk none) (hr : (k.owner r).isSome)
    (hi : i < 512) : Level k (k.core.dir1 r i) (fun pg k' =>
      k'.core.dir1 = setAt k.core.dir1 r i (some pg) ∧ k'.core.dir0 = k.core.dir0)
      (k.walkLevel r i) := by
  have hdir1 : k.core.dir1 r i = k.child r i := if_pos ⟨hr, hi⟩
  rcases k.walkLevel_cases r i with ⟨l, hchild, heq⟩ | ⟨hchild, hfree, heq⟩ |
    ⟨pg, rest, k1, hchild, hfree, hk1, rfl, heq⟩
  · rw [heq]
    exact .found (hdir1.trans hchild)
  · rw [heq]
    exact .full (hdir1.trans hchild) hfree
  · obtain ⟨hP1, hgrown, hd1, hd0, hzero⟩ := kalloc_zeroTable hP hk1
    have hr1 : ((k1.zeroTable pg).core.owner r).isSome := by
      rw [show (k1.zeroTable pg).core.owner = k.owner from hgrown.same.owner]
      exact hr
    have hnone : (k1.zeroTable pg).core.dir1 r i = none := by rw [hd1, hdir1, hchild]
    obtain ⟨hP2, hdir0, hleaf⟩ := hP1.exchangeDir1 (e := ⟨pg, { v := true }⟩) hr1 hi
      (fun j hj => by simp [Core.dir0, hj, hnone]) (fun _ => ⟨rfl, rfl, rfl⟩) rfl
      fun _ b => by simp [Core.child, core, hzero]
    rw [hnone] at hP2
    rw [heq]
    refine .new (hdir1.trans hchild) hfree hP2 (hgrown.trans (.of_ptes hleaf fun r' v' q hq => ?_))
      ⟨?_, hdir0.trans hd0⟩
    · change ((k1.zeroTable pg).core.setPte (r, i) ⟨pg, { v := true }⟩).leafRef r' v' = some q
      unfold Core.leafRef at *
      rw [hdir0]
      exact hq
    · funext r' i'
      rw [← hd1]
      exact Core.dir1_setRoot hr1 hi r' i'

lemma walkLevel_dir1 {j l1 : ℕ} (hP : k.core.PagesOk none)
    (hl : k.core.dir1 r (j / 512) = some l1) : Level k (k.core.dir0 r j) (fun pg k' =>
      k'.core.dir1 = k.core.dir1 ∧ k'.core.dir0 = setAt k.core.dir0 r j (some pg))
      (k.walkLevel l1 (j % 512)) := by
  have hdir0 : k.core.dir0 r j = k.child l1 (j % 512) := by
    unfold Core.dir0
    rw [hl]
    rfl
  rcases k.walkLevel_cases l1 (j % 512) with ⟨l, hchild, heq⟩ | ⟨hchild, hfree, heq⟩ |
    ⟨pg, rest, k1, hchild, hfree, hk1, rfl, heq⟩
  · rw [heq]
    exact .found (hdir0.trans hchild)
  · rw [heq]
    exact .full (hdir0.trans hchild) hfree
  · obtain ⟨hP1, hgrown, hd1, hd0, hzero⟩ := kalloc_zeroTable hP hk1
    have hl1 : (k1.zeroTable pg).core.dir1 r (j / 512) = some l1 := by rw [hd1, hl]
    have hnone : (k1.zeroTable pg).core.dir0 r j = none := by rw [hd0, hdir0, hchild]
    obtain ⟨hP2, hleaf⟩ := hP1.exchangeDir0 (e := ⟨pg, { v := true }⟩) hl1
      (fun _ => ⟨rfl, rfl, rfl⟩) rfl fun _ => hzero
    have hdir : ((k1.zeroTable pg).core.setPte (l1, j % 512) ⟨pg, { v := true }⟩).dir0 =
        setAt k.core.dir0 r j (some pg) := by
      funext r' j'
      rw [← hd0]
      exact hP1.dir0_setLevel1 hl1 r' j'
    rw [hnone] at hP2
    rw [heq]
    refine .new (hdir0.trans hchild) hfree hP2 (hgrown.trans (.of_ptes ?_ fun r' v' q hq => ?_))
      ⟨(hP1.dir1_setLevel1 hl1).trans hd1, hdir⟩
    · -- the page below the new entry is empty, as were the entries before
      funext r' v
      refine (hleaf r' v).trans ?_
      split_ifs with hrj
      · obtain ⟨rfl, rfl⟩ := hrj
        exact (Core.leaf_eq_of_none (by simp [Core.leafRef, hnone])).symm
      · rfl
    · rw [Core.leafRef_eq_some] at hq ⊢
      have hne : ¬ (r' = r ∧ v' / 512 = j) := by
        rintro ⟨rfl, rfl⟩
        rw [hnone] at hq
        cases hq.1
      refine ⟨(congrFun₂ hdir r' (v' / 512)).trans ?_, hq.2⟩
      rw [setAt, if_neg hne, ← hd0]
      exact hq.1

/-- What a level of `walk` returns. -/
theorem Level.result {dir : Option ℕ} {added : ℕ → Kernel σ → Prop} {o : Option ℕ}
    (h : Level k dir added (o, k')) (hP : k.core.PagesOk none) : k'.core.PagesOk none ∧ Grown k k' ∧
      ∀ l ∈ o, dir = some l ∧ k' = k ∨ added l k' := by
  cases h with
  | found h => exact ⟨hP, .refl k, fun l hl => .inl ⟨h.trans hl, rfl⟩⟩
  | full h hfree => exact ⟨hP, .refl k, by simp⟩
  | new h hfree hP' hgrown hnew =>
    refine ⟨hP', hgrown, fun l hl => ?_⟩
    cases hl
    exact .inr hnew

/-- `walk` with allocation finds the entry of the page, or runs out of memory. -/
theorem walkAlloc_spec {o : Option (ℕ × ℕ)} (hP : k.core.PagesOk none)
    (hr : (k.owner r).isSome) (hrun : k.walkAlloc r va = .ok (o, k')) :
    va < MAXVA ∧ k'.core.PagesOk none ∧ Grown k k' ∧
      ∀ q ∈ o, k'.core.leafRef r (va / PGSIZE) = some q := by
  unfold walkAlloc at hrun
  split_ifs at hrun with hva
  have hva' : va < MAXVA := Nat.lt_of_not_le hva
  obtain ⟨h2, h1, h0, hlt⟩ := px_eq hva'
  rw [h2, h1, h0] at hrun
  injection hrun with hrun
  have hroot := walkLevel_root hP hr hlt
  split at hrun
  · rename_i k1 hlevel
    cases hrun
    rw [hlevel] at hroot
    obtain ⟨hP1, hgrown, -⟩ := hroot.result hP
    exact ⟨hva', hP1, hgrown, by simp⟩
  · rename_i l1 k1 hlevel
    rw [hlevel] at hroot
    obtain ⟨hP1, hgrown, hl1⟩ := hroot.result hP
    have hdir1 : k1.core.dir1 r (va / PGSIZE / 512 / 512) = some l1 := by
      rcases hl1 l1 rfl with ⟨hl, rfl⟩ | ⟨hl, -⟩
      · exact hl
      · rw [hl, setAt_self]
    have hsecond := walkLevel_dir1 hP1 hdir1
    split at hrun
    · rename_i k2 hlevel2
      cases hrun
      rw [hlevel2] at hsecond
      obtain ⟨hP2, hgrown2, -⟩ := hsecond.result hP1
      exact ⟨hva', hP2, hgrown.trans hgrown2, by simp⟩
    · rename_i l0 k2 hlevel2
      cases hrun
      rw [hlevel2] at hsecond
      obtain ⟨hP2, hgrown2, hl0⟩ := hsecond.result hP1
      refine ⟨hva', hP2, hgrown.trans hgrown2, fun q hq => ?_⟩
      cases hq
      refine Core.leafRef_eq_some.mpr ⟨?_, rfl⟩
      rcases hl0 l0 rfl with ⟨hl, rfl⟩ | ⟨-, hl⟩
      · exact hl
      · rw [hl, setAt_self]

/-! ## `mappages` of one page -/

lemma mappages_one {b : Bool} (hrun : k.mappages r (v * PGSIZE) PGSIZE pa perm = .ok (b, k')) :
    ∃ o k1, k.walkAlloc r (v * PGSIZE) = .ok (o, k1) ∧
      ((o = none ∧ b = false ∧ k' = k1) ∨
        ∃ q, o = some q ∧ (k1.pte q).flags.v = false ∧ b = true ∧
          k' = k1.setPte q (.map pa perm)) := by
  have hone : PGSIZE / PGSIZE = 1 := by decide
  unfold mappages at hrun
  rw [if_neg (by simp), if_neg (by simp), if_neg (by decide), hone] at hrun
  unfold mapLoop at hrun
  obtain ⟨⟨o, k1⟩, hwalk, hrun⟩ := bind_eq_ok.mp hrun
  refine ⟨o, k1, hwalk, ?_⟩
  cases o with
  | none =>
    cases hrun
    exact .inl ⟨rfl, rfl, rfl⟩
  | some q =>
    dsimp only at hrun
    split_ifs at hrun with hv
    unfold mapLoop at hrun
    cases hrun
    exact .inr ⟨q, rfl, by simpa using hv, rfl, rfl⟩

lemma entryPage_map (hlt : v < USER_TOP) :
    k.entryPage D v (.map pa perm) = some (.ofFlags (D.seen (k.mem pa)) perm) := by
  simp [entryPage, Pte.map, UPage.ofFlags, Nat.not_le.mpr hlt]

/-- The trapframe and trampoline pages are mapped, but not for the user. -/
def Framed (k : Kernel σ) (r : ℕ) : Prop :=
  ∀ v, USER_TOP ≤ v → v * PGSIZE < MAXVA → upperBits (k.core.leaf r v) = (true, false)

lemma Same.framed (h : k.Same k') (hf : k.Framed r) : k'.Framed r := by
  intro v htop hva
  rw [h.upper htop]
  exact hf v htop hva

lemma pa_not_free {h : Held} (hI : k.core.Inv h) (hi : (k.frametable i).inUse ≠ .free) :
    (k.frametable i).pa ∉ k.freelist := by
  intro hmem
  have huse : PageUse.free = .frame i :=
    hI.pages.exclusive (r := (k.frametable i).pa) hmem ⟨hi, rfl⟩
  cases huse

/-- Mapping the held frame at a page that is not swapped out: either the page is mapped, or a
page-table page could not be allocated and the frame is still held. -/
theorem mapHeld_spec {b : Bool} (hI : k.core.Inv ⟨some i, none, none⟩) (howner : k.owner r = some p)
    (hframed : k.Framed r) (hframe : k.frametable i = userFrame (v * PGSIZE) p pa)
    (hs : (k.core.leaf r v).flags.s = false) (hperm : perm.s = false)
    (hrun : k.mappages r (v * PGSIZE) PGSIZE pa perm = .ok (b, k')) :
    (b = true ∧ v < USER_TOP ∧ (k.core.leaf r v).flags.v = false ∧
      k'.core.Inv {} ∧
      k'.page D = setAt (k.page D) r v (some (.ofFlags (D.seen (k.mem pa)) perm)) ∧ k.Same k' ∧
      k'.core.leaf = setAt k.core.leaf r v (.map pa perm)) ∨
    (b = false ∧ k'.core.Inv ⟨some i, none, none⟩ ∧ Grown k k') := by
  obtain ⟨o, k1, hwalk, hcases⟩ := mappages_one hrun
  obtain ⟨hva, hP1, hgrown, href⟩ := walkAlloc_spec hI.pages (by simp [howner]) hwalk
  have hI1 := hgrown.inv hI hP1
  rcases hcases with ⟨-, rfl, rfl⟩ | ⟨q, rfl, hv, rfl, rfl⟩
  · exact .inr ⟨rfl, hI1, hgrown⟩
  · have hq := href q rfl
    rw [mul_pgsize_div] at hq
    rw [pte_eq_leaf hq, hgrown.leaf] at hv
    have hlt : v < USER_TOP := by
      by_contra hge
      have := hframed v (Nat.le_of_not_lt hge) hva
      simp [upperBits, hv] at this
    have hleaf : k1.core.leaf r v = {} := by
      rw [hgrown.leaf]
      exact hI.shape r v hv hs
    have hframe1 : k1.core.frametable i = userFrame (v * PGSIZE) p pa :=
      (congrFun hgrown.frametable i).trans hframe
    have howner1 : k1.owner r = some p := by rw [hgrown.same.owner, howner]
    have hI2 : (k1.setPte q (.map pa perm)).core.Inv {} := by
      refine hI1.mapFrame hq hlt hleaf rfl hperm ?_ ?_ ?_
      · rw [hframe1]
        rfl
      · rw [hframe1]
        exact howner1.symm
      · rw [hframe1]
        exact pgrounddown_mul v
    have hmem : k1.mem pa = k.mem pa := by
      refine hgrown.mem pa ?_
      have := pa_not_free (i := i) hI (hI.frames.cells.held_used i rfl)
      rwa [hframe] at this
    refine .inl ⟨rfl, hlt, hv, hI2, ?_, hgrown.same.trans ?_, ?_⟩
    · rw [page_setPte hI1 hq, hgrown.page hI, entryPage_map hlt, hmem]
    · refine .mk rfl rfl (fun r' v' hle => ?_) rfl rfl rfl rfl rfl
      change upperBits ((k1.core.setPte q _).leaf r' v') = _
      rw [hI1.pages.leaf_setPte hq, setAt, if_neg (by rintro ⟨-, rfl⟩; omega)]
    · rw [← hgrown.leaf]
      exact hI1.pages.leaf_setPte hq

/-! ## `uvmunmap` -/

/-- A page that is neither resident nor swapped out stays as it is. The entry of another one is
cleared, and its slot or frame is freed if that is asked for. -/
theorem unmapPage_cases {doFree : Bool} (hr : (k.owner r).isSome)
    (hrun : k.unmapPage r doFree (v * PGSIZE) = .ok k') :
    ((k.core.leaf r v).flags.v = false ∧ (k.core.leaf r v).flags.s = false ∧ k' = k) ∨
    ∃ q, k.core.leafRef r v = some q ∧
      ¬ ((k.core.leaf r v).flags.v = false ∧ (k.core.leaf r v).flags.s = false) ∧
      (doFree = false ∧ k' = k.setPte q {} ∨ doFree = true ∧
        ((k.core.leaf r v).flags.s = true ∧
            k' = (k.setPte q {}).freeSwapSlot (k.core.leaf r v).num ∨
          (k.core.leaf r v).flags.v = true ∧
            (k.setPte q {}).kfreeUser (k.core.leaf r v).num = .ok k')) := by
  unfold unmapPage at hrun
  obtain ⟨o, hwalk, hrun⟩ := bind_eq_ok.mp hrun
  obtain ⟨-, href⟩ := walk_ok hr hwalk
  rw [mul_pgsize_div] at href
  cases o with
  | none =>
    cases hrun
    rw [Core.leaf_eq_of_none href]
    exact .inl ⟨rfl, rfl, rfl⟩
  | some q =>
    dsimp only at hrun
    rw [pte_eq_leaf href] at hrun
    split_ifs at hrun with hnone hfree hs
    · cases hrun
      exact .inl ⟨hnone.1, hnone.2, rfl⟩
    · cases hrun
      exact .inr ⟨q, href, hnone, .inl ⟨hfree, rfl⟩⟩
    · cases hrun
      exact .inr ⟨q, href, hnone, .inr ⟨by simpa using hfree, .inl ⟨hs, rfl⟩⟩⟩
    · have hv : (k.core.leaf r v).flags.v = true := by
        by_contra hv
        exact hnone ⟨by simpa using hv, by simpa using hs⟩
      exact .inr ⟨q, href, hnone, .inr ⟨by simpa using hfree, .inr ⟨hv, hrun⟩⟩⟩

/-- A store of what is there. -/
theorem setAt_eq_self {α : Type*} {g : ℕ → ℕ → α} {x : α} (h : g r v = x) : setAt g r v x = g := by
  funext r' v'
  unfold setAt
  split_ifs with hrv
  · rw [hrv.1, hrv.2, h]
  · rfl

/-- `uvmunmap` of one user page frees its frame or its slot. -/
theorem unmapPage_spec (hI : k.core.Inv {}) (hr : (k.owner r).isSome)
    (hlt : v < USER_TOP) (hrun : k.unmapPage r true (v * PGSIZE) = .ok k') :
    k'.core.Inv {} ∧ k'.page D = setAt (k.page D) r v none ∧ k.Same k' ∧
      k'.core.leafRef = k.core.leafRef ∧ k'.core.leaf = setAt k.core.leaf r v {} := by
  rcases unmapPage_cases hr hrun with ⟨hv, hs, rfl⟩ | ⟨q, href, -, hcases⟩
  · have hleaf := hI.shape r v hv hs
    exact ⟨hI, (setAt_eq_self (page_of_empty hleaf)).symm, .refl _, rfl,
      (setAt_eq_self hleaf).symm⟩
  · have hleaf1 : (k.setPte q {}).core.leaf = setAt k.core.leaf r v {} :=
      hI.pages.leaf_setPte href
    have hpage1 : (k.setPte q {}).page D = setAt (k.page D) r v none := by
      rw [page_setPte hI href, entryPage_empty]
    have href1 : (k.setPte q {}).core.leafRef = k.core.leafRef := by
      funext r' v'
      exact hI.pages.leafRef_setPte href r' v'
    have hsame1 : k.Same (k.setPte q {}) := by
      refine .mk rfl rfl (fun r' v' hle => ?_) rfl rfl rfl rfl rfl
      rw [hleaf1, setAt, if_neg (by rintro ⟨-, rfl⟩; omega)]
    rcases hcases with ⟨hfree, -⟩ | ⟨-, ⟨hswap, rfl⟩ | ⟨hv, hfree⟩⟩
    · cases hfree
    · -- the page is swapped out
      have hsw : Swapped k.core.leaf (r, v) (k.core.leaf r v).num := ⟨hswap, rfl⟩
      have hj := (hI.slots.swapped (r, v) _ hsw).2.2
      rw [freeSwapSlot_eq (k := k.setPte q {}) hj (hI.slots.cells.ref_used (r, v) _ hsw)]
      exact ⟨(hI.unmapSlot href hsw).freeSlot, hpage1, hsame1, href1, hleaf1⟩
    · -- the page is resident
      obtain ⟨i, hi⟩ := hI.frames.resident r v hlt hv
      obtain ⟨hI2, hpage2, hsame2, href2, hleaf2⟩ :=
        kfreeUser_spec (D := D) (k := k.setPte q {}) (hI.unmapFrame href hi) hi.2.2.1.symm hfree
      exact ⟨hI2, hpage2.trans hpage1, hsame1.trans hsame2, href2.trans href1, hleaf2.trans hleaf1⟩

lemma unmapLoop_spec (n : ℕ) : ∀ {k k' : Kernel σ} {v : ℕ}, k.core.Inv {} →
    (k.owner r).isSome → v + n ≤ USER_TOP → k.unmapLoop r true n (v * PGSIZE) = .ok k' →
    k'.core.Inv {} ∧ k'.page D = setRange (k.page D) r v n none ∧ k.Same k' ∧
      k'.core.leafRef = k.core.leafRef ∧ k'.core.leaf = setRange k.core.leaf r v n {} := by
  induction n with
  | zero =>
    intro k k' v hI hr hle hrun
    cases hrun
    exact ⟨hI, by rw [setRange_zero], .refl _, rfl, by rw [setRange_zero]⟩
  | succ n ih =>
    intro k k' v hI hr hle hrun
    unfold unmapLoop at hrun
    obtain ⟨k1, hpage, hrun⟩ := bind_eq_ok.mp hrun
    obtain ⟨hI1, hp1, hs1, hr1, hl1⟩ := unmapPage_spec (D := D) hI hr (by omega) hpage
    rw [← Nat.succ_mul] at hrun
    obtain ⟨hI2, hp2, hs2, hr2, hl2⟩ := ih hI1 (by rw [hs1.owner]; exact hr) (by omega) hrun
    refine ⟨hI2, ?_, hs1.trans hs2, hr2.trans hr1, ?_⟩
    · rw [hp2, hp1, setRange_setAt]
    · rw [hl2, hl1, setRange_setAt]

lemma uvmunmap_spec {n : ℕ} (hI : k.core.Inv {}) (hr : (k.owner r).isSome)
    (hle : v + n ≤ USER_TOP) (hrun : k.uvmunmap r (v * PGSIZE) n true = .ok k') :
    k'.core.Inv {} ∧ k'.page D = setRange (k.page D) r v n none ∧ k.Same k' ∧
      k'.core.leafRef = k.core.leafRef ∧ k'.core.leaf = setRange k.core.leaf r v n {} := by
  unfold uvmunmap at hrun
  rw [if_neg (by simp)] at hrun
  exact unmapLoop_spec n hI hr hle hrun

end Kernel

end Xv6.VM
