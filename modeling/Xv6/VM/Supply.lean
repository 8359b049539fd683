import Xv6.VM.Victim
import Xv6.VM.Releasing
import Xv6.VM.Pressure
import Xv6.Foundations.Sums

/-!
# What an allocation of user pages draws on

`uvmalloc` takes for each page a free frame and a free physical page, or else evicts a page, which
takes a swap slot and the frame of a process that may lose pages, and physical pages for the
page-table pages that are missing. A `Supply` counts what there is of each, and `Supply.Lasts` says
how far it goes. `uvmallocLoop_returns_iff` shows that `uvmalloc` panics exactly if the supply does
not last.
-/

namespace Xv6.VM

open Fallible Function List

/-! ## Supplies -/

/-- How many frames, physical pages and swap slots are free, and how many frames are in use by
processes that may lose pages. -/
@[ext]
structure Supply where
  frames : ℕ
  pages : ℕ
  slots : ℕ
  victims : ℕ
  deriving DecidableEq, Repr

namespace Supply

/-- A page has to be evicted for the next allocation. -/
def Short (s : Supply) : Prop := s.frames = 0 ∨ s.pages = 0
  deriving Decidable

/-- The supply after the allocation of one user page; `own` is 1 if its process may lose pages and
else 0. -/
def take (own : ℕ) (s : Supply) : Supply :=
  if s.Short then { s with slots := s.slots - 1, victims := s.victims - 1 + own }
  else { s with frames := s.frames - 1, pages := s.pages - 1, victims := s.victims + own }

/-- The supply lasts for `n` user pages from page `v` on, or at least until the page-table pages of
one of them cannot be allocated; `tables v` says how many page `v` needs. -/
def Lasts (own : ℕ) (tables : ℕ → ℕ) : ℕ → ℕ → Supply → Prop
  | 0, _, _ => True
  | n + 1, v, s =>
    (s.Short → 0 < s.slots ∧ 0 < s.victims) ∧
      (tables v ≤ (s.take own).pages →
        Lasts own tables n (v + 1) { s.take own with pages := (s.take own).pages - tables v })

instance instDecidableLasts (own : ℕ) (tables : ℕ → ℕ) : ∀ n v s, Decidable (Lasts own tables n v s)
  | 0, _, _ => isTrue trivial
  | n + 1, v, s =>
    have := instDecidableLasts own tables n (v + 1)
      { s.take own with pages := (s.take own).pages - tables v }
    inferInstanceAs (Decidable (_ ∧ _))

lemma lasts_congr {own : ℕ} {t t' : ℕ → ℕ} : ∀ {n v : ℕ} {s : Supply},
    (∀ w, v ≤ w → t' w = t w) → (Lasts own t' n v s ↔ Lasts own t n v s) := by
  intro n
  induction n with
  | zero => exact fun _ => Iff.rfl
  | succ n ih =>
    intro v s h
    unfold Lasts
    rw [h v le_rfl, ih fun w hw => h w (by omega)]

end Supply

namespace Kernel

variable {σ : Type} {D : SwapDev σ} {k k' k'' : Kernel σ} {f : Option (Fin NUM_FRAMES)}
  {s : Option ℕ} {i : Fin NUM_FRAMES} {p : ProcId} {r v w va pa : ℕ}

/-- What there is in a state. -/
def supply (k : Kernel σ) : Supply where
  frames := (Finset.univ.filter fun i => (k.frametable i).inUse = .free).card
  pages := k.freelist.length
  slots := ((Finset.range MAX_SWAP_PAGES).filter fun j => (k.swaptable j).inUse = false).card
  victims := (Finset.univ.filter fun i => k.InPlay i).card

/-- Whether the new page of a process may be evicted again. -/
def own (k : Kernel σ) (p : ProcId) : ℕ := if k.Evictee p then 1 else 0

lemma own_congr (hproc : k'.proc = k.proc) : k'.own p = k.own p := by
  refine if_congr ?_ rfl rfl
  unfold Evictee
  rw [hproc]

lemma short_iff : k.supply.Short ↔ k.NeedsVictim := by
  unfold Supply.Short NeedsVictim supply
  refine or_congr ?_ length_eq_zero_iff
  simp [Finset.filter_eq_empty_iff]

/-! ## Page-table pages -/

/-- The page-table pages that are missing on the way to page `w` of the table rooted at `r`, if the
pages from `v` on up to `w` have been mapped before. -/
def newTables (k : Kernel σ) (r v w : ℕ) : ℕ :=
  (if k.core.dir1 r (w / 512 / 512) = none ∧ (w = v ∨ w % (512 * 512) = 0) then 1 else 0) +
    if k.core.dir0 r (w / 512) = none ∧ (w = v ∨ w % 512 = 0) then 1 else 0

lemma newTables_self : k.newTables r v v =
    (if k.core.dir1 r (v / 512 / 512) = none then 1 else 0) +
      if k.core.dir0 r (v / 512) = none then 1 else 0 := by
  simp [newTables]

lemma newTables_succ (h1 : ∀ i, k'.core.dir1 r i = none ↔
      k.core.dir1 r i = none ∧ i ≠ v / 512 / 512)
    (h0 : ∀ j, k'.core.dir0 r j = none ↔ k.core.dir0 r j = none ∧ j ≠ v / 512) (hw : v + 1 ≤ w) :
    k'.newTables r (v + 1) w = k.newTables r v w := by
  unfold newTables
  congr 1 <;>
  · refine if_congr ?_ rfl rfl
    simp only [h1, h0]
    constructor
    · rintro ⟨⟨hnone, hne⟩, hmod⟩
      exact ⟨hnone, .inr (by omega)⟩
    · rintro ⟨hnone, hmod⟩
      exact ⟨⟨hnone, by omega⟩, .inr (by omega)⟩

lemma walkLevel_root_dirs {i l1 : ℕ} (hP : k.core.PagesOk none)
    (hr : (k.owner r).isSome) (hi : i < 512) (hrun : k.walkLevel r i = (some l1, k')) :
    k'.freelist.length + (if k.core.dir1 r i = none then 1 else 0) = k.freelist.length ∧
      (∀ i', k'.core.dir1 r i' = none ↔ k.core.dir1 r i' = none ∧ i' ≠ i) ∧
      (∀ j, k'.core.dir0 r j = none ↔ k.core.dir0 r j = none) := by
  have hlevel := walkLevel_root hP hr hi
  rw [hrun] at hlevel
  cases hlevel with
  | found hl =>
    refine ⟨by simp [hl], fun i' => ⟨fun hnone => ⟨hnone, ?_⟩, And.left⟩, fun _ => Iff.rfl⟩
    rintro rfl
    rw [hl] at hnone
    cases hnone
  | new hnone hfree hP' hgrown hnew =>
    refine ⟨by rw [hfree, if_pos hnone, length_cons], fun i' => ?_, fun j => by rw [hnew.2]⟩
    rw [hnew.1, setAt]
    by_cases hii : i' = i <;> simp [hii]

lemma walkLevel_dir1_dirs {j l1 l0 : ℕ} (hP : k.core.PagesOk none)
    (hl : k.core.dir1 r (j / 512) = some l1) (hrun : k.walkLevel l1 (j % 512) = (some l0, k')) :
    k'.freelist.length + (if k.core.dir0 r j = none then 1 else 0) = k.freelist.length ∧
      (∀ i, k'.core.dir1 r i = k.core.dir1 r i) ∧
      (∀ j', k'.core.dir0 r j' = none ↔ k.core.dir0 r j' = none ∧ j' ≠ j) := by
  have hlevel := walkLevel_dir1 hP hl
  rw [hrun] at hlevel
  cases hlevel with
  | found hl0 =>
    refine ⟨by simp [hl0], fun _ => rfl, fun j' => ⟨fun hnone => ⟨hnone, ?_⟩, And.left⟩⟩
    rintro rfl
    rw [hl0] at hnone
    cases hnone
  | new hnone hfree hP' hgrown hnew =>
    refine ⟨by rw [hfree, if_pos hnone, length_cons], fun i => by rw [hnew.1], fun j' => ?_⟩
    rw [hnew.2, setAt]
    by_cases hjj : j' = j <;> simp [hjj]

/-- The tables and the free list after `walk` has allocated what page `v` needs. -/
structure Walked (k : Kernel σ) (r v : ℕ) (k' : Kernel σ) : Prop where
  pages : k'.freelist.length + k.newTables r v v = k.freelist.length
  dir1 : ∀ i, k'.core.dir1 r i = none ↔ k.core.dir1 r i = none ∧ i ≠ v / 512 / 512
  dir0 : ∀ j, k'.core.dir0 r j = none ↔ k.core.dir0 r j = none ∧ j ≠ v / 512

lemma walkAlloc_supply (hP : k.core.PagesOk none) (hr : (k.owner r).isSome)
    (hv : v * PGSIZE < MAXVA) :
    (∃ q k', k.walkAlloc r (v * PGSIZE) = .ok (some q, k') ∧ k.Walked r v k') ∨
      ∃ k', k.walkAlloc r (v * PGSIZE) = .ok (none, k') ∧
        k.freelist.length < k.newTables r v v := by
  obtain ⟨h2, h1, h0, hlt⟩ := px_eq hv
  rw [mul_pgsize_div] at h2 h1 h0 hlt
  unfold walkAlloc
  rw [if_neg (Nat.not_le.mpr hv), h2, h1, h0, newTables_self]
  have hroot := walkLevel_root hP hr hlt
  cases hlevel : k.walkLevel r (v / 512 / 512) with
  | mk o1 k1 =>
  rw [hlevel] at hroot
  cases o1 with
  | none =>
    cases hroot with
    | full hnone hfree =>
      refine .inr ⟨k, rfl, ?_⟩
      rw [hnone, hfree, if_pos rfl, length_nil]
      omega
  | some l1 =>
    obtain ⟨hP1, -, hl1⟩ := hroot.result hP
    obtain ⟨hpages, hdir1, hdir0⟩ := walkLevel_root_dirs hP hr hlt hlevel
    have hl1 : k1.core.dir1 r (v / 512 / 512) = some l1 := by
      rcases hl1 l1 rfl with ⟨hl, rfl⟩ | ⟨hl, -⟩
      · exact hl
      · rw [hl, setAt_self]
    have hsecond := walkLevel_dir1 hP1 hl1
    dsimp only
    cases hlevel2 : k1.walkLevel l1 (v / 512 % 512) with
    | mk o0 k2 =>
    rw [hlevel2] at hsecond
    cases o0 with
    | none =>
      cases hsecond with
      | full hnone hfree =>
        refine .inr ⟨k1, rfl, ?_⟩
        rw [hfree, length_nil] at hpages
        rw [if_pos ((hdir0 _).mp hnone)]
        omega
    | some l0 =>
      obtain ⟨hpages2, hdir1', hdir0'⟩ := walkLevel_dir1_dirs hP1 hl1 hlevel2
      refine .inl ⟨_, k2, rfl, ?_, fun i => ?_, fun j => ?_⟩
      · rw [newTables_self]
        rw [if_congr (hdir0 (v / 512)) rfl rfl] at hpages2
        omega
      · rw [hdir1', hdir1]
      · rw [hdir0', hdir0]

/-- `mappages` of one page that is not mapped succeeds exactly if the page-table pages that it needs
are free. -/
theorem mappages_supply (pa : ℕ) (perm : Flags) (hP : k.core.PagesOk none)
    (hr : (k.owner r).isSome) (hlt : v < USER_TOP) (hv : (k.core.leaf r v).flags.v = false) :
    (∃ k', k.mappages r (v * PGSIZE) PGSIZE pa perm = .ok (true, k') ∧ k.Walked r v k' ∧
      k'.frametable = k.frametable ∧ k'.swaptable = k.swaptable ∧ k'.proc = k.proc) ∨
    ∃ k', k.mappages r (v * PGSIZE) PGSIZE pa perm = .ok (false, k') ∧
      k.freelist.length < k.newTables r v v := by
  have hmap : k.mappages r (v * PGSIZE) PGSIZE pa perm =
      mapLoop r perm 1 (v * PGSIZE) pa k := by
    unfold mappages
    rw [if_neg (by simp), if_neg (by simp), if_neg (by decide), Nat.div_self (by decide)]
  rw [hmap]
  unfold mapLoop
  rcases walkAlloc_supply hP hr (mul_pgsize_lt_maxva hlt) with ⟨q, k1, hwalk, hwalked⟩ |
    ⟨k1, hwalk, hshort⟩
  · obtain ⟨-, hP1, hgrown, href⟩ := walkAlloc_spec hP hr hwalk
    have hq := href q rfl
    rw [mul_pgsize_div] at hq
    rw [bind_of_ok hwalk]
    dsimp only
    rw [pte_eq_leaf hq, hgrown.leaf, if_neg (by simp [hv])]
    refine .inl ⟨_, rfl, ⟨hwalked.pages, fun i => ?_, fun j => ?_⟩, hgrown.frametable,
      hgrown.swaptable, hgrown.same.proc⟩
    · rw [← hwalked.dir1]
      change (k1.core.setPte q _).dir1 r i = none ↔ _
      rw [hP1.dir1_setPte hq]
    · rw [← hwalked.dir0]
      change (k1.core.setPte q _).dir0 r j = none ↔ _
      rw [hP1.dir0_setPte hq]
  · rw [bind_of_ok hwalk]
    exact .inr ⟨k1, rfl, hshort⟩

/-! ## Frames and slots -/

/-- What growing a process relies on: the ownership invariant, one table per process, levels that
the scheduler gives, and physical pages in the range that `kfree` accepts. -/
structure Growing (k : Kernel σ) (p : ProcId) (r : ℕ) : Prop where
  inv : k.core.Inv {}
  table : ∀ r p, k.owner r = some p ↔ (k.proc p).pagetable = r ∧ r ≠ 0
  owner : k.owner r = some p
  framed : k.Framed r
  levels : k.LevelsValid
  range : k.rest.InRange

namespace Growing

variable (hk : k.Growing p r)

include hk

lemma attached : k.Attached := fun p hp => (hk.table _ p).mpr ⟨rfl, hp⟩

lemma of_same (hI : k'.core.Inv {}) (hsame : k.Same k') : k'.Growing p r where
  inv := hI
  table r p := by rw [hsame.owner, hsame.proc, hk.table]
  owner := by rw [hsame.owner, hk.owner]
  framed := hsame.framed hk.framed
  levels := by
    unfold LevelsValid
    rw [hsame.proc]
    exact hk.levels
  range := by
    rw [show k'.rest = k.rest from hsame]
    exact hk.range

lemma addressesValid : k.AddressesValid := by
  intro i hi
  have hused : (k.frametable i).inUse ≠ .free := by simp [hi]
  obtain ⟨a, hres⟩ := (hk.inv.frames.cells.covered i hused).resolve_left (by simp)
  have hva : (k.frametable i).va = a.2 * PGSIZE := (hk.inv.frames.owned a i hres).2
  rw [hva]
  exact mul_pgsize_lt_maxva hres.1

/-- Every frame of a process that may lose pages is evictable. -/
theorem evictable_of_inPlay (hi : k.InPlay i) : k.Evictable i := by
  obtain ⟨hused, q, hq, hev⟩ := hi
  obtain ⟨⟨t, v⟩, hres⟩ := (hk.inv.frames.cells.covered i hused).resolve_left (by simp)
  obtain ⟨howned, hva⟩ := hk.inv.frames.owned _ i hres
  have hown : k.owner t = some q := howned.symm.trans hq
  obtain ⟨htable, hne⟩ := (hk.table t q).mp hown
  have hwalk := walk_eq (k := k) (r := t) (by rw [hown]; rfl) (mul_pgsize_lt_maxva hres.1)
  rw [mul_pgsize_div] at hwalk
  refine ⟨hk.inv.frames.used hused, ⟨q, hq, by rw [htable]; exact hne, hev⟩, ?_⟩
  cases href : k.core.leafRef t v with
  | none =>
    have hv := hres.2.1
    change (k.core.leaf t v).flags.v = true at hv
    rw [Core.leaf_eq_of_none href] at hv
    cases hv
  | some pte =>
    rw [href] at hwalk
    have hentry : k.entry i = some pte := by
      unfold entry
      rw [show (k.frametable i).p = some q from hq]
      dsimp only
      rw [htable, show (k.frametable i).va = v * PGSIZE from hva, hwalk]
    refine ⟨pte, hentry, ?_⟩
    rw [pte_eq_leaf href]
    exact ⟨hres.2.1, hres.2.2.1⟩

end Growing

/-- What an eviction does to the supply: a slot is taken, and the frame of a process that may lose
pages goes to `p`. The free list and the page tables are left alone. -/
structure Evicted (k : Kernel σ) (va : ℕ) (p : ProcId) (pa : ℕ) (k' : Kernel σ) : Prop where
  freelist : k'.freelist = k.freelist
  dir1 : k'.core.dir1 = k.core.dir1
  dir0 : k'.core.dir0 = k.core.dir0
  slot : ∃ j q, j < MAX_SWAP_PAGES ∧ (k.swaptable j).inUse = false ∧
    k'.swaptable = update k.swaptable j { inUse := true, p := q }
  frame : ∃ i, k.InPlay i ∧ k'.frametable i = userFrame va p pa ∧
    ∀ j, j ≠ i → (k'.frametable j).inUse = (k.frametable j).inUse ∧
      (k'.frametable j).p = (k.frametable j).p

lemma evictFor_supply (hk : k.Growing p r) (hex : ∃ i, k.Evictable i)
    (hrun : k.evictFor D va p = .ok (pa, k')) : k.Evicted va p pa k' := by
  obtain ⟨i, vp, q, r1, v1, j, k1, stats, dev, hvictim, hI1, hh, hev, hj, hfree, -, -, rfl⟩ :=
    evictFor_ok hk.inv hk.attached hrun
  -- the clock changes `ref`, `PTE_A` and its hand only
  obtain ⟨i', m, -, hclock⟩ := getVictim_eq (k := k.acquire) hk.addressesValid hk.levels hex
  rw [hvictim] at hclock
  injection hclock with hclock
  injection hclock with _ hk1
  have hframe := hh.frames
  have howned := (hI1.frames.owned _ i hev.resides).1
  have hevictee := hev.evictee
  rw [hk1] at hfree hevictee
  refine ⟨by rw [hk1]; rfl, ?_, ?_, ⟨j, some vp, hj, hfree, by rw [hk1]; rfl⟩,
    ⟨i, ⟨?_, vp, ?_, hevictee⟩, update_self .., fun j' hj' => ?_⟩⟩
  · funext r' i'
    refine (hI1.pages.dir1_setPte hev.ref r' i').trans ?_
    rw [hk1]
    rfl
  · funext r' j'
    refine (hI1.pages.dir0_setPte hev.ref r' j').trans ?_
    rw [hk1]
    rfl
  · rw [← show (k1.frametable i).inUse = (k.frametable i).inUse from (hframe i).1]
    exact hev.resides.2.2.2
  · rw [← show (k1.frametable i).p = (k.frametable i).p from (hframe i).2.1]
    exact howned.trans hev.owner
  · dsimp only
    rw [update_of_ne hj']
    exact ⟨(hframe j').1, (hframe j').2.1⟩

lemma swapOut_returns {q : ℕ × ℕ} (pa : ℕ) (hD : ∀ msg, D.Avoids msg)
    (hslot : ∃ j < MAX_SWAP_PAGES, (k.swaptable j).inUse = false) :
    ∃ k', k.swapOut D p q pa = .ok k' := by
  have hfind : (Raid.findFreeSlot fun j => (k.swaptable j).inUse).isSome := by
    rw [Raid.findFreeSlot, List.find?_isSome]
    obtain ⟨j, hj, hfree⟩ := hslot
    exact ⟨j, mem_range.mpr hj, by simpa using hfree⟩
  obtain ⟨slot, hfind⟩ := Option.isSome_iff_exists.mp hfind
  unfold swapOut takeSlot
  rw [hfind]
  dsimp only [Option.map_some]
  exact Avoids.exists_ok fun msg => raidWrite_avoids (hD msg)

lemma evictFor_returns (hk : k.Growing p r) (hD : ∀ msg, D.Avoids msg)
    (hex : ∃ i, k.Evictable i) (hslot : ∃ j < MAX_SWAP_PAGES, (k.swaptable j).inUse = false) :
    ∃ x, k.evictFor D va p = .ok x := by
  obtain ⟨i', m, -, hclock⟩ := getVictim_eq (k := k.acquire) hk.addressesValid hk.levels hex
  obtain ⟨⟨⟨i, vp, q⟩, k0⟩, hpick⟩ :=
    pickVictim_ok (k := k.acquire) (n := 0) hk.inv hk.attached hclock
  obtain ⟨k1, r1, v1, hvictim, -, -, -, rfl⟩ :=
    pickVictim_spec (k := k.acquire) hk.inv hk.attached hpick
  rw [hvictim] at hclock
  injection hclock with hclock
  injection hclock with _ hk1
  unfold evictFor
  rw [bind_of_ok hpick]
  dsimp only
  obtain ⟨k2, hswap⟩ := swapOut_returns (k := ((k1.setPte q (k1.pte q).clearV).setFrame i
    { k1.frametable i with inUse := .pinned }).release) (p := vp) (q := q)
    (((k1.setPte q (k1.pte q).clearV).setFrame i
      { k1.frametable i with inUse := .pinned }).frametable i).pa hD (by rw [hk1]; exact hslot)
  rw [bind_of_ok hswap]
  exact ⟨_, rfl⟩

lemma slots_pos : 0 < k.supply.slots ↔ ∃ j < MAX_SWAP_PAGES, (k.swaptable j).inUse = false := by
  simp only [supply, Finset.card_pos, Finset.filter_nonempty_iff, Finset.mem_range]

lemma victims_pos : 0 < k.supply.victims ↔ ∃ i, k.InPlay i := by
  simp only [supply, Finset.card_pos, Finset.filter_nonempty_iff, Finset.mem_univ, true_and]

/-- A frame of the table changes, and the frames of processes that may lose pages accordingly. -/
theorem card_inPlay (hproc : k'.proc = k.proc)
    (hother : ∀ j, j ≠ i → (k'.frametable j).inUse = (k.frametable j).inUse ∧
      (k'.frametable j).p = (k.frametable j).p) :
    k'.supply.victims + (if k.InPlay i then 1 else 0) =
      k.supply.victims + if k'.InPlay i then 1 else 0 := by
  refine Finset.card_filter_add_eq (P := k.InPlay) (Q := k'.InPlay) (Finset.mem_univ i)
    fun j hj => ?_
  unfold InPlay Evictee
  rw [(hother j hj).1, (hother j hj).2, hproc]

lemma card_free (hother : ∀ j, j ≠ i → (k'.frametable j).inUse = (k.frametable j).inUse) :
    k'.supply.frames + (if (k.frametable i).inUse = .free then 1 else 0) =
      k.supply.frames + if (k'.frametable i).inUse = .free then 1 else 0 := by
  refine Finset.card_filter_add_eq (P := fun i => (k.frametable i).inUse = .free)
    (Q := fun i => (k'.frametable i).inUse = .free) (Finset.mem_univ i) fun j hj => ?_
  rw [hother j hj]

/-- The frame that `kalloc_user` gives to `p`. -/
theorem inPlay_userFrame (hproc : k'.proc = k.proc) (hframe : k'.frametable i = userFrame va p pa) :
    k'.InPlay i ↔ k.Evictee p := by
  unfold InPlay Evictee
  rw [hframe, hproc]
  simp [userFrame]

lemma Evicted.supply_eq (h : k.Evicted va p pa k') (hproc : k'.proc = k.proc)
    (hshort : k.supply.Short) : k'.supply = k.supply.take (k.own p) := by
  obtain ⟨j, q, hj, hfree, hslot⟩ := h.slot
  obtain ⟨i, hin, hframe, hother⟩ := h.frame
  have hvictims := card_inPlay hproc hother
  rw [if_pos hin, if_congr (inPlay_userFrame hproc hframe) rfl rfl] at hvictims
  have hframes := card_free fun j hj => (hother j hj).1
  rw [if_neg hin.1, if_neg (by rw [hframe]; simp [userFrame])] at hframes
  have hslots : k'.supply.slots + 1 = k.supply.slots := by
    have hcard := Finset.card_filter_add_eq (P := fun j => (k.swaptable j).inUse = false)
      (Q := fun j => (k'.swaptable j).inUse = false) (Finset.mem_range.mpr hj) fun j' hj' => by
        rw [hslot, update_of_ne hj']
    rw [if_pos hfree, if_neg (by rw [hslot]; simp)] at hcard
    unfold supply
    dsimp only
    omega
  have hpages : k'.supply.pages = k.supply.pages := congrArg List.length h.freelist
  unfold Supply.take
  rw [if_pos hshort]
  unfold own
  have hpos := victims_pos.mpr ⟨i, hin⟩
  refine Supply.ext ?_ ?_ ?_ ?_ <;> dsimp only <;> omega

/-- `kalloc_user` returns if it has a frame and a page, or else a page to evict and a slot. -/
theorem kallocUser_supply (hk : k.Growing p r) (hD : ∀ msg, D.Avoids msg)
    (hsupply : k.supply.Short → 0 < k.supply.slots ∧ 0 < k.supply.victims) (va : ℕ) :
    ∃ pa k', k.kallocUser D va p = .ok (pa, k') ∧ k'.supply = k.supply.take (k.own p) ∧
      k'.core.dir1 = k.core.dir1 ∧ k'.core.dir0 = k.core.dir0 := by
  by_cases hshort : k.supply.Short
  · -- a page is evicted
    obtain ⟨hslots, hvictims⟩ := hsupply hshort
    obtain ⟨i, hi⟩ := victims_pos.mp hvictims
    have hex : ∃ i, k.Evictable i := ⟨i, hk.evictable_of_inPlay hi⟩
    obtain ⟨⟨pa, k'⟩, hrun⟩ := evictFor_returns hk hD hex (slots_pos.mp hslots)
    have hevicted := evictFor_supply hk hex hrun
    rw [← kallocUser_of_needsVictim (short_iff.mp hshort)] at hrun
    obtain ⟨_, hal⟩ := kallocUser_spec hk.inv hk.attached hrun
    exact ⟨pa, k', hrun, hevicted.supply_eq hal.same.proc hshort, hevicted.dir1, hevicted.dir0⟩
  · -- a free frame gets a free page
    obtain ⟨i, pg, rest, hfree, hlist, hrun⟩ :=
      kallocUser_of_room D va p (mt short_iff.mpr hshort)
    refine ⟨_, _, hrun, ?_, rfl, rfl⟩
    set k' := (((Kernel.setMem { k with freelist := rest } pg (Page.fill 5)).setFrame i
      (userFrame va p pg)).countResident p) with hk'
    have hframe : k'.frametable i = userFrame va p pg := update_self _ _ _
    have hother : ∀ j, j ≠ i → k'.frametable j = k.frametable j := fun j hj =>
      update_of_ne hj _ _
    have hproc : k'.proc = k.proc := rfl
    have hvictims := card_inPlay (i := i) hproc fun j hj => by
      rw [hother j hj]
      exact ⟨rfl, rfl⟩
    rw [if_neg fun hin : k.InPlay i => hin.1 hfree,
      if_congr (inPlay_userFrame hproc hframe) rfl rfl] at hvictims
    have hframes := card_free fun j hj => congrArg Frame.inUse (hother j hj)
    rw [if_pos hfree, if_neg (by rw [hframe]; simp [userFrame])] at hframes
    have hpages : k'.supply.pages + 1 = k.supply.pages := by
      change rest.length + 1 = k.freelist.length
      rw [hlist, length_cons]
    have hslots : k'.supply.slots = k.supply.slots := rfl
    unfold Supply.take
    rw [if_neg hshort]
    unfold own
    refine Supply.ext ?_ ?_ ?_ ?_ <;> dsimp only <;> omega

/-- Without a page to evict or a slot for it, `kalloc_user` panics. -/
theorem kallocUser_of_not_supply (hk : k.Growing p r) (hshort : k.supply.Short)
    (hnot : ¬(0 < k.supply.slots ∧ 0 < k.supply.victims)) (va : ℕ) (x : ℕ × Kernel σ) :
    k.kallocUser D va p ≠ .ok x := by
  have hstuck : k.NoEvictee ∨ k.Consistent ∧ k.SlotsFull := by
    rcases not_and_or.mp hnot with hslots | hvictims
    · refine .inr ⟨⟨hk.inv, hk.attached⟩, fun j hj => ?_⟩
      by_contra hfree
      exact hslots (slots_pos.mpr ⟨j, hj, by simpa using hfree⟩)
    · exact .inl fun i q hused hq hev => hvictims (victims_pos.mpr ⟨i, hused, q, hq, hev⟩)
  obtain ⟨msg, -, herror⟩ := Starved.kallocUser ⟨short_iff.mp hshort, hstuck⟩ D va p
  rw [herror]
  simp

/-! ## `uvmalloc` -/

/-- A page that could not be mapped is given back, and the pages before it are unmapped. -/
theorem undo_returns {a : ℕ} (D : SwapDev σ) (hk : k.Growing p r)
    (hI : k'.core.Inv ⟨some i, none, none⟩) (hsame : k.Same k') (hpa : (k'.frametable i).pa = pa)
    (hv : v ≤ USER_TOP) :
    ∃ k1 x, k'.kfreeUser pa = .ok k1 ∧ k1.uvmdealloc r (v * PGSIZE) (a * PGSIZE) = .ok x := by
  have hrest : k'.rest = k.rest := hsame
  have hquiet : ∀ msg, k'.rest.Quiet msg := fun msg => by
    rw [hrest]
    exact .inr hk.range
  have hused := hI.frames.cells.held_used i rfl
  have hmanaged : pa ∈ k'.managed := (hI.pages.managed pa).mpr ⟨.frame i, hused, hpa⟩
  obtain ⟨k1, hfree⟩ := Avoids.exists_ok fun msg =>
    kfreeUser_quiet (k := k') (hquiet msg) rfl hmanaged
  obtain ⟨hI1, -, hsame1, -⟩ := kfreeUser_spec (D := D) hI hpa hfree
  have hr : (k1.owner r).isSome := by
    rw [hsame1.owner, hsame.owner, hk.owner]
    rfl
  have hdealloc : ∀ msg, Avoids msg (k1.uvmdealloc r (v * PGSIZE) (a * PGSIZE)) := by
    intro msg
    have hquiet1 : k1.rest.Quiet msg := by
      rw [show k1.rest = k'.rest from hsame1]
      exact hquiet msg
    exact uvmdealloc_quiet D hquiet1 hI1 hr (by rw [pageCount_mul]; exact hv)
  obtain ⟨x, hx⟩ := Avoids.exists_ok hdealloc
  exact ⟨k1, x, hfree, hx⟩

/-- The supply and the tables after a page has been mapped. -/
theorem supply_of_walked (hw : k.Walked r v k') (hft : k'.frametable = k.frametable)
    (hst : k'.swaptable = k.swaptable) (hproc : k'.proc = k.proc) :
    k'.supply = { k.supply with pages := k.supply.pages - k.newTables r v v } := by
  refine Supply.ext ?_ ?_ ?_ ?_
  · unfold supply
    dsimp only
    rw [hft]
  · have hpages := hw.pages
    change k'.freelist.length = k.freelist.length - _
    omega
  · unfold supply
    dsimp only
    rw [hst]
  · unfold supply
    dsimp only
    refine congrArg Finset.card (Finset.filter_congr fun i _ => ?_)
    unfold InPlay Evictee
    rw [hft, hproc]

/-- The loop of `uvmalloc` returns exactly if the supply lasts. -/
theorem uvmallocLoop_returns_iff {a : ℕ} (perm : Flags) (hperm : perm.s = false)
    (hD : ∀ msg, D.Avoids msg) (n : ℕ) : ∀ {k : Kernel σ} {v : ℕ},
    k.Growing p r → v + n ≤ USER_TOP →
    (∀ v', v ≤ v' → v' < v + n → k.page D r v' = none) →
    ((∃ x, uvmallocLoop D p r (a * PGSIZE) perm n (v * PGSIZE) k = .ok x) ↔
      Supply.Lasts (k.own p) (k.newTables r v) n v k.supply) := by
  induction n with
  | zero =>
    intro k v _ _ _
    exact iff_of_true ⟨_, rfl⟩ trivial
  | succ n ih =>
    intro k v hk htop hempty
    rw [uvmallocLoop, Supply.Lasts]
    by_cases hsupply : k.supply.Short → 0 < k.supply.slots ∧ 0 < k.supply.victims
    swap
    · -- the next allocation panics
      obtain ⟨hshort, hnot⟩ := Classical.not_imp.mp hsupply
      refine iff_of_false ?_ fun hlasts => hsupply hlasts.1
      rintro ⟨x, hx⟩
      obtain ⟨y, halloc, -⟩ := bind_eq_ok.mp hx
      exact kallocUser_of_not_supply hk hshort hnot _ y halloc
    obtain ⟨pa, k1, halloc, hsupply1, hdir1, hdir0⟩ := kallocUser_supply hk hD hsupply (v * PGSIZE)
    obtain ⟨i, hal⟩ := kallocUser_spec hk.inv hk.attached halloc
    have hlt : v < USER_TOP := by omega
    have hr1 : (k1.owner r).isSome := by
      rw [hal.same.owner, hk.owner]
      rfl
    have hpa : (k1.frametable i).pa = pa := by
      rw [hal.frame]
      rfl
    have hleaf : k1.core.leaf r v = {} := by
      rw [← page_eq_none_iff (D := D) hal.inv hlt, hal.page]
      exact hempty v le_rfl (by omega)
    have htables : (k1.setMem pa 0).newTables r v v = k.newTables r v v := by
      change k1.newTables r v v = _
      unfold newTables
      rw [hdir1, hdir0]
    have hpages : (k1.setMem pa 0).freelist.length = (k.supply.take (k.own p)).pages := by
      rw [← hsupply1]
      rfl
    rw [bind_of_ok halloc]
    dsimp only
    rw [if_neg hal.pa_ne_zero]
    have hspec := fun {b k2} (hmap : (k1.setMem pa 0).mappages r _ PGSIZE pa perm = .ok (b, k2)) =>
      mapHeld_spec (D := D) (k := k1.setMem pa 0) hal.inv
        (by change k1.owner r = some p; rw [hal.same.owner, hk.owner]) (hal.same.framed hk.framed)
        (show k1.frametable i = _ from hal.frame)
        (by change (k1.core.leaf r v).flags.s = false; rw [hleaf]) hperm hmap
    rcases mappages_supply (k := k1.setMem pa 0) pa perm hal.inv.pages hr1 hlt
      (by change (k1.core.leaf r v).flags.v = false; rw [hleaf]) with
      ⟨k2, hmap, hwalked, hft, hst, hproc⟩ | ⟨k2, hmap, hshort⟩
    · -- the page is mapped
      rcases hspec hmap with ⟨-, -, -, hI2, hpage2, hsame2, -⟩ | ⟨hfalse, -⟩
      swap
      · cases hfalse
      have hsame : k.Same k2 := hal.same.trans hsame2
      have hk2 := hk.of_same hI2 hsame
      have hempty2 : ∀ v', v + 1 ≤ v' → v' < v + 1 + n → k2.page D r v' = none := by
        intro v' hle hlt'
        rw [hpage2, setAt, if_neg (by omega), page_setMem_held hal.inv hpa, hal.page]
        exact hempty v' (by omega) (by omega)
      have hnext := ih hk2 (by omega) hempty2
      have hown : k2.own p = k.own p := own_congr hsame.proc
      have hsupply2 : k2.supply = { k.supply.take (k.own p) with
          pages := (k.supply.take (k.own p)).pages - k.newTables r v v } := by
        rw [supply_of_walked hwalked hft hst hproc, htables, ← hsupply1]
        rfl
      have htables2 : ∀ w, v + 1 ≤ w → k2.newTables r (v + 1) w = k.newTables r v w := by
        intro w hw
        refine newTables_succ (fun i => ?_) (fun j => ?_) hw
        · rw [hwalked.dir1, ← hdir1]
          rfl
        · rw [hwalked.dir0, ← hdir0]
          rfl
      rw [hown, Supply.lasts_congr htables2, hsupply2] at hnext
      rw [bind_of_ok hmap]
      dsimp only
      rw [show v * PGSIZE + PGSIZE = (v + 1) * PGSIZE by rw [Nat.add_mul, Nat.one_mul], hnext]
      have hfits : k.newTables r v v ≤ (k.supply.take (k.own p)).pages := by
        have := hwalked.pages
        omega
      exact ⟨fun hlasts => ⟨hsupply, fun _ => hlasts⟩, fun hlasts => hlasts.2 hfits⟩
    · -- a page-table page is missing: `uvmalloc` fails
      rcases hspec hmap with ⟨hfalse, -⟩ | ⟨-, hI2, hgrown⟩
      · cases hfalse
      have hpa2 : (k2.frametable i).pa = pa := by
        rw [hgrown.frametable]
        exact hpa
      obtain ⟨k3, x, hfree, hdealloc⟩ := undo_returns (a := a) (v := v) D hk hI2
        (hal.same.trans hgrown.same) hpa2 (by omega)
      refine iff_of_true ?_ ⟨hsupply, fun hfits => by omega⟩
      rw [bind_of_ok hmap]
      dsimp only
      rw [bind_of_ok hfree, bind_of_ok hdealloc]
      exact ⟨_, rfl⟩

end Kernel

end Xv6.VM
