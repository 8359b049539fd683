import Xv6.VM.MapSpec

/-!
# Specifications of releasing an address space

`freewalk` gives the pages of a page table back one level at a time, `uvmfree` first frees the user
pages, and `proc_freepagetable` first unmaps the trampoline and the trapframe. After
`proc_freepagetable` the table is gone, and the pages of the other tables are as they were.
-/

namespace Xv6.VM.Kernel

open Fallible

variable {σ : Type} {D : SwapDev σ} {k k' k'' : Kernel σ} {f : Option (Fin NUM_FRAMES)}
  {s : Option ℕ} {p : ProcId} {r v : ℕ} {q : ℕ × ℕ}

/-! ## `freewalk` -/

/-- From `k` to `k'` at most pages of the table rooted at `r` have been freed, and with them the
entries that are not valid. -/
structure Shrunk (r : ℕ) (k k' : Kernel σ) : Prop where
  only : ∃ ptes freelist mem, k' = { k with ptes := ptes, freelist := freelist, mem := mem }
  leaf : ∀ r' v, k'.core.leaf r' v = k.core.leaf r' v ∨
    r' = r ∧ (k.core.leaf r' v).flags.v = false ∧ k'.core.leaf r' v = {}
  dirs : ∀ r', r' ≠ r → k'.core.dir1 r' = k.core.dir1 r' ∧ k'.core.dir0 r' = k.core.dir0 r'
  mem : ∀ pg, pg ∉ k'.freelist → k'.mem pg = k.mem pg
  freelist : ∀ pg ∈ k.freelist, pg ∈ k'.freelist

lemma Shrunk.refl (r : ℕ) (k : Kernel σ) : Shrunk r k k :=
  ⟨⟨_, _, _, rfl⟩, fun _ _ => .inl rfl, fun _ _ => ⟨rfl, rfl⟩, fun _ _ => rfl, fun _ h => h⟩

lemma Shrunk.trans (h : Shrunk r k k') (h' : Shrunk r k' k'') : Shrunk r k k'' where
  only := by
    obtain ⟨_, _, _, rfl⟩ := h.only
    obtain ⟨_, _, _, rfl⟩ := h'.only
    exact ⟨_, _, _, rfl⟩
  leaf r' v := by
    rcases h'.leaf r' v with heq' | ⟨hr, hv, hnone⟩
    · rw [heq']
      exact h.leaf r' v
    · rcases h.leaf r' v with heq | ⟨-, hv', -⟩
      · exact .inr ⟨hr, heq ▸ hv, hnone⟩
      · exact .inr ⟨hr, hv', hnone⟩
  dirs r' hr := ⟨(h'.dirs r' hr).1.trans (h.dirs r' hr).1, (h'.dirs r' hr).2.trans (h.dirs r' hr).2⟩
  mem pg hpg := (h'.mem pg hpg).trans (h.mem pg fun hmem => hpg (h'.freelist pg hmem))
  freelist pg hpg := h'.freelist pg (h.freelist pg hpg)

lemma Shrunk.owner (h : Shrunk r k k') : k'.owner = k.owner := by
  obtain ⟨_, _, _, rfl⟩ := h.only
  rfl

/-- If no page of the table is swapped out, the entries that are gone were empty. -/
theorem Shrunk.leaf_eq {h : Held} (hsh : Shrunk r k k') (hI : k.core.Inv h)
    (hswap : ∀ v, (k.core.leaf r v).flags.s = false) : k'.core.leaf = k.core.leaf := by
  funext r' v
  rcases hsh.leaf r' v with heq | ⟨rfl, hv, hnone⟩
  · exact heq
  · rw [hnone, hI.shape r' v hv (hswap v)]

lemma Shrunk.same (hsh : Shrunk r k k') (hleaf : k'.core.leaf = k.core.leaf) : k.Same k' := by
  obtain ⟨_, _, _, rfl⟩ := hsh.only
  exact .mk rfl rfl (fun r' v _ => by rw [hleaf]) rfl rfl rfl rfl rfl

lemma Shrunk.inv {held held' : Option ℕ} (hsh : Shrunk r k k') (hI : k.core.Inv ⟨f, s, held⟩)
    (hP : k'.core.PagesOk held') (hleaf : k'.core.leaf = k.core.leaf) :
    k'.core.Inv ⟨f, s, held'⟩ := by
  obtain ⟨_, _, _, rfl⟩ := hsh.only
  exact hI.of_tables hP rfl rfl hleaf fun _ _ _ => rfl

lemma Shrunk.page {h : Held} (hsh : Shrunk r k k') (hI : k'.core.Inv h)
    (hleaf : k'.core.leaf = k.core.leaf) : k'.page D = k.page D := by
  have hdev : k'.dev = k.dev := by
    obtain ⟨_, _, _, rfl⟩ := hsh.only
    rfl
  funext r' v
  refine page_congr Iff.rfl (by rw [hleaf]; exact ⟨rfl, rfl, rfl, fun _ => rfl⟩)
    (fun hlt hv => hsh.mem _ fun hmem => ?_) fun _ _ _ => by rw [hdev]
  rw [← hleaf] at hmem hv
  exact hI.num_ne (u := .free) hmem (by simp) hlt hv rfl

/-- A page-table page is freed and the entry that points at it is cleared. -/
theorem Shrunk.of_free {pg : ℕ} (hP : (k.core.setPte q {}).PagesOk (some pg))
    (hleaf : ∀ r' v, (k.core.setPte q {}).leaf r' v = k.core.leaf r' v ∨
      r' = r ∧ (k.core.leaf r' v).flags.v = false ∧ (k.core.setPte q {}).leaf r' v = {})
    (hdirs : ∀ r', r' ≠ r → (k.core.setPte q {}).dir1 r' = k.core.dir1 r' ∧
      (k.core.setPte q {}).dir0 r' = k.core.dir0 r') (hrun : k.kfree pg = .ok k') :
    (k'.setPte q {}).core.PagesOk none ∧ Shrunk r k (k'.setPte q {}) := by
  rw [kfree_ok hrun]
  refine ⟨hP.kfree, ⟨_, _, _, rfl⟩, hleaf, hdirs, fun pg' hpg' => ?_, fun _ h => .tail _ h⟩
  refine Function.update_of_ne ?_ _ _
  rintro rfl
  exact hpg' (.head _)

/-- The body of the loop of `freewalk`. -/
def freewalkEntry (depth pagetable : ℕ) (k : Kernel σ) (i : ℕ) : Except String (Kernel σ) :=
  let pte := k.ptes pagetable i
  if pte.flags.v = true ∧ pte.flags.r = false ∧ pte.flags.w = false ∧ pte.flags.x = false then do
    let k ← freewalk depth k pte.num
    pure (k.setPte (pagetable, i) {})
  else if pte.flags.v then .error "freewalk: leaf"
  else pure k

lemma freewalk_succ (depth pagetable : ℕ) (k : Kernel σ) : freewalk (depth + 1) k pagetable =
    ((List.range 512).foldlM (freewalkEntry depth pagetable) k >>= fun k => k.kfree pagetable) :=
  rfl

/-- What the loop does with an entry. -/
theorem freewalkEntry_ok {depth pg i : ℕ} (hrun : freewalkEntry depth pg k i = .ok k') :
    ((k.ptes pg i).flags.v = false ∧ k' = k) ∨ ((k.ptes pg i).flags.v = true ∧
      ∃ k1, freewalk depth k (k.ptes pg i).num = .ok k1 ∧ k' = k1.setPte (pg, i) {}) := by
  unfold freewalkEntry at hrun
  dsimp only at hrun
  split_ifs at hrun with hdir hv
  · obtain ⟨k1, hfree, heq⟩ := bind_eq_ok.mp hrun
    cases heq
    exact .inr ⟨hdir.1, k1, hfree, rfl⟩
  · cases hrun
    exact .inl ⟨(Bool.not_eq_true _).mp hv, rfl⟩

/-- `freewalk` of a level-0 page checks that it has no valid entry, and frees it. -/
theorem freewalk_one {pg : ℕ} (hrun : freewalk 1 k pg = .ok k') :
    (∀ b < 512, (k.ptes pg b).flags.v = false) ∧ k.kfree pg = .ok k' := by
  rw [freewalk_succ] at hrun
  obtain ⟨k1, hloop, hrun⟩ := bind_eq_ok.mp hrun
  have hinv := foldlM_range_invariant (I := fun i s => s = k ∧
    ∀ b < i, (k.ptes pg b).flags.v = false) 512 ?_ k k1 ⟨rfl, by simp⟩ hloop
  · obtain ⟨hk, hnone⟩ := hinv
    rw [hk] at hrun
    exact ⟨hnone, hrun⟩
  · rintro i s s' - ⟨rfl, hnone⟩ hbody
    rcases freewalkEntry_ok hbody with ⟨hv, rfl⟩ | ⟨-, k2, hdeep, -⟩
    · refine ⟨rfl, fun b hb => ?_⟩
      rcases Nat.lt_succ_iff_lt_or_eq.mp hb with hb | rfl
      · exact hnone b hb
      · exact hv
    · cases hdeep

/-- The loop of `freewalk` over the level-1 page `l1`: the level-0 pages of the entries below `b`
are gone. -/
structure Level1Loop (k : Kernel σ) (r l1 b : ℕ) (t : Kernel σ) : Prop where
  pages : t.core.PagesOk none
  shrunk : Shrunk r k t
  dir1 : t.core.dir1 = k.core.dir1
  child : ∀ b' < b, t.core.child l1 b' = none

lemma Level1Loop.init (hP : k.core.PagesOk none) (r l1 : ℕ) : Level1Loop k r l1 0 k :=
  ⟨hP, .refl r k, rfl, by simp⟩

/-- The level-0 page behind a valid entry of a level-1 page. -/
theorem Level1Loop.dir0 {i l1 b : ℕ} {t : Kernel σ} (ht : Level1Loop k r l1 b t) (hb : b < 512)
    (hl : k.core.dir1 r i = some l1) (hv : (t.ptes l1 b).flags.v = true) :
    t.core.dir0 r (i * 512 + b) = some (t.ptes l1 b).num := by
  have hdiv : (i * 512 + b) / 512 = i := by omega
  have hmod : (i * 512 + b) % 512 = b := by omega
  unfold Core.dir0
  rw [hdiv, ht.dir1, hl, hmod]
  exact if_pos hv

lemma Level1Loop.step {i l1 b : ℕ} {t t' : Kernel σ} (ht : Level1Loop k r l1 b t)
    (hb : b < 512) (hl : k.core.dir1 r i = some l1) (hbody : freewalkEntry 1 l1 t b = .ok t') :
    Level1Loop k r l1 (b + 1) t' := by
  obtain ⟨hPt, hsh, hdir1, hchild⟩ := id ht
  rcases freewalkEntry_ok hbody with ⟨hv, rfl⟩ | ⟨hv, t1, hfree, rfl⟩
  · refine ⟨hPt, hsh, hdir1, fun b' hb' => ?_⟩
    rcases Nat.lt_succ_iff_lt_or_eq.mp hb' with hb' | rfl
    · exact hchild b' hb'
    · exact if_neg (by simp [core, hv])
  · obtain ⟨hnone, hkfree⟩ := freewalk_one hfree
    have hpg := ht.dir0 hb hl hv
    have hl' : t.core.dir1 r ((i * 512 + b) / 512) = some l1 := by
      rw [hdir1, show (i * 512 + b) / 512 = i by omega, hl]
    have hmod : (i * 512 + b) % 512 = b := by omega
    obtain ⟨hP2, hleaf2⟩ := hPt.exchangeDir0 (e := {}) hl' (by simp [Pte.IsPointer]) rfl (by simp)
    have hdir1' := hPt.dir1_setLevel1 (e := {}) hl'
    have hdir0' := hPt.dir0_setLevel1 (e := {}) hl'
    rw [hpg] at hP2
    rw [hmod] at hP2 hleaf2 hdir1' hdir0'
    -- `freewalk` itself excludes that the level-0 page has a valid entry
    have hleaf3 : ∀ r' v, (t.core.setPte (l1, b) {}).leaf r' v = t.core.leaf r' v ∨
        r' = r ∧ (t.core.leaf r' v).flags.v = false ∧
          (t.core.setPte (l1, b) {}).leaf r' v = {} := by
      intro r' v
      rw [hleaf2]
      split_ifs with hrv
      · obtain ⟨rfl, hv⟩ := hrv
        have href : t.core.leafRef r' v = some ((t.ptes l1 b).num, v % 512) :=
          Core.leafRef_eq_some.mpr ⟨by rw [hv, hpg], rfl⟩
        rw [Core.leaf_eq_of_ref href]
        exact .inr ⟨rfl, hnone _ (Nat.mod_lt _ (by decide)), rfl⟩
      · exact .inl rfl
    obtain ⟨hP3, hsh3⟩ := Shrunk.of_free (r := r) hP2 hleaf3
      (fun r' hr => ⟨by rw [hdir1'], funext fun j' => by rw [hdir0', if_neg fun hc => hr hc.1]⟩)
      hkfree
    refine ⟨hP3, hsh.trans hsh3, ?_, fun b' hb' => ?_⟩
    · rw [← hdir1, ← hdir1', kfree_ok hkfree]
      rfl
    · have hchild' : (t1.setPte (l1, b) {}).core.child l1 b' =
          (t.core.setPte (l1, b) {}).child l1 b' := by
        rw [kfree_ok hkfree]
        rfl
      rw [hchild', Core.child_setPte]
      by_cases hbb : b' = b
      · rw [if_pos (by rw [hbb])]
        rfl
      · rw [if_neg (by simpa using hbb)]
        exact hchild b' (by omega)

lemma freewalk_two {i l1 : ℕ} (hP : k.core.PagesOk none) (hl : k.core.dir1 r i = some l1)
    (hrun : freewalk 2 k l1 = .ok k') :
    ∃ k1, k1.core.PagesOk none ∧ Shrunk r k k1 ∧ k1.core.dir1 = k.core.dir1 ∧
      (∀ j, j / 512 = i → k1.core.dir0 r j = none) ∧ k1.kfree l1 = .ok k' := by
  rw [freewalk_succ] at hrun
  obtain ⟨k1, hloop, hrun⟩ := bind_eq_ok.mp hrun
  have hinv := foldlM_range_invariant (I := Level1Loop k r l1) 512
    (fun b t t' hb ht => ht.step hb hl) k k1 (.init hP r l1) hloop
  refine ⟨k1, hinv.pages, hinv.shrunk, hinv.dir1, fun j hj => ?_, hrun⟩
  unfold Core.dir0
  rw [hinv.dir1, hj, hl]
  exact hinv.child _ (Nat.mod_lt _ (by decide))

/-- The loop of `freewalk` over the root `r`: the tables of the entries below `b` are gone. -/
structure RootLoop (k : Kernel σ) (r b : ℕ) (t : Kernel σ) : Prop where
  pages : t.core.PagesOk none
  shrunk : Shrunk r k t
  dir1 : ∀ b' < b, t.core.dir1 r b' = none

lemma RootLoop.init (hP : k.core.PagesOk none) (r : ℕ) : RootLoop k r 0 k :=
  ⟨hP, .refl r k, by simp⟩

lemma RootLoop.owner {b : ℕ} {t : Kernel σ} (ht : RootLoop k r b t)
    (hr : (k.owner r).isSome) : (t.core.owner r).isSome := by
  change (t.owner r).isSome
  rw [ht.shrunk.owner]
  exact hr

lemma RootLoop.step {b : ℕ} {t t' : Kernel σ} (ht : RootLoop k r b t) (hb : b < 512)
    (hr : (k.owner r).isSome) (hbody : freewalkEntry 2 r t b = .ok t') :
    RootLoop k r (b + 1) t' := by
  have hrt := ht.owner hr
  obtain ⟨hPt, hsh, hdir1⟩ := ht
  have hd : t.core.dir1 r b = t.core.child r b := if_pos ⟨hrt, hb⟩
  rcases freewalkEntry_ok hbody with ⟨hv, rfl⟩ | ⟨hv, t1, hfree, rfl⟩
  · refine ⟨hPt, hsh, fun b' hb' => ?_⟩
    rcases Nat.lt_succ_iff_lt_or_eq.mp hb' with hb' | rfl
    · exact hdir1 b' hb'
    · exact hd.trans (if_neg (by simp [core, hv]))
  · have hl : t.core.dir1 r b = some (t.ptes r b).num := hd.trans (if_pos hv)
    obtain ⟨t0, hP0, hsh0, hdir0, hempty, hkfree⟩ := freewalk_two hPt hl hfree
    have hr0 : (t0.core.owner r).isSome := by
      change (t0.owner r).isSome
      rw [hsh0.owner]
      exact hrt
    obtain ⟨hP2, hdir, hleaf2⟩ :=
      hP0.exchangeDir1 (e := {}) hr0 hb hempty (by simp [Pte.IsPointer]) rfl (by simp)
    rw [hdir0, hl] at hP2
    have hroot := Core.dir1_setRoot (e := {}) hr0 hb
    obtain ⟨hP3, hsh3⟩ := Shrunk.of_free (r := r) hP2 (fun r' v => .inl (by rw [hleaf2]))
      (fun r' hne => ⟨funext fun i => by rw [hroot, if_neg fun hc => hne hc.1], by rw [hdir]⟩)
      hkfree
    refine ⟨hP3, (hsh.trans hsh0).trans hsh3, fun b' hb' => ?_⟩
    have hdir' : (t1.setPte (r, b) {}).core.dir1 r b' = (t0.core.setPte (r, b) {}).dir1 r b' := by
      rw [kfree_ok hkfree]
      rfl
    rw [hdir', hroot]
    by_cases hbb : b' = b
    · rw [if_pos ⟨rfl, hbb⟩]
      rfl
    · rw [if_neg (by simpa using hbb), hdir0]
      exact hdir1 b' (by omega)

lemma freewalk_three (hP : k.core.PagesOk none) (hr : (k.owner r).isSome)
    (hrun : freewalk 3 k r = .ok k') :
    ∃ k1, k1.core.PagesOk none ∧ Shrunk r k k1 ∧ (∀ i, k1.core.dir1 r i = none) ∧
      k1.kfree r = .ok k' := by
  rw [freewalk_succ] at hrun
  obtain ⟨k1, hloop, hrun⟩ := bind_eq_ok.mp hrun
  have hinv := foldlM_range_invariant (I := RootLoop k r) 512
    (fun b t t' hb ht => ht.step hb hr) k k1 (.init hP r) hloop
  refine ⟨k1, hinv.pages, hinv.shrunk, fun i => ?_, hrun⟩
  by_cases hi : i < 512
  · exact hinv.dir1 i hi
  · exact if_neg fun hc => hi hc.2

/-! ## `uvmfree` and `proc_freepagetable` -/

lemma trapframe_eq : TRAPFRAME = USER_TOP * PGSIZE := by decide

lemma trampoline_eq : TRAMPOLINE = (USER_TOP + 1) * PGSIZE := by decide

/-- What a function of tables and pages says when a table is gone. -/
def dropTable {α : Type*} (g : ℕ → ℕ → α) (r : ℕ) (x : α) : ℕ → ℕ → α := fun r' v =>
  if r' = r then x else g r' v

/-- The rest of the state when a table is gone. -/
def Rest.drop (rest : Rest) (r : ℕ) : Rest :=
  { rest with
    owner := Function.update rest.owner r none
    upper := dropTable rest.upper r (false, false) }

/-- Unmapping the trampoline or the trapframe. -/
theorem unmapUpper_spec {h : Held} (hI : k.core.Inv h) (hr : (k.owner r).isSome)
    (htop : USER_TOP ≤ v) (hrun : k.uvmunmap r (v * PGSIZE) 1 false = .ok k') :
    k'.core.Inv h ∧ k'.page D = k.page D ∧
      k'.rest = { k.rest with upper := setAt k.rest.upper r v (false, false) } ∧
      k'.core.leaf = setAt k.core.leaf r v {} := by
  unfold uvmunmap at hrun
  rw [if_neg (by simp)] at hrun
  obtain ⟨k1, hpage, hrun⟩ := bind_eq_ok.mp hrun
  cases hrun
  rcases unmapPage_cases hr hpage with ⟨hv, hs, rfl⟩ | ⟨q, href, -, ⟨-, rfl⟩ | ⟨hfree, -⟩⟩
  · have hleaf := hI.shape r v hv hs
    refine ⟨hI, rfl, ?_, (setAt_eq_self hleaf).symm⟩
    rw [setAt_eq_self (by simp [rest, hleaf, upperBits])]
  · have hleaf : (k.setPte q {}).core.leaf = setAt k.core.leaf r v {} :=
      hI.pages.leaf_setPte href
    refine ⟨hI.setUpper href htop rfl fun _ => rfl, ?_, ?_, hleaf⟩
    · rw [page_setPte hI href, entryPage_empty, setAt_eq_self (page_of_top htop)]
    · unfold rest
      rw [hleaf]
      congr 1
      funext r' v'
      unfold setAt
      by_cases hrv : r' = r ∧ v' = v <;> simp [hrv, upperBits]
  · cases hfree

/-- The first part of `uvmfree` unmaps the user pages. -/
theorem unmapUser_spec {sz : ℕ} (hI : k.core.Inv {}) (hr : (k.owner r).isSome)
    (hsz : pgroundup sz / PGSIZE ≤ USER_TOP)
    (hrun : (if 0 < sz then k.uvmunmap r 0 (pgroundup sz / PGSIZE) true else pure k) = .ok k') :
    k'.core.Inv {} ∧
      k'.page D = setRange (k.page D) r 0 (pgroundup sz / PGSIZE) none ∧ k.Same k' ∧
      k'.core.leaf = setRange k.core.leaf r 0 (pgroundup sz / PGSIZE) {} := by
  split_ifs at hrun with hpos
  · have h0 : (0 : ℕ) = 0 * PGSIZE := by simp
    rw [h0] at hrun
    obtain ⟨hI1, hpage, hsame, -, hleaf⟩ := uvmunmap_spec (D := D) hI hr (by omega) hrun
    exact ⟨hI1, hpage, hsame, hleaf⟩
  · cases hrun
    have hzero : pgroundup sz / PGSIZE = 0 := by
      have : sz = 0 := by omega
      subst this
      decide
    rw [hzero, setRange_zero, setRange_zero]
    exact ⟨hI, rfl, .refl _, rfl⟩

/-- `uvmfree` releases a table whose pages all lie below `sz`. -/
theorem uvmfree_spec {sz : ℕ} (hI : k.core.Inv {}) (hr : (k.owner r).isSome)
    (hsz : pgroundup sz / PGSIZE ≤ USER_TOP)
    (hswap : ∀ v, (k.core.leaf r v).flags.s = true → v < pgroundup sz / PGSIZE)
    (hrun : k.uvmfree r sz = .ok k') :
    k'.core.Inv {} ∧ k'.page D = dropTable (k.page D) r none ∧
      k'.rest = k.rest.drop r := by
  unfold uvmfree at hrun
  obtain ⟨k1, hunmap, hrun⟩ := bind_eq_ok.mp hrun
  obtain ⟨k2, hfree, hrun⟩ := bind_eq_ok.mp hrun
  cases hrun
  obtain ⟨hI1, hpage1, hsame1, hleaf1⟩ := unmapUser_spec (D := D) hI hr hsz hunmap
  have hr1 : (k1.owner r).isSome := by rw [hsame1.owner]; exact hr
  have hswap1 : ∀ v, (k1.core.leaf r v).flags.s = false := by
    intro v
    rw [hleaf1]
    unfold setRange
    split_ifs with hv
    · rfl
    · by_contra hs
      have := hswap v (by simpa using hs)
      exact hv ⟨rfl, by omega, by omega⟩
  obtain ⟨k3, hP3, hsh, hdir1, hkfree⟩ := freewalk_three hI1.pages hr1 hfree
  have hleaf3 := hsh.leaf_eq hI1 hswap1
  have hI3 := hsh.inv hI1 hP3 hleaf3
  have hr3 : (k3.core.owner r).isSome := by
    change (k3.owner r).isSome
    rw [hsh.owner]
    exact hr1
  obtain ⟨hP4, hleaf4⟩ := hP3.freeRoot hr3 hdir1
  have hI4 := hI3.of_setOwner hdir1 hP4 hleaf4
  have hnone : ∀ v, k1.core.leaf r v = {} := fun v => by
    rw [← hleaf3]
    exact Core.leaf_of_dir1_none hdir1 v
  have heq : k2.setOwner r none =
      Kernel.setMem { k3.setOwner r none with freelist := r :: k3.freelist } r (Page.fill 1) := by
    rw [kfree_ok hkfree]
    rfl
  have hpage : (k2.setOwner r none).page D = k1.page D := by
    rw [heq, page_setMem (k := { k3.setOwner r none with freelist := r :: k3.freelist })
      fun r' v hlt hv => hI4.num_ne (u := .held) rfl (by simp) hlt hv, ← hsh.page hI3 hleaf3]
    exact page_of_leaf_eq hleaf4 rfl rfl
  refine ⟨by rw [heq]; exact hI4.kfree, ?_, ?_⟩
  · rw [hpage]
    funext r' v
    unfold dropTable
    split_ifs with hrr
    · rw [hrr, page_of_empty (hnone v)]
    · rw [hpage1, setRange, if_neg fun hc => hrr hc.1]
  · have hupper : (k2.setOwner r none).rest.upper = dropTable k3.rest.upper r (false, false) := by
      funext r' v
      change (if USER_TOP ≤ v then upperBits ((k2.setOwner r none).core.leaf r' v)
        else (false, false)) = _
      have hleaf : (k2.setOwner r none).core.leaf = k3.core.leaf := by
        rw [heq]
        exact hleaf4
      rw [hleaf]
      unfold dropTable
      by_cases hrr : r' = r
      · rw [if_pos hrr, hrr, Core.leaf_of_dir1_none hdir1]
        simp [upperBits]
      · rw [if_neg hrr]
        rfl
    rw [← show k3.rest = k.rest from hsame1.trans (hsh.same hleaf3), Rest.drop, ← hupper, heq]
    rfl

lemma procFreepagetable_spec {sz : ℕ} (hI : k.core.Inv {})
    (hr : (k.owner r).isSome) (hsz : pgroundup sz / PGSIZE ≤ USER_TOP)
    (hswap : ∀ v, (k.core.leaf r v).flags.s = true → v < pgroundup sz / PGSIZE)
    (hrun : k.procFreepagetable r sz = .ok k') :
    k'.core.Inv {} ∧ k'.page D = dropTable (k.page D) r none ∧
      k'.rest = k.rest.drop r := by
  unfold procFreepagetable at hrun
  obtain ⟨k1, htramp, hrun⟩ := bind_eq_ok.mp hrun
  obtain ⟨k2, htrap, hrun⟩ := bind_eq_ok.mp hrun
  rw [trampoline_eq] at htramp
  rw [trapframe_eq] at htrap
  obtain ⟨hI1, hpage1, hrest1, hleaf1⟩ := unmapUpper_spec (D := D) hI hr (by omega) htramp
  have howner1 : k1.owner = k.owner := congrArg Rest.owner hrest1
  obtain ⟨hI2, hpage2, hrest2, hleaf2⟩ :=
    unmapUpper_spec (D := D) hI1 (by rw [howner1]; exact hr) le_rfl htrap
  have howner2 : k2.owner = k.owner := (congrArg Rest.owner hrest2).trans howner1
  have hswap2 : ∀ v, (k2.core.leaf r v).flags.s = true → v < pgroundup sz / PGSIZE := by
    intro v hs
    refine hswap v ?_
    rw [hleaf2, hleaf1] at hs
    unfold setAt at hs
    split_ifs at hs
    exact hs
  obtain ⟨hI3, hpage3, hrest3⟩ :=
    uvmfree_spec (D := D) hI2 (by rw [howner2]; exact hr) hsz hswap2 hrun
  refine ⟨hI3, by rw [hpage3, hpage2, hpage1], ?_⟩
  rw [hrest3, hrest2, hrest1]
  unfold Rest.drop
  congr 1
  funext r' v
  unfold dropTable setAt
  by_cases hrr : r' = r <;> simp [hrr]

end Xv6.VM.Kernel
