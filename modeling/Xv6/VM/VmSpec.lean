import Xv6.VM.FreeSpec

/-!
# Specifications of the address-space functions

What `uvmdealloc`, `uvmalloc`, `vmfault` and `copyout` do to the abstract pages. Every allocation
in them may evict a page of any process, but by `Kernel.kallocUser_spec` that changes no abstract
page, so the specifications read as on a machine that never evicts.
-/

namespace Xv6.VM

open Fallible

lemma pgroundup_eq (sz : ℕ) : pgroundup sz = pageCount sz * PGSIZE := rfl

@[simp]
lemma pgroundup_div (sz : ℕ) : pgroundup sz / PGSIZE = pageCount sz :=
  Nat.mul_div_cancel _ (by decide)

@[simp]
lemma pageCount_mul (v : ℕ) : pageCount (v * PGSIZE) = v := by
  change (v * 4096 + 4096 - 1) / 4096 = v
  omega

lemma lt_pageCount {v sz : ℕ} : v < pageCount sz ↔ v * PGSIZE < sz := by
  change v < (sz + 4096 - 1) / 4096 ↔ v * 4096 < sz
  omega

lemma pageCount_le_top {sz : ℕ} (hsz : sz ≤ TRAPFRAME) : pageCount sz ≤ USER_TOP := by
  rw [Kernel.trapframe_eq] at hsz
  change (sz + 4096 - 1) / 4096 ≤ USER_TOP
  change sz ≤ USER_TOP * 4096 at hsz
  omega

lemma pageCount_mono {a b : ℕ} (h : a ≤ b) : pageCount a ≤ pageCount b :=
  Nat.div_le_div_right (by omega)

lemma pagesFrom_eq (oldsz newsz : ℕ) :
    Kernel.pagesFrom (pgroundup oldsz) newsz = pageCount newsz - pageCount oldsz := by
  change (newsz - (oldsz + 4096 - 1) / 4096 * 4096 + 4096 - 1) / 4096 =
    (newsz + 4096 - 1) / 4096 - (oldsz + 4096 - 1) / 4096
  omega

namespace Kernel

variable {σ : Type} {D : SwapDev σ} {k k' k'' : Kernel σ} {h : Held} {i : Fin NUM_FRAMES}
  {p : ProcId} {r v va pa n : ℕ} {q : ℕ × ℕ} {perm : Flags}

lemma page_eq_none_iff (hI : k.core.Inv h) (hlt : v < USER_TOP) :
    k.page D r v = none ↔ k.core.leaf r v = {} := by
  constructor
  · intro hnone
    refine hI.shape r v ?_ ?_
    · by_contra hv
      rw [page_of_valid hlt (by simpa using hv)] at hnone
      cases hnone
    · by_contra hs
      have hs' : (k.core.leaf r v).flags.s = true := by simpa using hs
      have hv := (hI.slots.swapped (r, v) _ ⟨hs', rfl⟩).1
      rw [page_of_swapped hlt hv hs'] at hnone
      cases hnone
  · exact page_of_empty

/-! ## `uvmdealloc` -/

lemma uvmdealloc_spec {oldsz newsz sz : ℕ} (hI : k.core.Inv {})
    (hr : (k.owner r).isSome) (hle : pageCount oldsz ≤ USER_TOP)
    (hrun : k.uvmdealloc r oldsz newsz = .ok (sz, k')) :
    sz = min oldsz newsz ∧ k'.core.Inv {} ∧ k.Same k' ∧
      k'.page D = setRange (k.page D) r (pageCount sz) (pageCount oldsz - pageCount sz) none := by
  unfold uvmdealloc at hrun
  split_ifs at hrun with hge hlt
  · cases hrun
    refine ⟨(min_eq_left hge).symm, hI, .refl _, ?_⟩
    rw [Nat.sub_self, setRange_zero]
  · obtain ⟨k1, hunmap, hrun⟩ := bind_eq_ok.mp hrun
    cases hrun
    have hcount : (pgroundup oldsz - pgroundup newsz) / PGSIZE =
        pageCount oldsz - pageCount newsz := by
      rw [pgroundup_eq, pgroundup_eq, ← Nat.sub_mul, mul_pgsize_div]
    rw [hcount, pgroundup_eq] at hunmap
    rw [pgroundup_eq, pgroundup_eq] at hlt
    have hlt' : pageCount newsz < pageCount oldsz := Nat.lt_of_mul_lt_mul_right hlt
    obtain ⟨hI1, hpage, hsame, -⟩ := uvmunmap_spec (D := D) hI hr (by omega) hunmap
    exact ⟨(min_eq_right (by omega)).symm, hI1, hsame, hpage⟩
  · cases hrun
    rw [pgroundup_eq, pgroundup_eq] at hlt
    have hle' : pageCount oldsz ≤ pageCount newsz := by
      by_contra hc
      exact hlt ((Nat.mul_lt_mul_right (by decide)).mpr (by omega))
    refine ⟨(min_eq_right (by omega)).symm, hI, .refl _, ?_⟩
    rw [Nat.sub_eq_zero_of_le hle', setRange_zero]

/-! ## `uvmalloc` -/

lemma Allocated.pa_ne_zero (h : Allocated D k va p pa k' i) : pa ≠ 0 := by
  have := Kernel.pa_ne_zero (i := i) h.inv (h.inv.frames.cells.held_used i rfl)
  rwa [h.frame] at this

/-- Filling the held frame changes no abstract page. -/
theorem page_setMem_held (hI : k.core.Inv ⟨some i, none, none⟩) (hpa : (k.frametable i).pa = pa)
    (pg : Page) : (k.setMem pa pg).page D = k.page D := by
  rw [← hpa]
  exact page_setMem fun r v hlt hv => hI.num_ne_frame hlt hv

lemma setRange_setRange_of_none {α : Type*} {g : ℕ → ℕ → Option α} {x : Option α} {r a v : ℕ}
    (hav : a ≤ v) (hnone : g r v = none) :
    setRange (setAt g r v x) r a (v + 1 - a) none = setRange g r a (v - a) none := by
  funext r' v'
  unfold setRange setAt
  by_cases hr : r' = r
  · subst hr
    by_cases hv : v' = v
    · subst hv
      rw [if_pos ⟨rfl, hav, by omega⟩]
      split_ifs
      · rfl
      · exact hnone.symm
    · by_cases hin : a ≤ v' ∧ v' < a + (v - a)
      · rw [if_pos ⟨rfl, hin.1, by omega⟩, if_pos ⟨rfl, hin⟩]
      · rw [if_neg (by rintro ⟨-, h1, h2⟩; exact hin ⟨h1, by omega⟩),
          if_neg (fun hc => hv hc.2), if_neg (fun hc => hin hc.2)]
  · simp [hr]

/-- No page of the table rooted at `r` is swapped out. -/
def Resident (k : Kernel σ) (r : ℕ) : Prop := ∀ v, (k.core.leaf r v).flags.s = false

/-- The table rooted at `r` is that of no process, so none of its pages is evicted. -/
def Unattached (k : Kernel σ) (r : ℕ) : Prop := ∀ p, (k.proc p).pagetable ≠ r

lemma Same.unattached (h : k.Same k') (hun : k.Unattached r) : k'.Unattached r := by
  unfold Unattached
  rw [h.proc]
  exact hun

/-- The loop of `uvmalloc`, at page `v` of the pages from `a` on. -/
theorem uvmallocLoop_spec {a : ℕ} (hperm : perm.s = false) (n : ℕ) :
    ∀ {k k' : Kernel σ} {v : ℕ} {b : Bool}, k.core.Inv {} → k.Attached →
    k.owner r = some p → k.Framed r → a ≤ v → v ≤ USER_TOP →
    (∀ v', v ≤ v' → v' < v + n → k.page D r v' = none) →
    uvmallocLoop D p r (a * PGSIZE) perm n (v * PGSIZE) k = .ok (b, k') →
    k'.core.Inv {} ∧ k.Same k' ∧
      ((b = true ∧ v + n ≤ USER_TOP ∧
        k'.page D = setRange (k.page D) r v n (some (.zeros perm)) ∧
        (k.Unattached r → k.Resident r → k'.Resident r)) ∨
        (b = false ∧ k'.page D = setRange (k.page D) r a (v - a) none)) := by
  induction n with
  | zero =>
    intro k k' v b hI ha howner hframed hav htop hempty hrun
    cases hrun
    exact ⟨hI, .refl _, .inl ⟨rfl, htop, by rw [setRange_zero], fun _ hres => hres⟩⟩
  | succ n ih =>
    intro k k' v b hI ha howner hframed hav htop hempty hrun
    unfold uvmallocLoop at hrun
    obtain ⟨⟨mem, k1⟩, halloc, hrun⟩ := bind_eq_ok.mp hrun
    obtain ⟨i, hal⟩ := kallocUser_spec hI ha halloc
    dsimp only at hrun
    rw [if_neg hal.pa_ne_zero] at hrun
    obtain ⟨⟨mapped, k2⟩, hmap, hrun⟩ := bind_eq_ok.mp hrun
    have hpa : (k1.frametable i).pa = mem := by rw [hal.frame]; rfl
    have hpage1 : (k1.setMem mem 0).page D = k.page D :=
      (page_setMem_held hal.inv hpa 0).trans hal.page
    have hsame1 : k.Same (k1.setMem mem 0) := hal.same
    have hnone : k.page D r v = none := hempty v le_rfl (by omega)
    have hswap : ((k1.setMem mem 0).core.leaf r v).flags.s = false := by
      by_contra hs
      have hs' : ((k1.setMem mem 0).core.leaf r v).flags.s = true := by simpa using hs
      obtain ⟨-, hlt, -⟩ := hal.inv.slots.swapped (r, v) _ ⟨hs', rfl⟩
      rw [← hpage1, page_eq_none_iff (k := k1.setMem mem 0) hal.inv hlt] at hnone
      rw [hnone] at hs'
      cases hs'
    have hmapped := mapHeld_spec (D := D) (k := k1.setMem mem 0) hal.inv
      (by rw [hsame1.owner, howner]) (hsame1.framed hframed) hal.frame hswap hperm hmap
    rcases hmapped with ⟨rfl, hlt, -, hI2, hpage2, hsame2, hleaf2⟩ | ⟨rfl, hI2, hgrown⟩
    · -- the page is mapped: go on with the next one
      have hsame := hsame1.trans hsame2
      have hzero : (k1.setMem mem 0).mem mem = 0 := Function.update_self _ _ _
      rw [hpage1, hzero, SwapDev.seen_zero] at hpage2
      rw [← Nat.succ_mul] at hrun
      have hempty2 : ∀ v', v + 1 ≤ v' → v' < v + 1 + n → k2.page D r v' = none := by
        intro v' h1 h2
        rw [hpage2, setAt, if_neg (by omega)]
        exact hempty v' (by omega) (by omega)
      obtain ⟨hI3, hsame3, hres⟩ := ih hI2 (hsame.attached ha) (by rw [hsame.owner, howner])
        (hsame.framed hframed) (by omega) hlt hempty2 hrun
      refine ⟨hI3, hsame.trans hsame3, ?_⟩
      rcases hres with ⟨rfl, hle, hpage3, hres3⟩ | ⟨rfl, hpage3⟩
      · refine .inl ⟨rfl, by omega, ?_, fun hun hres => hres3 (hsame.unattached hun) fun v' => ?_⟩
        · rw [hpage3, hpage2]
          exact setRange_setAt _ _ _ _ _
        · rw [hleaf2]
          unfold setAt
          split_ifs
          · exact hperm
          · exact (hal.unattached r v' hun).trans (hres v')
      · refine .inr ⟨rfl, ?_⟩
        rw [hpage3, hpage2]
        exact setRange_setRange_of_none hav hnone
    · -- a page-table page is missing: give everything back
      obtain ⟨k3, hfree, hrun⟩ := bind_eq_ok.mp hrun
      obtain ⟨⟨sz, k4⟩, hdealloc, hrun⟩ := bind_eq_ok.mp hrun
      cases hrun
      have hpa2 : (k2.frametable i).pa = mem := by rw [hgrown.frametable]; exact hpa
      obtain ⟨hI3, hpage3, hsame3, -⟩ := kfreeUser_spec (D := D) hI2 hpa2 hfree
      have hsame := (hsame1.trans hgrown.same).trans hsame3
      obtain ⟨hsz, hI4, hsame4, hpage4⟩ := uvmdealloc_spec (D := D) hI3
        (by rw [hsame.owner, howner]; rfl) (by rw [pageCount_mul]; exact htop) hdealloc
      rw [min_eq_right (Nat.mul_le_mul_right _ hav)] at hsz
      refine ⟨hI4, hsame.trans hsame4, .inr ⟨rfl, ?_⟩⟩
      rw [hpage4, hpage3, hgrown.page hal.inv, hpage1, hsz, pageCount_mul, pageCount_mul]

/-- `uvmalloc` adds pages of zeros, or fails and changes no abstract page. -/
theorem uvmalloc_spec {oldsz newsz sz : ℕ} {xperm : Flags}
    (hperm : xperm.s = false) (hI : k.core.Inv {}) (ha : k.Attached)
    (howner : k.owner r = some p) (hframed : k.Framed r) (hold : pageCount oldsz ≤ USER_TOP)
    (hempty : ∀ v, pageCount oldsz ≤ v → k.page D r v = none)
    (hrun : k.uvmalloc D p r oldsz newsz xperm = .ok (sz, k')) :
    k'.core.Inv {} ∧ k.Same k' ∧
      ((sz = max oldsz newsz ∧ pageCount sz ≤ USER_TOP ∧
        k'.page D = setRange (k.page D) r (pageCount oldsz) (pageCount newsz - pageCount oldsz)
          (some (.zeros { xperm with r := true, u := true })) ∧
        (k.Unattached r → k.Resident r → k'.Resident r)) ∨
        (sz = 0 ∧ k'.page D = k.page D)) := by
  unfold uvmalloc at hrun
  split_ifs at hrun with hlt
  · cases hrun
    refine ⟨hI, .refl _, .inl ⟨by omega, hold, ?_, fun _ hres => hres⟩⟩
    rw [Nat.sub_eq_zero_of_le (pageCount_mono (by omega)), setRange_zero]
  · dsimp only at hrun
    rw [pagesFrom_eq, pgroundup_eq] at hrun
    obtain ⟨⟨b, k1⟩, hloop, hrun⟩ := bind_eq_ok.mp hrun
    have hperm' : ({ xperm with r := true, u := true } : Flags).s = false := hperm
    obtain ⟨hI1, hsame, hres⟩ := uvmallocLoop_spec (a := pageCount oldsz) hperm' _ hI ha howner
      hframed le_rfl hold (fun v h1 _ => hempty v h1) hloop
    have hmono := pageCount_mono (Nat.le_of_not_lt hlt)
    rcases hres with ⟨rfl, hle, hpage, hres⟩ | ⟨rfl, hpage⟩
    · cases hrun
      exact ⟨hI1, hsame, .inl ⟨by omega, by omega, hpage, hres⟩⟩
    · cases hrun
      refine ⟨hI1, hsame, .inr ⟨rfl, ?_⟩⟩
      rw [hpage, Nat.sub_self, setRange_zero]

/-! ## `vmfault` -/

lemma setAt_faultedIn {g : ℕ → ℕ → Option UPage} (hsome : (g r v).isSome) :
    setAt g r v (some (faultedIn (g r v))) = g := by
  obtain ⟨x, hx⟩ := Option.isSome_iff_exists.mp hsome
  funext r' v'
  unfold setAt
  split_ifs with hrv
  · rw [hrv.1, hrv.2, hx]
    rfl
  · rfl

lemma ismapped_spec (hr : (k.owner r).isSome) {b : Bool}
    (hrun : k.ismapped r (v * PGSIZE) = .ok b) : b = (k.core.leaf r v).flags.v := by
  unfold ismapped at hrun
  obtain ⟨o, hwalk, hrun⟩ := bind_eq_ok.mp hrun
  obtain ⟨-, href⟩ := walk_ok hr hwalk
  rw [mul_pgsize_div] at href
  cases o with
  | none =>
    cases hrun
    rw [Core.leaf_eq_of_none href]
  | some q =>
    cases hrun
    rw [pte_eq_leaf href]

/-- What a successful or failed fault leaves behind. -/
structure Faulted (D : SwapDev σ) (k : Kernel σ) (r v pa : ℕ) (k' : Kernel σ) : Prop where
  inv : k'.core.Inv {}
  same : k.Same k'
  outcome : (pa = 0 ∧ k'.page D = k.page D) ∨
    (pa ≠ 0 ∧ v < USER_TOP ∧ (k.core.leaf r v).flags.v = false ∧
      (k'.core.leaf r v).flags.v = true ∧ (k'.core.leaf r v).num = pa ∧
      k'.page D = setAt (k.page D) r v (some (faultedIn (k.page D r v))))

/-- The allocation before the page is brought in changes nothing that a fault is about. -/
theorem Faulted.of_allocated {k1 : Kernel σ} {va' : ℕ} (hal : Allocated D k va' p pa k1 i)
    (hnv : (k.core.leaf r v).flags.v = false) {pa' : ℕ} (h : Faulted D k1 r v pa' k') :
    Faulted D k r v pa' k' := by
  refine ⟨h.inv, hal.same.trans h.same, ?_⟩
  rw [← hal.page]
  rcases h.outcome with hfail | ⟨hpa, hlt, -, hv, hnum, hpage⟩
  · exact .inl hfail
  · exact .inr ⟨hpa, hlt, hnv, hv, hnum, hpage⟩

lemma mapZeros_spec {pa' : ℕ} (hI : k.core.Inv ⟨some i, none, none⟩)
    (htable : (k.proc p).pagetable = r) (howner : k.owner r = some p) (hframed : k.Framed r)
    (hframe : k.frametable i = userFrame (v * PGSIZE) p pa)
    (hs : (k.core.leaf r v).flags.s = false) (hrun : k.mapZeros p (v * PGSIZE) pa = .ok (pa', k')) :
    Faulted D k r v pa' k' := by
  have hpa : (k.frametable i).pa = pa := by rw [hframe]; rfl
  have hpa0 : pa ≠ 0 := by
    rw [← hpa]
    exact pa_ne_zero hI (hI.frames.cells.held_used i rfl)
  have hpage1 : (k.setMem pa 0).page D = k.page D := page_setMem_held hI hpa 0
  unfold mapZeros at hrun
  obtain ⟨⟨mapped, k2⟩, hmap, hrun⟩ := bind_eq_ok.mp hrun
  change (k.setMem pa 0).mappages (k.proc p).pagetable _ _ _ _ = _ at hmap
  rw [htable] at hmap
  have hmapped := mapHeld_spec (D := D) (k := k.setMem pa 0) hI howner hframed hframe hs rfl hmap
  rcases hmapped with ⟨rfl, hlt, hnv, hI2, hpage2, hsame2, hleaf2⟩ | ⟨rfl, hI2, hgrown⟩
  · cases hrun
    have hnone : k.page D r v = none := page_of_empty (hI.shape r v hnv hs)
    refine ⟨hI2, hsame2, .inr ⟨hpa0, hlt, hnv, ?_, ?_, ?_⟩⟩
    · change (k2.core.leaf r v).flags.v = true
      rw [hleaf2, setAt_self]
      rfl
    · change (k2.core.leaf r v).num = _
      rw [hleaf2, setAt_self]
      rfl
    · change k2.page D = _
      have hzero : (k.setMem pa 0).mem pa = 0 := Function.update_self _ _ _
      rw [hpage2, hpage1, hzero, SwapDev.seen_zero, hnone]
      rfl
  · obtain ⟨k3, hfree, hrun⟩ := bind_eq_ok.mp hrun
    cases hrun
    have hpa2 : (k2.frametable i).pa = pa := by rw [hgrown.frametable]; exact hpa
    obtain ⟨hI3, hpage3, hsame3, -⟩ := kfreeUser_spec (D := D) hI2 hpa2 hfree
    refine ⟨hI3, hgrown.same.trans hsame3, .inl ⟨rfl, ?_⟩⟩
    rw [hpage3, hgrown.page hI, hpage1]

/-- What `vmfault` has done when it returns: nothing, or it has allocated a frame for a page that
was not resident, and has read the page from its slot or mapped it as zeros. -/
theorem vmfault_ok (hI : k.core.Inv {}) (ha : k.Attached) (hr : (k.owner r).isSome)
    (hrun : k.vmfault D p r va = .ok (pa, k')) :
    (((k.proc p).sz ≤ va ∨ (k.core.leaf r (va / PGSIZE)).flags.v = true) ∧ pa = 0 ∧
      (k' = k ∨ k' = k.countFault p)) ∨
    (va < (k.proc p).sz ∧ (k.core.leaf r (va / PGSIZE)).flags.v = false ∧ ∃ pa1 k1 i,
      k.kallocUser D (va / PGSIZE * PGSIZE) p = .ok (pa1, k1) ∧
      Allocated D k (va / PGSIZE * PGSIZE) p pa1 k1 i ∧
      if (k1.core.leaf r (va / PGSIZE)).flags.s then
        pa = pa1 ∧ ∃ k2, k1.swapIn D p (va / PGSIZE * PGSIZE) pa1 = .ok k2 ∧ k' = k2.countFault p
      else k1.mapZeros p (va / PGSIZE * PGSIZE) pa1 = .ok (pa, k')) := by
  unfold vmfault at hrun
  split_ifs at hrun with hsz
  · cases hrun
    exact .inl ⟨.inl hsz, rfl, .inl rfl⟩
  obtain ⟨b, hmapped, hrun⟩ := bind_eq_ok.mp hrun
  obtain rfl := ismapped_spec hr hmapped
  split_ifs at hrun with hv
  · cases hrun
    exact .inl ⟨.inr hv, rfl, .inr rfl⟩
  obtain ⟨o, hwalk, hrun⟩ := bind_eq_ok.mp hrun
  obtain ⟨⟨pa1, k1⟩, halloc, hrun⟩ := bind_eq_ok.mp hrun
  obtain ⟨i, hal⟩ := kallocUser_spec hI ha halloc
  obtain ⟨-, href⟩ := walk_ok hr hwalk
  change k.core.leafRef r (va / PGSIZE * PGSIZE / PGSIZE) = o at href
  rw [mul_pgsize_div, ← hal.leafRef] at href
  refine .inr ⟨by omega, (Bool.not_eq_true _).mp hv, pa1, k1, i, halloc, hal, ?_⟩
  dsimp only at hrun
  rw [if_neg hal.pa_ne_zero] at hrun
  cases o with
  | none =>
    rw [Core.leaf_eq_of_none href]
    exact hrun
  | some q =>
    dsimp only at hrun
    rw [pte_eq_leaf href] at hrun
    split_ifs at hrun ⊢
    · obtain ⟨k2, hswap, hrun⟩ := bind_eq_ok.mp hrun
      cases hrun
      exact ⟨rfl, k2, hswap, rfl⟩
    · exact hrun

/-- A fault of `p` brings the page in, or fails and changes no abstract page. -/
theorem vmfault_spec (hI : k.core.Inv {}) (ha : k.Attached)
    (htable : (k.proc p).pagetable = r) (howner : k.owner r = some p) (hframed : k.Framed r)
    (hrun : k.vmfault D p r va = .ok (pa, k')) :
    Faulted D k r (va / PGSIZE) pa k' ∧ (pa ≠ 0 → va < (k.proc p).sz) := by
  rcases vmfault_ok hI ha (by simp [howner]) hrun with
    ⟨-, rfl, rfl | rfl⟩ | ⟨hsz, hnv, pa1, k1, i, -, hal, hrun⟩
  · exact ⟨⟨hI, .refl _, .inl ⟨rfl, rfl⟩⟩, by simp⟩
  · exact ⟨⟨hI, .refl _, .inl ⟨rfl, rfl⟩⟩, by simp⟩
  refine ⟨?_, fun _ => hsz⟩
  have htable1 : (k1.proc p).pagetable = r := by rw [hal.same.proc, htable]
  have howner1 : k1.owner r = some p := by rw [hal.same.owner, howner]
  split_ifs at hrun with hs
  · obtain ⟨rfl, k2, hswap, rfl⟩ := hrun
    obtain ⟨hI2, hpage2, hsame2, -, hv2, hnum2⟩ :=
      swapIn_spec hal.inv htable1 howner1 hal.frame hs hswap
    obtain ⟨hnv1, hlt, -⟩ := hal.inv.slots.swapped (r, va / PGSIZE) _ ⟨hs, rfl⟩
    refine ⟨hI2, hal.same.trans hsame2, .inr ⟨hal.pa_ne_zero, hlt, hnv, hv2, hnum2, ?_⟩⟩
    change k2.page D = _
    rw [hpage2, ← hal.page]
    refine (setAt_faultedIn ?_).symm
    rw [page_of_swapped hlt hnv1 hs]
    rfl
  · -- a page that is not swapped out is mapped as zeros
    exact .of_allocated hal hnv (mapZeros_spec hal.inv htable1 howner1 (hal.same.framed hframed)
      hal.frame ((Bool.not_eq_true _).mp hs) hrun)

end Kernel

end Xv6.VM
