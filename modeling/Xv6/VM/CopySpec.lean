import Xv6.VM.VmSpec

/-!
# Copying an address space

The specification of `uvmcopy`. A page of the parent is copied from its frame or from its swap slot.
The allocation of the child's frame may evict the very page that is being copied, which is why
`uvmcopy` reads the entry of the parent again after it.
-/

namespace Xv6.VM.Kernel

open Fallible Function

variable {σ : Type} {D : SwapDev σ} {k k' k'' : Kernel σ} {i : Fin NUM_FRAMES} {p np : ProcId}
  {old new r v va pa j c b : ℕ} {q : ℕ × ℕ} {perm : Flags}

/-! ## Transfers between slots and pages -/

lemma raidWrite_ok (hj : j < MAX_SWAP_PAGES) (h : k.raidWrite D j pa = .ok k') :
    ∃ dev, D.slotBytes dev = update (D.slotBytes k.dev) j (D.seen (k.mem pa)) ∧
      k' = { k with dev := dev } := by
  unfold raidWrite at h
  obtain ⟨dev, hwrite, h⟩ := bind_eq_ok.mp h
  injection h with h
  exact ⟨dev, SwapDev.slotBytes_write hj hwrite, h.symm⟩

/-- Copying a slot to the held slot through the held page changes no abstract page. -/
theorem bounce_spec {f : Option (Fin NUM_FRAMES)} {k1 k2 : Kernel σ}
    (hI : k.core.Inv ⟨f, some c, some b⟩) (hj : j < MAX_SWAP_PAGES) (hc : c < MAX_SWAP_PAGES)
    (hread : k.raidRead D j b = .ok k1) (hwrite : k1.raidWrite D c b = .ok k2) :
    k2.core = k.core ∧ k2.page D = k.page D ∧ k.Same k2 ∧
      D.slotBytes k2.dev c = D.slotBytes k.dev j := by
  obtain ⟨dev1, pg, hdev1, hpg, rfl⟩ := raidRead_ok hj hread
  obtain ⟨dev2, hdev2, rfl⟩ := raidWrite_ok hc hwrite
  change D.slotBytes dev2 = update (D.slotBytes dev1) c
    (D.seen (update k.mem b pg b)) at hdev2
  rw [hdev1, update_self, hpg] at hdev2
  refine ⟨rfl, ?_, rfl, ?_⟩
  · funext r v
    refine page_congr Iff.rfl ⟨rfl, rfl, rfl, fun _ => rfl⟩ (fun hlt hv => ?_) fun _ _ hs => ?_
    · exact update_of_ne (hI.num_ne (u := .held) rfl (by simp) hlt hv) _ _
    · change D.slotBytes dev2 _ = _
      rw [hdev2]
      exact update_of_ne (hI.num_ne_slot hs) _ _
  · change D.slotBytes dev2 c = _
    rw [hdev2, update_self]

lemma entryPage_toSwap (hlt : v < USER_TOP) :
    k.entryPage D v (.toSwap c perm) = some (.ofFlags (D.slotBytes k.dev c) perm) := by
  simp [entryPage, Pte.toSwap, UPage.ofFlags, Nat.not_le.mpr hlt]

/-! ## One page -/

/-- What one round of `uvmcopy` does: the page is copied, or nothing changes. -/
structure Copied (D : SwapDev σ) (k : Kernel σ) (old new v : ℕ) (b : Bool) (k' : Kernel σ) :
    Prop where
  inv : k'.core.Inv {}
  same : k.Same k'
  outcome : (b = true ∧ k'.page D = setAt (k.page D) new v (k.page D old v)) ∨
    (b = false ∧ k'.page D = k.page D)

/-- A page that has not been allocated has no entry that is swapped out. -/
theorem not_swapped_of_page {h : Held} (hI : k.core.Inv h) (hlt : v < USER_TOP)
    (hnone : k.page D r v = none) : (k.core.leaf r v).flags.s = false := by
  rw [(page_eq_none_iff hI hlt).mp hnone]

lemma freeSwapSlot_held {f : Option (Fin NUM_FRAMES)} {held : Option ℕ}
    (hI : k.core.Inv ⟨f, some c, held⟩) (hc : c < MAX_SWAP_PAGES) :
    (k.freeSwapSlot c).core.Inv ⟨f, none, held⟩ ∧ (k.freeSwapSlot c).page D = k.page D ∧
      k.Same (k.freeSwapSlot c) := by
  rw [freeSwapSlot_eq hc (hI.slots.cells.held_used c rfl)]
  exact ⟨hI.freeSlot, rfl, rfl⟩

lemma copySwapped_spec {b : Bool} (hI : k.core.Inv {})
    (howner : k.owner new = some np) (hs : (k.core.leaf old v).flags.s = true)
    (hnone : k.page D new v = none)
    (hrun : k.copySwapped D new (v * PGSIZE) np (k.core.leaf old v) = .ok (b, k')) :
    Copied D k old new v b k' := by
  obtain ⟨hnv, hlt, hj⟩ := hI.slots.swapped (old, v) _ ⟨hs, rfl⟩
  have hpage := page_of_swapped (D := D) hlt hnv hs
  unfold copySwapped at hrun
  split at hrun
  · cases hrun
    exact ⟨hI, rfl, .inr ⟨rfl, rfl⟩⟩
  · rename_i c k1 htake
    obtain ⟨hc, hfree, rfl⟩ := takeSlot_eq_some htake
    have hI1 : (k.setSlot c { inUse := true, p := some np }).core.Inv ⟨none, some c, none⟩ :=
      hI.takeSlot hfree rfl
    split at hrun
    · rename_i k2 hkalloc
      cases hrun
      rw [kalloc_none hkalloc]
      obtain ⟨hI2, hpage2, hsame2⟩ := freeSwapSlot_held (D := D) hI1 hc
      exact ⟨hI2, hsame2, .inr ⟨rfl, hpage2⟩⟩
    · rename_i bounce k2 hkalloc
      obtain ⟨hP2, hgrown2⟩ := Grown.of_kalloc hI1.pages hkalloc
      have hI2 := hgrown2.inv hI1 hP2
      obtain ⟨k3, hread, hrun⟩ := bind_eq_ok.mp hrun
      obtain ⟨k4, hwrite, hrun⟩ := bind_eq_ok.mp hrun
      obtain ⟨k5, hkfree, hrun⟩ := bind_eq_ok.mp hrun
      obtain ⟨⟨o, k6⟩, hwalk, hrun⟩ := bind_eq_ok.mp hrun
      obtain ⟨hcore4, hpage4, hsame4, hbytes⟩ := bounce_spec hI2 hj hc hread hwrite
      obtain ⟨hI5, hpage5, hsame5, -, hleaf5⟩ := kfree_spec (D := D) (by rw [hcore4]; exact hI2)
        hkfree
      have hsame05 : k.Same k5 := (hgrown2.same.trans hsame4).trans hsame5
      obtain ⟨-, hP6, hgrown6, href⟩ := walkAlloc_spec hI5.pages
        (by rw [hsame05.owner, howner]; rfl) hwalk
      have hI6 := hgrown6.inv hI5 hP6
      have hpage6 : k6.page D = k.page D := by
        rw [hgrown6.page hI5, hpage5, hpage4, hgrown2.page hI1]
        rfl
      have hsame6 : k.Same k6 := hsame05.trans hgrown6.same
      cases o with
      | none =>
        cases hrun
        obtain ⟨hI7, hpage7, hsame7⟩ := freeSwapSlot_held (D := D) hI6 hc
        exact ⟨hI7, hsame6.trans hsame7, .inr ⟨rfl, hpage7.trans hpage6⟩⟩
      | some q =>
        cases hrun
        have hq := href q rfl
        rw [mul_pgsize_div] at hq
        have hempty : k6.core.leaf new v = {} :=
          (page_eq_none_iff hI6 hlt).mp (by rw [hpage6, hnone])
        have hslot : (k6.swaptable c).p = k6.owner new := by
          have h5 : k5.swaptable = k4.swaptable := by rw [kfree_ok hkfree]; rfl
          have h4 : k4.swaptable = k2.swaptable := congrArg Core.swaptable hcore4
          rw [hsame6.owner, howner, hgrown6.swaptable, h5, h4, hgrown2.swaptable]
          simp [setSlot]
        have hI7 := hI6.mapSlot (e := .toSwap c (k.core.leaf old v).flags) hq hc hlt hempty rfl rfl
          rfl hslot
        have hdev : D.slotBytes k6.dev c = D.slotBytes k.dev (k.core.leaf old v).num := by
          have h5 : k5.dev = k4.dev := by rw [kfree_ok hkfree]; rfl
          rw [hgrown6.dev, h5, hbytes, hgrown2.dev]
          rfl
        refine ⟨hI7, hsame6.trans (.mk rfl rfl (fun r' v' hle => ?_) rfl rfl rfl rfl rfl),
          .inl ⟨rfl, ?_⟩⟩
        · change upperBits ((k6.core.setPte q _).leaf r' v') = _
          rw [hI6.pages.leaf_setPte hq, setAt, if_neg (by rintro ⟨-, rfl⟩; omega)]
        · have hentry : k6.entryPage D v (.toSwap c (k.core.leaf old v).flags) =
              k.page D old v := by
            rw [hpage, entryPage_toSwap hlt, hdev]
          change (k6.setPte q _).page D = _
          rw [page_setPte hI6 hq, hpage6, hentry]

/-- The child's frame gets the bytes and the permissions of the parent's page. -/
theorem fillFrame_spec {flags : Flags} {x : UPage} (hI : k.core.Inv ⟨some i, none, none⟩)
    (hpa : (k.frametable i).pa = pa) (hlt : v < USER_TOP) (hx : k.page D r v = some x)
    (hrun : k.fillFrame D (k.core.leaf r v) pa = .ok (flags, k')) :
    k'.core = k.core ∧ k'.page D = k.page D ∧ k.Same k' ∧ flags.s = false ∧
      UPage.ofFlags (D.seen (k'.mem pa)) flags = x := by
  unfold fillFrame at hrun
  split_ifs at hrun with hv hs
  · cases hrun
    have hns : (k.core.leaf r v).flags.s = false := by
      by_contra hs
      have := (hI.slots.swapped (r, v) _ ⟨(Bool.not_eq_false _).mp hs, rfl⟩).1
      simp [hv] at this
    rw [page_of_valid hlt hv] at hx
    refine ⟨rfl, page_setMem_held hI hpa _, rfl, hns, ?_⟩
    rw [← Option.some.inj hx]
    simp [setMem]
  · obtain ⟨k1, hread, hrun⟩ := bind_eq_ok.mp hrun
    cases hrun
    obtain ⟨hnv, -, hj⟩ := hI.slots.swapped (r, v) _ ⟨hs, rfl⟩
    obtain ⟨dev, pg, hdev, hpg, rfl⟩ := raidRead_ok hj hread
    rw [page_of_swapped hlt hnv hs] at hx
    refine ⟨rfl, ?_, rfl, rfl, ?_⟩
    · rw [page_setMem_held (k := { k with dev := dev }) hI hpa]
      funext r' v'
      exact page_congr Iff.rfl ⟨rfl, rfl, rfl, fun _ => rfl⟩ (fun _ _ => rfl) fun _ _ _ => by
        rw [hdev]
    · rw [← Option.some.inj hx, ← hpg]
      simp [setMem, Pte.toFrame, UPage.ofFlags]
  · rw [page_of_empty (hI.shape r v ((Bool.not_eq_true _).mp hv)
      ((Bool.not_eq_true _).mp hs))] at hx
    cases hx

lemma copyResident_spec {b : Bool} {x : UPage} (hI : k.core.Inv {})
    (ha : k.Attached) (howner : k.owner new = some np) (hframed : k.Framed new)
    (hq : k.core.leafRef old v = some q) (hlt : v < USER_TOP) (hx : k.page D old v = some x)
    (hnone : k.page D new v = none)
    (hrun : k.copyResident D q new (v * PGSIZE) np = .ok (b, k')) :
    Copied D k old new v b k' := by
  unfold copyResident at hrun
  obtain ⟨⟨mem, k1⟩, halloc, hrun⟩ := bind_eq_ok.mp hrun
  obtain ⟨i, hal⟩ := kallocUser_spec hI ha halloc
  dsimp only at hrun
  rw [if_neg hal.pa_ne_zero] at hrun
  obtain ⟨⟨flags, k2⟩, hfill, hrun⟩ := bind_eq_ok.mp hrun
  obtain ⟨⟨mapped, k3⟩, hmap, hrun⟩ := bind_eq_ok.mp hrun
  rw [pte_eq_leaf (by rw [hal.leafRef, hq])] at hfill
  have hpa : (k1.frametable i).pa = mem := by rw [hal.frame]; rfl
  obtain ⟨hcore2, hpage2, hsame2, hns, hbytes⟩ :=
    fillFrame_spec hal.inv hpa hlt (by rw [hal.page, hx]) hfill
  have hI2 : k2.core.Inv ⟨some i, none, none⟩ := by rw [hcore2]; exact hal.inv
  have hframe2 : k2.frametable i = userFrame (v * PGSIZE) np mem :=
    (congrFun (congrArg Core.frametable hcore2) i).trans hal.frame
  have hsame : k.Same k2 := hal.same.trans hsame2
  have hpage : k2.page D = k.page D := hpage2.trans hal.page
  have hmapped := mapHeld_spec (D := D) hI2 (by rw [hsame.owner, howner]) (hsame.framed hframed)
    hframe2 (not_swapped_of_page (D := D) hI2 hlt (by rw [hpage, hnone])) hns hmap
  rcases hmapped with ⟨rfl, -, -, hI3, hpage3, hsame3, -⟩ | ⟨rfl, hI3, hgrown⟩
  · cases hrun
    refine ⟨hI3, hsame.trans hsame3, .inl ⟨rfl, ?_⟩⟩
    rw [hpage3, hpage, hbytes, hx]
  · obtain ⟨k4, hfree, hrun⟩ := bind_eq_ok.mp hrun
    cases hrun
    have hpa3 : (k3.frametable i).pa = mem := by rw [hgrown.frametable, hframe2]; rfl
    obtain ⟨hI4, hpage4, hsame4, -⟩ := kfreeUser_spec (D := D) hI3 hpa3 hfree
    refine ⟨hI4, (hsame.trans hgrown.same).trans hsame4, .inr ⟨rfl, ?_⟩⟩
    rw [hpage4, hgrown.page hI2, hpage]

lemma copyPage_spec {b : Bool} (hI : k.core.Inv {}) (ha : k.Attached)
    (hold : (k.owner old).isSome) (howner : k.owner new = some np) (hframed : k.Framed new)
    (hlt : v < USER_TOP) (hnone : k.page D new v = none)
    (hrun : k.copyPage D old new (v * PGSIZE) np = .ok (b, k')) : Copied D k old new v b k' := by
  -- a page that the parent has not allocated is skipped
  have hskip : k.core.leaf old v = {} → (true, k) = (b, k') → Copied D k old new v b k' := by
    rintro hempty heq
    cases heq
    refine ⟨hI, rfl, .inl ⟨rfl, ?_⟩⟩
    rw [page_of_empty (r := old) hempty]
    funext r' v'
    unfold setAt
    split_ifs with hrv
    · rw [hrv.1, hrv.2, hnone]
    · rfl
  unfold copyPage at hrun
  obtain ⟨o, hwalk, hrun⟩ := bind_eq_ok.mp hrun
  obtain ⟨-, href⟩ := walk_ok hold hwalk
  rw [mul_pgsize_div] at href
  cases o with
  | none =>
    injection hrun with hrun
    exact hskip (Core.leaf_eq_of_none href) hrun
  | some q =>
    dsimp only at hrun
    rw [pte_eq_leaf href] at hrun
    split_ifs at hrun with hempty hs
    · injection hrun with hrun
      exact hskip (hI.shape old v hempty.1 hempty.2) hrun
    · exact copySwapped_spec hI howner hs hnone hrun
    · cases hx : k.page D old v with
      | none =>
        have hleaf := (page_eq_none_iff hI hlt).mp hx
        exact absurd ⟨by rw [hleaf], by rw [hleaf]⟩ hempty
      | some x => exact copyResident_spec hI ha howner hframed href hlt hx hnone hrun

/-! ## The whole address space -/

/-- The loop of `uvmcopy` at page `v`, after the pages below `v` have been copied. On failure the
pages copied so far are released. -/
theorem copyLoop_spec (hne : old ≠ new) (n : ℕ) : ∀ {k k' : Kernel σ} {v : ℕ} {b : Bool},
    k.core.Inv {} → k.Attached → (k.owner old).isSome → k.owner new = some np →
    k.Framed new → v + n ≤ USER_TOP → (∀ v', v ≤ v' → k.page D new v' = none) →
    copyLoop D old new np n (v * PGSIZE) k = .ok (b, k') →
    k'.core.Inv {} ∧ k.Same k' ∧
      ((b = true ∧ ∀ r' v', k'.page D r' v' =
          if r' = new ∧ v ≤ v' ∧ v' < v + n then k.page D old v' else k.page D r' v') ∨
        (b = false ∧ k'.page D = setRange (k.page D) new 0 v none)) := by
  induction n with
  | zero =>
    intro k k' v b hI ha hold howner hframed hle hempty hrun
    cases hrun
    exact ⟨hI, rfl, .inl ⟨rfl, fun r' v' => by rw [if_neg (by omega)]⟩⟩
  | succ n ih =>
    intro k k' v b hI ha hold howner hframed hle hempty hrun
    unfold copyLoop at hrun
    obtain ⟨⟨copied, k1⟩, hcopy, hrun⟩ := bind_eq_ok.mp hrun
    obtain ⟨hI1, hsame, hres⟩ := copyPage_spec hI ha hold howner hframed (by omega)
      (hempty v le_rfl) hcopy
    rcases hres with ⟨rfl, hpage⟩ | ⟨rfl, hpage⟩
    · rw [← Nat.succ_mul] at hrun
      have hempty1 : ∀ v', v + 1 ≤ v' → k1.page D new v' = none := by
        intro v' hv'
        rw [hpage, setAt, if_neg (by omega), hempty v' (by omega)]
      obtain ⟨hI2, hsame2, hres⟩ := ih hI1 (hsame.attached ha) (by rw [hsame.owner]; exact hold)
        (by rw [hsame.owner, howner]) (hsame.framed hframed) (by omega) hempty1 hrun
      refine ⟨hI2, hsame.trans hsame2, ?_⟩
      rcases hres with ⟨rfl, hpage2⟩ | ⟨rfl, hpage2⟩
      · refine .inl ⟨rfl, fun r' v' => ?_⟩
        have hold1 : k1.page D old v' = k.page D old v' := by
          rw [hpage, setAt, if_neg fun hc => hne hc.1]
        rw [hpage2, hold1, hpage]
        unfold setAt
        by_cases hr : r' = new
        · by_cases hv : v' = v
          · rw [if_neg (by omega), if_pos ⟨hr, hv⟩, if_pos (by omega), hv]
          · by_cases hin : v + 1 ≤ v' ∧ v' < v + 1 + n
            · rw [if_pos ⟨hr, hin⟩, if_pos (by omega)]
            · rw [if_neg (by omega), if_neg (by omega), if_neg (by omega)]
        · simp [hr]
      · refine .inr ⟨rfl, ?_⟩
        rw [hpage2, hpage]
        have := setRange_setRange_of_none (x := k.page D old v) (Nat.zero_le v) (hempty v le_rfl)
        simpa using this
    · obtain ⟨k2, hunmap, hrun⟩ := bind_eq_ok.mp hrun
      cases hrun
      have h0 : (0 : ℕ) = 0 * PGSIZE := by simp
      rw [mul_pgsize_div, h0] at hunmap
      obtain ⟨hI2, hpage2, hsame2, -⟩ := uvmunmap_spec (D := D) hI1
        (by rw [hsame.owner, howner]; rfl) (by omega) hunmap
      exact ⟨hI2, hsame.trans hsame2, .inr ⟨rfl, by rw [hpage2, hpage]⟩⟩

/-- `uvmcopy` into an empty table gives the child the pages of the parent, or fails and changes no
abstract page. -/
theorem uvmcopy_spec {sz : ℕ} {b : Bool} (hI : k.core.Inv {}) (ha : k.Attached)
    (hold : (k.owner old).isSome) (howner : k.owner new = some np) (hframed : k.Framed new)
    (hne : old ≠ new) (hsz : pageCount sz ≤ USER_TOP)
    (habove : ∀ v, pageCount sz ≤ v → k.page D old v = none)
    (hempty : ∀ v, k.page D new v = none) (hrun : k.uvmcopy D old new sz np = .ok (b, k')) :
    k'.core.Inv {} ∧ k.Same k' ∧
      ((b = true ∧ ∀ r' v', k'.page D r' v' = k.page D (if r' = new then old else r') v') ∨
        (b = false ∧ k'.page D = k.page D)) := by
  have h0 : (0 : ℕ) = 0 * PGSIZE := by simp
  unfold uvmcopy at hrun
  have hcount : pagesFrom 0 sz = pageCount sz := pagesFrom_eq 0 sz
  rw [hcount, h0] at hrun
  obtain ⟨hI1, hsame, hres⟩ := copyLoop_spec hne (pageCount sz) hI ha hold howner hframed
    (by omega) (fun v _ => hempty v) hrun
  refine ⟨hI1, hsame, ?_⟩
  rcases hres with ⟨rfl, hpage⟩ | ⟨rfl, hpage⟩
  · refine .inl ⟨rfl, fun r' v' => ?_⟩
    rw [hpage]
    by_cases hr : r' = new
    · by_cases hv : v' < pageCount sz
      · rw [if_pos (by omega), if_pos hr]
      · rw [if_neg (by omega), if_pos hr, hr, hempty, habove v' (by omega)]
    · rw [if_neg (by omega), if_neg hr]
  · refine .inr ⟨rfl, ?_⟩
    rw [hpage, setRange_zero]

end Xv6.VM.Kernel
