import Xv6.VM.View

/-!
# Specifications of the frame allocator

What `get_victim`, `kalloc_user`, `kfree_user`, `swap_out` and `swap_in` do, in terms of ownership
and of the abstract pages. The main result is `Kernel.kallocUser_spec`: whether or not it evicts,
`kalloc_user` leaves every abstract page as it was and returns a frame that nothing else uses.
-/

namespace Xv6.VM

open Fallible Raid Function

/-- The permissions in the flags of an entry do not depend on `PTE_V`, `PTE_A` and `PTE_S`. -/
theorem UPage.ofFlags_congr {f f' : Flags} (hr : f.r = f'.r) (hw : f.w = f'.w) (hx : f.x = f'.x)
    (hu : f.u = f'.u) (bytes : Page) : UPage.ofFlags bytes f = .ofFlags bytes f' := by
  simp [UPage.ofFlags, hr, hw, hx, hu]

namespace Core

variable {c : Core} {f : Option (Fin NUM_FRAMES)} {s held : Option ℕ} {i : Fin NUM_FRAMES}
  {r v j : ℕ}

lemma Inv.num_ne_frame (hI : c.Inv ⟨some i, s, held⟩) (hlt : v < USER_TOP)
    (hv : (c.leaf r v).flags.v = true) : (c.leaf r v).num ≠ (c.frametable i).pa := fun heq =>
  hI.frames.cells.held_ref (r, v) i rfl ⟨hlt, hv, heq, hI.frames.cells.held_used i rfl⟩

lemma Inv.num_ne_slot (hI : c.Inv ⟨f, some j, held⟩) (hs : (c.leaf r v).flags.s = true) :
    (c.leaf r v).num ≠ j := fun heq =>
  hI.slots.cells.held_ref (r, v) j rfl ⟨hs, heq⟩

end Core

namespace Kernel

variable {σ : Type} {D : SwapDev σ} {k k' k'' : Kernel σ} {h : Held} {i : Fin NUM_FRAMES}
  {p : ProcId} {r v va pa : ℕ} {q : ℕ × ℕ}

/-! ## `get_victim` -/

/-- The states differ at most in the clock hand, the reference bits and the accessed bits. -/
structure Hinted (k k' : Kernel σ) : Prop where
  eq : k' = { k with clockHand := k'.clockHand, frametable := k'.frametable, ptes := k'.ptes }
  frames : ∀ i, (k'.frametable i).inUse = (k.frametable i).inUse ∧
    (k'.frametable i).p = (k.frametable i).p ∧ (k'.frametable i).va = (k.frametable i).va ∧
    (k'.frametable i).pa = (k.frametable i).pa
  leafRef : k'.core.leafRef = k.core.leafRef
  leaf : ∀ r v, (k'.core.leaf r v).clearA = (k.core.leaf r v).clearA

lemma Hinted.refl (k : Kernel σ) : k.Hinted k :=
  ⟨rfl, fun _ => ⟨rfl, rfl, rfl, rfl⟩, rfl, fun _ _ => rfl⟩

lemma Hinted.trans (h : k.Hinted k') (h' : k'.Hinted k'') : k.Hinted k'' where
  eq := by rw [h'.eq, h.eq]
  frames i := by
    obtain ⟨h1, h2, h3, h4⟩ := h.frames i
    obtain ⟨h1', h2', h3', h4'⟩ := h'.frames i
    exact ⟨h1'.trans h1, h2'.trans h2, h3'.trans h3, h4'.trans h4⟩
  leafRef := h'.leafRef.trans h.leafRef
  leaf r v := (h'.leaf r v).trans (h.leaf r v)

lemma Hinted.proc (h : k.Hinted k') : k'.proc = k.proc := by rw [h.eq]

lemma Hinted.owner (h : k.Hinted k') : k'.owner = k.owner := by rw [h.eq]

/-- An entry up to `PTE_A`. -/
theorem Hinted.leaf_fields (h : k.Hinted k') (r v : ℕ) :
    (k'.core.leaf r v).num = (k.core.leaf r v).num ∧
    (k'.core.leaf r v).flags.v = (k.core.leaf r v).flags.v ∧
    (k'.core.leaf r v).flags.s = (k.core.leaf r v).flags.s ∧
    ∀ bytes, UPage.ofFlags bytes (k'.core.leaf r v).flags =
      .ofFlags bytes (k.core.leaf r v).flags := by
  have heq := h.leaf r v
  simp only [Pte.clearA, Pte.mk.injEq, Flags.mk.injEq] at heq
  obtain ⟨hnum, hv, hr, hw, hx, hu, -, hs⟩ := heq
  exact ⟨hnum, hv, hs, UPage.ofFlags_congr hr hw hx hu⟩

lemma Hinted.upperBits (h : k.Hinted k') (r v : ℕ) :
    upperBits (k'.core.leaf r v) = upperBits (k.core.leaf r v) := by
  have heq := h.leaf r v
  simp only [Pte.clearA, Pte.mk.injEq, Flags.mk.injEq] at heq
  rw [Kernel.upperBits, Kernel.upperBits, heq.2.1, heq.2.2.2.2.2.1]

lemma Hinted.page (h : k.Hinted k') : k'.page D = k.page D := by
  funext r v
  refine page_congr Iff.rfl (h.leaf_fields r v) (fun _ _ => ?_) fun _ _ _ => ?_
  · rw [h.eq]
  · rw [h.eq]

/-- The frame `i` may be evicted: it is in use, its process is not `init` or the shell, and the
process maps it. -/
structure EvictableBy (k : Kernel σ) (i : Fin NUM_FRAMES) (p : ProcId) : Prop where
  owner : (k.frametable i).p = some p
  used : (k.frametable i).inUse = .used
  pagetable : (k.proc p).pagetable ≠ 0
  evictee : k.Evictee p
  va_lt : (k.frametable i).va < MAXVA
  valid : (k.core.leaf (k.proc p).pagetable ((k.frametable i).va / PGSIZE)).flags.v = true
  num : (k.core.leaf (k.proc p).pagetable ((k.frametable i).va / PGSIZE)).num =
    (k.frametable i).pa

lemma hinted_clearA (hI : k.core.Inv h) (hq : k.core.leafRef r v = some q)
    (hv : (k.core.leaf r v).flags.v = true) :
    (k.setPte q (k.pte q).clearA).core.Inv h ∧ k.Hinted (k.setPte q (k.pte q).clearA) := by
  rw [pte_eq_leaf hq]
  refine ⟨hI.setBits hq (.inl hv) rfl rfl rfl, rfl, fun _ => ⟨rfl, rfl, rfl, rfl⟩, ?_, ?_⟩
  · funext r' v'
    exact hI.pages.leafRef_setPte hq r' v'
  · intro r' v'
    change ((k.core.setPte q _).leaf r' v').clearA = _
    rw [hI.pages.leaf_setPte hq]
    unfold setAt
    split_ifs with hrv
    · rw [hrv.1, hrv.2]
      rfl
    · rfl

lemma hinted_setRef (hI : k.core.Inv h) (b : Bool) :
    (k.setFrame i { k.frametable i with ref := b }).core.Inv h ∧
      k.Hinted (k.setFrame i { k.frametable i with ref := b }) := by
  refine ⟨hI.setRef b, rfl, fun j => ?_, rfl, fun _ _ => rfl⟩
  by_cases hj : j = i
  · subst hj
    simp [setFrame]
  · simp [setFrame, hj]

lemma secondChance_spec (hI : k.core.Inv h) (hq : k.core.leafRef r v = some q)
    (hv : (k.core.leaf r v).flags.v = true) {b : Bool} (hrun : k.secondChance i q = (b, k')) :
    k'.core.Inv h ∧ k.Hinted k' ∧ (b = true → k' = k) := by
  unfold secondChance at hrun
  dsimp only at hrun
  by_cases ha : (k.pte q).flags.a = true
  · rw [if_pos ha, if_pos (.inl ha)] at hrun
    injection hrun with hb hk
    subst hb hk
    obtain ⟨hI', hh⟩ := hinted_clearA hI hq hv
    obtain ⟨hI'', hh'⟩ := hinted_setRef (i := i) hI' false
    exact ⟨hI'', hh.trans hh', by simp⟩
  · rw [if_neg ha] at hrun
    split_ifs at hrun with hr
    · injection hrun with hb hk
      subst hb hk
      obtain ⟨hI', hh⟩ := hinted_setRef (i := i) hI false
      exact ⟨hI', hh, by simp⟩
    · injection hrun with hb hk
      exact ⟨hk ▸ hI, hk ▸ .refl k, fun _ => hk.symm⟩

lemma inspect_spec (hI : k.core.Inv h) (ha : k.Attached) {level : Option ℤ} {b : Bool}
    (hrun : k.inspect level i = .ok (b, k')) :
    k'.core.Inv h ∧ k.Hinted k' ∧ (b = true → ∃ p, k'.EvictableBy i p) := by
  have hskip : ∀ {b' : Bool × Kernel σ}, (.ok (false, k) : Except String _) = .ok b' →
      b' = (b, k') → k'.core.Inv h ∧ k.Hinted k' ∧ (b = true → ∃ p, k'.EvictableBy i p) := by
    rintro b' heq rfl
    injection heq with heq
    injection heq with hb hk
    subst hb hk
    exact ⟨hI, .refl k, by simp⟩
  unfold inspect at hrun
  dsimp only at hrun
  cases hp : (k.frametable i).p with
  | none =>
    rw [hp] at hrun
    exact hskip hrun rfl
  | some p =>
    rw [hp] at hrun
    dsimp only at hrun
    split_ifs at hrun with hc
    · obtain ⟨o, hwalk, hrun⟩ := bind_eq_ok.mp hrun
      have howner : k.owner (k.proc p).pagetable = some p := ha p hc.2.1
      obtain ⟨hva, href⟩ := walk_ok (by simp [howner]) hwalk
      cases o with
      | none => exact hskip hrun rfl
      | some q =>
        dsimp only at hrun
        split_ifs at hrun with hq
        · rw [pte_eq_leaf href] at hq
          injection hrun with hrun
          obtain ⟨hI', hh, hb⟩ := secondChance_spec hI href hq.1 hrun
          refine ⟨hI', hh, fun hbt => ⟨p, ?_⟩⟩
          rw [hb hbt]
          exact ⟨hp, hc.1, hc.2.1, hc.2.2.1, hva, hq.1, hq.2⟩
        · exact hskip hrun rfl
    · exact hskip hrun rfl

lemma Hinted.attached (hh : k.Hinted k') (ha : k.Attached) : k'.Attached := by
  unfold Attached
  rw [hh.proc, hh.owner]
  exact ha

/-- The clock hand is only a hint. -/
theorem hinted_clockHand (k : Kernel σ) (hand : Fin NUM_FRAMES) :
    k.Hinted { k with clockHand := hand } :=
  ⟨rfl, fun _ => ⟨rfl, rfl, rfl, rfl⟩, rfl, fun _ _ => rfl⟩

lemma clockLoop_spec {level : Option ℤ} (n : ℕ) : ∀ {k k' : Kernel σ} {o},
    k.core.Inv h → k.Attached → k.clockLoop level n = .ok (o, k') →
    k'.core.Inv h ∧ k.Hinted k' ∧ ∀ i ∈ o, ∃ p, k'.EvictableBy i p := by
  induction n with
  | zero =>
    intro k k' o hI ha hrun
    cases hrun
    exact ⟨hI, .refl k, by simp⟩
  | succ n ih =>
    intro k k' o hI ha hrun
    unfold clockLoop at hrun
    obtain ⟨⟨found, k1⟩, hinspect, hrun⟩ := bind_eq_ok.mp hrun
    have hhand := hinted_clockHand k (k.clockHand + 1)
    obtain ⟨hI1, hh1, hfound⟩ :=
      inspect_spec (k := { k with clockHand := k.clockHand + 1 }) hI (hhand.attached ha) hinspect
    dsimp only at hrun
    split_ifs at hrun with hf
    · cases hrun
      refine ⟨hI1, hhand.trans hh1, fun i hi => ?_⟩
      cases hi
      exact hfound hf
    · obtain ⟨hI', hh', ho⟩ := ih hI1 ((hhand.trans hh1).attached ha) hrun
      exact ⟨hI', (hhand.trans hh1).trans hh', ho⟩

/-- `get_victim` returns a frame that may be evicted, and changes only hints. -/
theorem getVictim_spec (hI : k.core.Inv h) (ha : k.Attached) (hrun : k.getVictim = .ok (i, k')) :
    k'.core.Inv h ∧ k.Hinted k' ∧ ∃ p, k'.EvictableBy i p := by
  unfold getVictim at hrun
  split_ifs at hrun with hlow
  obtain ⟨⟨o, k1⟩, hloop, hrun⟩ := bind_eq_ok.mp hrun
  obtain ⟨hI1, hh1, ho⟩ := clockLoop_spec _ hI ha hloop
  cases o with
  | some idx =>
    cases hrun
    exact ⟨hI1, hh1, ho i rfl⟩
  | none =>
    obtain ⟨⟨o, k2⟩, hloop, hrun⟩ := bind_eq_ok.mp hrun
    obtain ⟨hI2, hh2, ho⟩ := clockLoop_spec _ hI1 (hh1.attached ha) hloop
    cases o with
    | some idx =>
      cases hrun
      exact ⟨hI2, hh1.trans hh2, ho i rfl⟩
    | none => cases hrun

/-! ## `kalloc_user` -/

lemma pa_ne_zero (hI : k.core.Inv h) (hi : (k.frametable i).inUse ≠ .free) :
    (k.frametable i).pa ≠ 0 := fun heq =>
  hI.pages.null (.frame i) ⟨hi, heq⟩

/-- What `kalloc_user` knows of the victim that it has picked: the frame `i` holds the page `v` of
the table rooted at `r`, whose entry is at `q`. -/
structure Victim (k : Kernel σ) (i : Fin NUM_FRAMES) (p : ProcId) (q : ℕ × ℕ) (r v : ℕ) : Prop where
  ref : k.core.leafRef r v = some q
  resides : Resides k.frametable k.core.leaf (r, v) i
  owner : k.owner r = some p
  table : (k.proc p).pagetable = r
  evictee : k.Evictee p

/-- One round is enough to pick a victim: what `get_victim` returns is mapped. -/
theorem pickVictim_spec (hI : k.core.Inv {}) (ha : k.Attached) {n : ℕ}
    (hrun : k.pickVictim (n + 1) = .ok ((i, p, q), k')) :
    ∃ k1 r v, k.getVictim = .ok (i, k1) ∧ k1.core.Inv {} ∧ k.Hinted k1 ∧
      k1.Victim i p q r v ∧
      k' = (k1.setPte q (k1.pte q).clearV).setFrame i
        { k1.frametable i with inUse := .pinned } := by
  unfold pickVictim at hrun
  obtain ⟨⟨slot, k1⟩, hvictim, hrun⟩ := bind_eq_ok.mp hrun
  obtain ⟨hI1, hh1, vp, hev⟩ := getVictim_spec hI ha hvictim
  have howner : k1.owner (k1.proc vp).pagetable = some vp := (hh1.attached ha) vp hev.pagetable
  dsimp only at hrun
  rw [hev.owner] at hrun
  dsimp only at hrun
  rw [if_neg (by
    rintro (h0 | h0)
    · exact hev.pagetable h0
    · exact pa_ne_zero hI1 (by simp [hev.used]) h0), walk_eq (by simp [howner]) hev.va_lt] at hrun
  cases href : k1.core.leafRef (k1.proc vp).pagetable ((k1.frametable slot).va / PGSIZE) with
  | none =>
    have := hev.valid
    rw [Core.leaf_eq_of_none href] at this
    cases this
  | some q' =>
    rw [href] at hrun
    have hpte := pte_eq_leaf href
    change (if (k1.pte q').flags.v = false ∨ (k1.pte q').num ≠ (k1.frametable slot).pa then _
      else _) = _ at hrun
    rw [hpte, if_neg (by simp [hev.valid, hev.num])] at hrun
    injection hrun with hrun
    simp only [Prod.mk.injEq] at hrun
    obtain ⟨⟨rfl, rfl, rfl⟩, rfl⟩ := hrun
    have hlt : (k1.frametable slot).va / PGSIZE < USER_TOP := by
      -- no frame is held, so this one has a user page
      have hused : (k1.frametable slot).inUse ≠ .free := by simp [hev.used]
      obtain ⟨a, hres⟩ := (hI1.frames.cells.covered slot hused).resolve_left (by simp)
      have hva : (k1.frametable slot).va = a.2 * PGSIZE := (hI1.frames.owned a slot hres).2
      rw [hva, Nat.mul_div_cancel _ (by decide)]
      exact hres.1
    refine ⟨k1, _, _, hvictim, hI1, hh1, ⟨href, ⟨hlt, hev.valid, hev.num, by simp [hev.used]⟩,
      howner, rfl, hev.evictee⟩, ?_⟩
    simp only [hpte, hev.owner]

/-- What `kalloc_user` returns: the frame `i` for the page at `va` of `p`, which is held, with every
abstract page as it was. -/
structure Allocated (D : SwapDev σ) (k : Kernel σ) (va : ℕ) (p : ProcId) (pa : ℕ) (k' : Kernel σ)
    (i : Fin NUM_FRAMES) : Prop where
  inv : k'.core.Inv ⟨some i, none, none⟩
  frame : k'.frametable i = userFrame va p pa
  page : k'.page D = k.page D
  same : k.Same k'
  leafRef : k'.core.leafRef = k.core.leafRef
  /-- Only pages of the tables of processes are evicted. -/
  unattached : ∀ r v, (∀ p, (k.proc p).pagetable ≠ r) →
    (k'.core.leaf r v).flags.s = (k.core.leaf r v).flags.s

/-- Storing into a page that no user page maps changes no abstract page. -/
theorem page_setMem {pg : Page}
    (hne : ∀ r v, v < USER_TOP → (k.core.leaf r v).flags.v = true → (k.core.leaf r v).num ≠ pa) :
    (k.setMem pa pg).page D = k.page D := by
  funext r v
  refine page_congr Iff.rfl ⟨rfl, rfl, rfl, fun _ => rfl⟩ (fun hlt hv => ?_) fun _ _ _ => rfl
  exact update_of_ne (hne r v hlt hv) _ _

lemma takeSlot_eq_some {j : ℕ} (h : k.takeSlot p = some (j, k')) : j < MAX_SWAP_PAGES ∧
    (k.swaptable j).inUse = false ∧ k' = k.setSlot j { inUse := true, p := some p } := by
  unfold takeSlot at h
  obtain ⟨slot, hfree, heq⟩ := Option.map_eq_some_iff.mp h
  injection heq with hslot hk
  subst hslot
  exact ⟨findFreeSlot_lt hfree, findFreeSlot_free hfree, hk.symm⟩

lemma swapOut_ok (h : k.swapOut D p q pa = .ok k') : ∃ j dev f, j < MAX_SWAP_PAGES ∧
    (k.swaptable j).inUse = false ∧ D.write k.noff j (k.mem pa) k.dev = .ok dev ∧
    k' = { ((k.setSlot j { inUse := true, p := some p }).setPte q
      (.toSwap j (k.pte q).flags)).count p f with dev := dev } := by
  unfold swapOut at h
  cases htake : k.takeSlot p with
  | none =>
    rw [htake] at h
    cases h
  | some res =>
    obtain ⟨j, k1⟩ := res
    rw [htake] at h
    obtain ⟨hj, hfree, rfl⟩ := takeSlot_eq_some htake
    obtain ⟨dev, hwrite, heq⟩ := bind_eq_ok.mp h
    injection heq with heq
    exact ⟨j, dev, _, hj, hfree, hwrite, heq.symm⟩

/-- The ownership state after the page `v` in the frame `i` has gone to the slot `j` and the frame
has been given to another page. -/
theorem evict_core {c : Core} (hI : c.Inv {}) (hq : c.leafRef r v = some q)
    (hres : Resides c.frametable c.leaf (r, v) i) {j : ℕ} (hj : j < MAX_SWAP_PAGES)
    (hfree : (c.swaptable j).inUse = false) (howner : c.owner r = some p) {g : Frame}
    (hused : g.inUse = .used) (hpa : g.pa = (c.frametable i).pa) :
    let e := Pte.toSwap j (c.leaf r v).flags
    let c' := ((c.setSlot j { inUse := true, p := some p }).setPte q e).setFrame i g
    c'.Inv ⟨some i, none, none⟩ ∧ c'.leafRef = c.leafRef ∧ c'.leaf = setAt c.leaf r v e ∧
      (∀ r' v', v' < USER_TOP → (c'.leaf r' v').flags.v = true →
        (c'.leaf r' v').num ≠ (c.frametable i).pa) ∧
      ∀ r' v', (c.leaf r' v').flags.s = true → (c.leaf r' v').num ≠ j := by
  intro e c'
  have hI1 := hI.unmapFrame hq hres
  have hI2 := hI1.takeSlot (w := { inUse := true, p := some p }) hfree rfl
  have href2 : ((c.setPte q {}).setSlot j { inUse := true, p := some p }).leafRef r v = some q :=
    (hI.pages.leafRef_setPte hq r v).trans hq
  have hleaf2 : ((c.setPte q {}).setSlot j { inUse := true, p := some p }).leaf r v = {} := by
    change (c.setPte q {}).leaf r v = {}
    rw [hI.pages.leaf_setPte hq, setAt_self]
  have hI3 := hI2.mapSlot (e := e) href2 hj hres.1 hleaf2 rfl rfl rfl
    (by simpa [Core.setSlot, Core.setPte] using howner.symm)
  have heq : ((c.setPte q {}).setSlot j { inUse := true, p := some p }).setPte q e =
      (c.setSlot j { inUse := true, p := some p }).setPte q e :=
    Core.setPte_setPte (c := c.setSlot j { inUse := true, p := some p }) q {} e
  rw [heq] at hI3
  have hI4 : c'.Inv ⟨some i, none, none⟩ := hI3.reassignFrame hused hpa
  refine ⟨hI4, ?_, ?_, fun r' v' hlt hv' => ?_, fun r' v' hs => ?_⟩
  · funext r' v'
    exact hI.pages.leafRef_setPte hq r' v'
  · exact hI.pages.leaf_setPte hq
  · exact hI3.num_ne_frame hlt hv'
  · rintro rfl
    have := hI.slots.cells.ref_used (r', v') _ ⟨hs, rfl⟩
    simp [hfree] at this

/-- What an eviction does if it does not panic: the page `v` of the table rooted at `r` goes from
the frame `i` to the slot `j`, and the frame to the page at `va`. -/
theorem evictFor_ok (hI : k.core.Inv {}) (ha : k.Attached)
    (hrun : k.evictFor D va p = .ok (pa, k')) : ∃ i vp q r v j k1 stats dev,
      k.acquire.getVictim = .ok (i, k1) ∧ k1.core.Inv {} ∧ k.acquire.Hinted k1 ∧
      k1.Victim i vp q r v ∧ j < MAX_SWAP_PAGES ∧ (k1.swaptable j).inUse = false ∧
      D.write (k1.noff - 1) j (k1.mem pa) k1.dev = .ok dev ∧ pa = (k1.frametable i).pa ∧
      k' = { k1 with
        frametable := update k1.frametable i (userFrame va p pa)
        swaptable := update k1.swaptable j { inUse := true, p := some vp }
        ptes := (k1.core.setPte q (.toSwap j (k1.core.leaf r v).flags)).ptes
        mem := update k1.mem pa (Page.fill 5)
        stats := stats
        dev := dev
        noff := k1.noff - 1 } := by
  unfold evictFor at hrun
  obtain ⟨⟨⟨i, vp, q⟩, k0⟩, hpick, hrun⟩ := bind_eq_ok.mp hrun
  obtain ⟨k1, r, v, hvictim, hI1, hh, hv, rfl⟩ := pickVictim_spec (k := k.acquire) hI ha hpick
  obtain ⟨k2, hswap, hrun⟩ := bind_eq_ok.mp hrun
  obtain ⟨j, dev, f, hj, hfree, hwrite, rfl⟩ := swapOut_ok hswap
  injection hrun with hrun
  injection hrun with hpa hk
  rw [hpa] at hwrite
  refine ⟨i, vp, q, r, v, j, k1, k'.stats, dev, hvictim, hI1, hh, hv, hj, hfree, hwrite,
    by rw [← hpa]; simp [setFrame], ?_⟩
  rw [← hk, ← hpa, ← pte_eq_leaf hv.ref]
  simp [core, setFrame, setPte, setSlot, pte, count, countResident, setMem, acquire, release,
    Core.setPte, Pte.toSwap, Pte.clearV]

lemma evictFor_spec (hI : k.core.Inv {}) (ha : k.Attached)
    (hrun : k.evictFor D va p = .ok (pa, k')) : ∃ i, Allocated D k va p pa k' i := by
  obtain ⟨i, vp, q, r, v, j, k1, stats, dev, -, hI1, hh, hv, hj, hfree, hwrite, hpa1, hk⟩ :=
    evictFor_ok hI ha hrun
  obtain ⟨hInv, href, hleaf, hnum, hslot⟩ := evict_core (g := userFrame va p pa) hI1 hv.ref
    hv.resides hj hfree hv.owner rfl hpa1
  have hcore : k'.core = ((k1.core.setSlot j { inUse := true, p := some vp }).setPte q
      (.toSwap j (k1.core.leaf r v).flags)).setFrame i (userFrame va p pa) := by
    rw [hk]
    rfl
  have hmem : k'.mem = update k1.mem pa (Page.fill 5) := by rw [hk]
  have hstored : D.slotBytes k'.dev =
      update (D.slotBytes k1.dev) j (D.seen (k1.mem pa)) := by
    rw [hk]
    exact SwapDev.slotBytes_write hj hwrite
  have hpage : k'.page D = k1.page D := by
    funext r' v'
    by_cases hrv : r' = r ∧ v' = v
    · -- the page that was evicted
      obtain ⟨rfl, rfl⟩ := hrv
      have hleaf' : k'.core.leaf r' v' = .toSwap j (k1.core.leaf r' v').flags := by
        rw [hcore, hleaf, setAt_self]
      rw [page_of_valid hv.resides.1 hv.resides.2.1,
        page_of_swapped hv.resides.1 (by rw [hleaf']; rfl)
        (by rw [hleaf']; rfl), hleaf', hstored, hv.resides.2.2.1, ← hpa1]
      simp [Pte.toSwap, UPage.ofFlags]
    · have hleaf' : k'.core.leaf r' v' = k1.core.leaf r' v' := by
        rw [hcore, hleaf, setAt, if_neg hrv]
      refine page_congr Iff.rfl (by simp [hleaf']) (fun hlt hvalid => ?_) fun _ _ hs => ?_
      · rw [hmem, hpa1]
        refine update_of_ne ?_ _ _
        rw [← hleaf', hcore]
        exact hnum r' v' hlt (by rw [← hcore, hleaf']; exact hvalid)
      · rw [hstored]
        exact update_of_ne (hslot r' v' hs) _ _
  have hfixed : k'.nextpid = k.nextpid ∧ k'.initproc = k.initproc ∧ k'.managed = k.managed ∧
      k'.kernelEnd = k.kernelEnd ∧ k'.noff = k.noff := by
    rw [hk, hh.eq]
    exact ⟨rfl, rfl, rfl, rfl, Nat.add_sub_cancel ..⟩
  obtain ⟨hnextpid, hinitproc, hmanaged, hend, hnoff⟩ := hfixed
  refine ⟨i, by rw [hcore]; exact hInv, by rw [hk]; exact update_self .., hpage.trans hh.page,
    .mk (by rw [hk]; exact hh.proc) (by rw [hk]; exact hh.owner) (fun r' v' hle => ?_) hnoff
      hnextpid hinitproc hmanaged hend, by rw [hcore, href]; exact hh.leafRef,
    fun r' v' hun => ?_⟩
  · have hne : ¬ (r' = r ∧ v' = v) := fun hrv => absurd hv.resides.1 (by simpa [← hrv.2] using hle)
    rw [hcore, hleaf, setAt, if_neg hne]
    exact hh.upperBits r' v'
  · have hne : ¬ (r' = r ∧ v' = v) := by
      rintro ⟨rfl, -⟩
      refine hun vp ?_
      rw [← hv.table, hh.proc]
      rfl
    rw [hcore, hleaf, setAt, if_neg hne]
    exact (hh.leaf_fields r' v').2.2.1

lemma kalloc_some {pg : ℕ} (h : k.kalloc = (some pg, k')) : ∃ rest, k.freelist = pg :: rest ∧
    k' = { k with freelist := rest }.setMem pg (Page.fill 5) := by
  unfold kalloc at h
  cases hfree : k.freelist with
  | nil =>
    rw [hfree] at h
    cases h
  | cons pg' rest =>
    rw [hfree] at h
    cases h
    exact ⟨rest, rfl, rfl⟩

lemma kalloc_none (h : k.kalloc = (none, k')) : k' = k := by
  unfold kalloc at h
  cases hfree : k.freelist with
  | nil =>
    rw [hfree] at h
    cases h
    rfl
  | cons pg' rest =>
    rw [hfree] at h
    cases h

lemma kalloc_spec {f : Option (Fin NUM_FRAMES)} {s : Option ℕ} {pg : ℕ}
    (hI : k.core.Inv ⟨f, s, none⟩) (h : k.kalloc = (some pg, k')) :
    k'.core.Inv ⟨f, s, some pg⟩ ∧ k'.page D = k.page D ∧ k.Same k' ∧
      k'.core.leafRef = k.core.leafRef ∧ k'.core.leaf = k.core.leaf ∧
      k'.frametable = k.frametable := by
  obtain ⟨rest, hfree, rfl⟩ := kalloc_some h
  have hI' : (Kernel.core { k with freelist := rest }).Inv ⟨f, s, some pg⟩ := hI.kalloc hfree
  refine ⟨hI', ?_, .refl k, rfl, rfl, rfl⟩
  exact page_setMem (k := { k with freelist := rest }) fun r v hlt hv =>
    hI'.num_ne (u := .held) rfl (by simp) hlt hv

/-- `kalloc_user` returns a frame that nothing else uses, and leaves every abstract page as it was:
the page of the victim, if it evicts, is in a swap slot afterwards. -/
theorem kallocUser_spec (hI : k.core.Inv {}) (ha : k.Attached)
    (hrun : k.kallocUser D va p = .ok (pa, k')) : ∃ i, Allocated D k va p pa k' i := by
  unfold kallocUser at hrun
  split at hrun
  · exact evictFor_spec hI ha hrun
  · rename_i slot hslot
    have hfree : (k.frametable slot).inUse = .free := by simpa using List.find?_some hslot
    split at hrun
    · rename_i k1 hk1
      rw [kalloc_none hk1] at hrun
      exact evictFor_spec hI ha hrun
    · rename_i pa' k1 hk1
      cases hrun
      obtain ⟨hI1, hpage, hsame, href, hleaf, hft⟩ := kalloc_spec (D := D) hI hk1
      have hI2 : (k1.setFrame slot (userFrame va p pa)).core.Inv ⟨some slot, none, none⟩ :=
        hI1.newFrame (by rw [← hfree, ← hft]; rfl) rfl rfl
      refine ⟨slot, hI2, by simp [setFrame, countResident, count], hpage, hsame, href, ?_⟩
      intro r v _
      change (k1.core.leaf r v).flags.s = _
      rw [hleaf]

/-! ## `kfree_user` -/

lemma kfree_ok (h : k.kfree pa = .ok k') :
    k' = { k with freelist := pa :: k.freelist }.setMem pa (Page.fill 1) := by
  unfold kfree at h
  split_ifs at h
  injection h with h
  exact h.symm

lemma kfree_spec {f : Option (Fin NUM_FRAMES)} {s : Option ℕ} (hI : k.core.Inv ⟨f, s, some pa⟩)
    (h : k.kfree pa = .ok k') : k'.core.Inv ⟨f, s, none⟩ ∧ k'.page D = k.page D ∧ k.Same k' ∧
      k'.core.leafRef = k.core.leafRef ∧ k'.core.leaf = k.core.leaf := by
  rw [kfree_ok h]
  refine ⟨hI.kfree, ?_, .refl k, rfl, rfl⟩
  exact page_setMem (k := { k with freelist := pa :: k.freelist }) fun r v hlt hv =>
    hI.num_ne (u := .held) rfl (by simp) hlt hv

/-- `kfree_user` finds a frame by its page. It keeps the frame if it is pinned, and frees the frame
and the page otherwise. -/
theorem kfreeUser_cases {held : Option ℕ} (hP : k.core.PagesOk held)
    (hused : (k.frametable i).inUse ≠ .free) (hpa : (k.frametable i).pa = pa)
    (h : k.kfreeUser pa = .ok k') :
    ((k.frametable i).inUse = .pinned ∧ k' = k) ∨ (k.setFrame i {}).kfree pa = .ok k' ∨
      ∃ p g, ((k.setFrame i {}).count p g).kfree pa = .ok k' := by
  unfold kfreeUser at h
  split at h
  · rename_i hnone
    have := List.find?_eq_none.mp hnone i (List.mem_finRange i)
    simp [hused, hpa] at this
  · rename_i j hj
    have hj' : (k.frametable j).inUse ≠ .free ∧ (k.frametable j).pa = pa := by
      simpa using List.find?_some hj
    obtain rfl : j = i := hP.pa_inj hused hj'.1 (hj'.2.trans hpa.symm)
    split_ifs at h with hpin
    · cases h
      exact .inl ⟨hpin, rfl⟩
    · dsimp only at h
      split at h
      · exact .inr (.inl h)
      · exact .inr (.inr ⟨_, _, h⟩)

lemma kfreeUser_spec (hI : k.core.Inv ⟨some i, none, none⟩) (hpa : (k.frametable i).pa = pa)
    (h : k.kfreeUser pa = .ok k') : k'.core.Inv {} ∧ k'.page D = k.page D ∧
      k.Same k' ∧ k'.core.leafRef = k.core.leafRef ∧ k'.core.leaf = k.core.leaf := by
  have hI1 : (k.setFrame i {}).core.Inv ⟨none, none, some pa⟩ := by
    rw [← hpa]
    exact hI.freeFrame
  rcases kfreeUser_cases hI.pages (hI.frames.cells.held_used i rfl) hpa h with ⟨hpin, -⟩ | hfree |
    ⟨p, g, hfree⟩
  · exact absurd hpin (hI.frames.notPinned i)
  · have hspec := kfree_spec (D := D) hI1 hfree
    exact hspec
  · have hspec := kfree_spec (D := D) (k := (k.setFrame i {}).count p g) hI1 hfree
    exact hspec

/-! ## `swap_in` -/

lemma freeSwapSlot_eq {j : ℕ} (hj : j < MAX_SWAP_PAGES) (hused : (k.swaptable j).inUse = true) :
    k.freeSwapSlot j = k.setSlot j {} := by
  unfold freeSwapSlot
  rw [if_neg (by omega), if_neg (by simp [hused])]

/-- The ownership state after the swapped-out page `v` has come back into the held frame. -/
theorem restore_core {c : Core} (hI : c.Inv ⟨some i, none, none⟩) (hq : c.leafRef r v = some q)
    {j : ℕ} (hs : Swapped c.leaf (r, v) j) (hp : (c.frametable i).p = c.owner r)
    (hva : (c.frametable i).va = v * PGSIZE) (hpa : (c.frametable i).pa = pa) :
    ((c.setSlot j {}).setPte q (.toFrame pa (c.leaf r v).flags)).Inv {} := by
  have hI1 := (hI.unmapSlot hq hs).freeSlot
  have hlt : v < USER_TOP := (hI.slots.swapped (r, v) j hs).2.1
  have href1 : ((c.setPte q {}).setSlot j {}).leafRef r v = some q :=
    (hI.pages.leafRef_setPte hq r v).trans hq
  have hleaf1 : ((c.setPte q {}).setSlot j {}).leaf r v = {} := by
    change (c.setPte q {}).leaf r v = {}
    rw [hI.pages.leaf_setPte hq, setAt_self]
  have hI2 := hI1.mapFrame (e := .toFrame pa (c.leaf r v).flags) href1 hlt hleaf1 rfl rfl hpa.symm
    hp hva
  rwa [show ((c.setPte q {}).setSlot j {}).setPte q (.toFrame pa (c.leaf r v).flags) =
    (c.setSlot j {}).setPte q (.toFrame pa (c.leaf r v).flags) from
    Core.setPte_setPte (c := c.setSlot j {}) q {} _] at hI2

lemma raidRead_ok {j : ℕ} (hj : j < MAX_SWAP_PAGES)
    (h : k.raidRead D j pa = .ok k') : ∃ dev pg, D.slotBytes dev = D.slotBytes k.dev ∧
      D.seen pg = D.slotBytes k.dev j ∧ k' = { k with dev := dev }.setMem pa pg := by
  unfold raidRead at h
  obtain ⟨⟨pg, dev⟩, hread, h⟩ := bind_eq_ok.mp h
  obtain ⟨hpg, hdev⟩ := SwapDev.slotBytes_read hj hread
  injection h with h
  exact ⟨dev, pg, hdev, hpg, h.symm⟩

@[simp]
lemma mul_pgsize_div (v : ℕ) : v * PGSIZE / PGSIZE = v := Nat.mul_div_cancel _ (by decide)

@[simp]
lemma pgrounddown_mul (v : ℕ) : pgrounddown (v * PGSIZE) = v * PGSIZE := by
  rw [pgrounddown, mul_pgsize_div]

/-- `swap_in` of a swapped-out page of `p` into the held frame changes no abstract page. -/
theorem swapIn_spec (hI : k.core.Inv ⟨some i, none, none⟩)
    (htable : (k.proc p).pagetable = r) (howner : k.owner r = some p)
    (hframe : k.frametable i = userFrame (v * PGSIZE) p pa)
    (hs : (k.core.leaf r v).flags.s = true) (hrun : k.swapIn D p (v * PGSIZE) pa = .ok k') :
    k'.core.Inv {} ∧ k'.page D = k.page D ∧ k.Same k' ∧
      k'.core.leafRef = k.core.leafRef ∧ (k'.core.leaf r v).flags.v = true ∧
      (k'.core.leaf r v).num = pa := by
  unfold swapIn at hrun
  rw [htable] at hrun
  obtain ⟨o, hwalk, hrun⟩ := bind_eq_ok.mp hrun
  obtain ⟨-, href⟩ := walk_ok (by simp [howner]) hwalk
  rw [mul_pgsize_div] at href
  cases o with
  | none => cases hrun
  | some q =>
    have hpte := pte_eq_leaf href
    have hsw : Swapped k.core.leaf (r, v) (k.core.leaf r v).num := ⟨hs, rfl⟩
    obtain ⟨hnv, hlt, hj⟩ := hI.slots.swapped (r, v) _ hsw
    have hpa : (k.frametable i).pa = pa := by rw [hframe]; rfl
    dsimp only at hrun
    rw [hpte, if_neg (by omega)] at hrun
    obtain ⟨k1, hread, hrun⟩ := bind_eq_ok.mp hrun
    obtain ⟨dev, pg, hdev, hpg, rfl⟩ := raidRead_ok hj hread
    have hslot := freeSwapSlot_eq (k := Kernel.setMem { k with dev := dev } pa pg) hj
      (hI.slots.cells.ref_used (r, v) _ hsw)
    rw [hslot] at hrun
    injection hrun with hrun
    have hcore : k'.core = (k.core.setSlot (k.core.leaf r v).num {}).setPte q
        (.toFrame pa (k.core.leaf r v).flags) := by
      rw [← hrun, ← hpte]
      rfl
    have hleaf : k'.core.leaf = setAt k.core.leaf r v (.toFrame pa (k.core.leaf r v).flags) := by
      rw [hcore]
      exact hI.pages.leaf_setPte href
    have hmem : k'.mem = update k.mem pa pg := by
      rw [← hrun]
      rfl
    have hstored : D.slotBytes k'.dev = D.slotBytes k.dev := by
      rw [← hrun]
      exact hdev
    have hself : k'.core.leaf r v = .toFrame pa (k.core.leaf r v).flags := by
      rw [hleaf, setAt_self]
    have hpage : k'.page D = k.page D := by
      funext r' v'
      by_cases hrv : r' = r ∧ v' = v
      · rw [hrv.1, hrv.2, page_of_swapped hlt hnv hs, page_of_valid hlt (by rw [hself]; rfl), hself,
          hmem]
        simp [Pte.toFrame, UPage.ofFlags, hpg]
      · have hleaf' : k'.core.leaf r' v' = k.core.leaf r' v' := by
          rw [hleaf, setAt, if_neg hrv]
        refine page_congr Iff.rfl (by simp [hleaf']) (fun hlt' hv' => ?_) fun _ _ _ => ?_
        · rw [hmem, ← hpa]
          exact update_of_ne (hI.num_ne_frame hlt' hv') _ _
        · rw [hstored]
    have hupper : ∀ r' v', USER_TOP ≤ v' →
        upperBits (k'.core.leaf r' v') = upperBits (k.core.leaf r' v') := by
      intro r' v' hle
      have hne : ¬ (r' = r ∧ v' = v) := fun hrv => absurd hlt (by simpa [← hrv.2] using hle)
      rw [hleaf, setAt, if_neg hne]
    refine ⟨?_, hpage, ?_, ?_, by rw [hself]; rfl, by rw [hself]; rfl⟩
    · rw [hcore]
      have hp : (k.frametable i).p = k.owner r := by
        rw [hframe, howner]
        rfl
      have hva : (k.frametable i).va = v * PGSIZE := by
        rw [hframe]
        exact pgrounddown_mul v
      exact restore_core hI href hsw hp hva hpa
    · subst hrun
      exact .mk rfl rfl hupper rfl rfl rfl rfl rfl
    · funext r' v'
      rw [hcore]
      exact hI.pages.leafRef_setPte href r' v'

end Kernel

end Xv6.VM
