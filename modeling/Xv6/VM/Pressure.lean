import Xv6.VM.VmSpec

/-!
# Memory pressure

`kalloc_user` takes a free frame if there is one and evicts a page otherwise. This module says when
it evicts (`NeedsVictim`), what the two cases do to the frame table, and that in a consistent state
the choice of a victim fails only with the panics of `get_victim`.
-/

namespace Xv6.VM.Kernel

open Fallible Function List

variable {σ : Type} {D : SwapDev σ} {k k' k'' : Kernel σ} {h : Held} {i j : Fin NUM_FRAMES}
  {p : ProcId} {r v va pa : ℕ} {q : ℕ × ℕ}

/-! ## When a page is evicted -/

/-- `kalloc_user` has to evict: the frame table is full, or no physical page is free. -/
def NeedsVictim (k : Kernel σ) : Prop :=
  (∀ i, (k.frametable i).inUse ≠ .free) ∨ k.freelist = []
  deriving Decidable

lemma kallocUser_of_needsVictim (hneed : k.NeedsVictim) :
    k.kallocUser D va p = k.evictFor D va p := by
  unfold kallocUser
  rcases hneed with hfull | hempty
  · have hnone : (List.finRange NUM_FRAMES).find?
        (fun i => decide ((k.frametable i).inUse = .free)) = none := by
      rw [List.find?_eq_none]
      intro i _
      simpa using hfull i
    rw [hnone]
  · split
    · rfl
    · unfold kalloc
      rw [hempty]

/-- Without pressure a free frame gets the first free page. -/
theorem kallocUser_of_room (D : SwapDev σ) (va : ℕ) (p : ProcId) (hroom : ¬k.NeedsVictim) :
    ∃ i pg rest, (k.frametable i).inUse = .free ∧ k.freelist = pg :: rest ∧
      k.kallocUser D va p = .ok (pg, ((Kernel.setMem { k with freelist := rest } pg
        (Page.fill 5)).setFrame i (userFrame va p pg)).countResident p) := by
  obtain ⟨hframe, hfree⟩ := not_or.mp hroom
  obtain ⟨j, hj⟩ := not_forall.mp hframe
  obtain ⟨pg, rest, hlist⟩ := exists_cons_of_ne_nil hfree
  unfold kallocUser kalloc
  cases hfind : (List.finRange NUM_FRAMES).find?
      (fun i => decide ((k.frametable i).inUse = .free)) with
  | none =>
    have hused := List.find?_eq_none.mp hfind j (mem_finRange j)
    exact absurd (not_not.mp hj) (by simpa using hused)
  | some i =>
    refine ⟨i, pg, rest, by simpa using List.find?_some hfind, hlist, ?_⟩
    rw [hlist]

/-- What `kalloc_user` does to the frame table: one frame becomes that of the page at `va` of `p`.
It was free, or it is the one that `get_victim` chose. -/
structure FrameTaken (k : Kernel σ) (va : ℕ) (p : ProcId) (pa : ℕ) (k' : Kernel σ)
    (i : Fin NUM_FRAMES) : Prop where
  frame : k'.frametable i = userFrame va p pa
  other : ∀ j, j ≠ i → (k'.frametable j).inUse = (k.frametable j).inUse ∧
    (k'.frametable j).p = (k.frametable j).p ∧ (k'.frametable j).va = (k.frametable j).va ∧
    (k'.frametable j).pa = (k.frametable j).pa
  choice : (k.frametable i).inUse = .free ∨
    k.NeedsVictim ∧ ∃ k1, k.acquire.getVictim = .ok (i, k1) ∧ pa = (k.frametable i).pa

lemma evictFor_frame (hI : k.core.Inv {}) (ha : k.Attached)
    (hneed : k.NeedsVictim) (hrun : k.evictFor D va p = .ok (pa, k')) :
    ∃ i, FrameTaken k va p pa k' i := by
  obtain ⟨i, vp, q, r, v, j, k1, stats, dev, hvictim, -, hh, -, -, -, -, hpa, rfl⟩ :=
    evictFor_ok hI ha hrun
  refine ⟨i, update_self .., fun j hj => ?_, .inr ⟨hneed, k1, hvictim, ?_⟩⟩
  · dsimp only
    rw [update_of_ne hj]
    exact hh.frames j
  · rw [hpa]
    exact (hh.frames i).2.2.2

lemma kallocUser_frame (hI : k.core.Inv {}) (ha : k.Attached)
    (hrun : k.kallocUser D va p = .ok (pa, k')) : ∃ i, FrameTaken k va p pa k' i := by
  by_cases hneed : k.NeedsVictim
  · rw [kallocUser_of_needsVictim hneed] at hrun
    exact evictFor_frame hI ha hneed hrun
  · obtain ⟨i, pg, rest, hfree, -, heq⟩ := kallocUser_of_room D va p hneed
    rw [heq] at hrun
    cases hrun
    refine ⟨i, update_self .., fun j hj => ?_, .inl hfree⟩
    have hsame : (((Kernel.setMem { k with freelist := rest } pa (Page.fill 5)).setFrame i
        (userFrame va p pa)).countResident p).frametable j = k.frametable j :=
      update_of_ne hj ..
    rw [hsame]
    exact ⟨rfl, rfl, rfl, rfl⟩

/-! ## The frame table after a fault -/

lemma swapIn_frametable (hrun : k.swapIn D p va pa = .ok k') : k'.frametable = k.frametable := by
  unfold swapIn at hrun
  obtain ⟨o, -, hrun⟩ := bind_eq_ok.mp hrun
  cases o with
  | none => cases hrun
  | some q =>
    dsimp only at hrun
    split_ifs at hrun
    obtain ⟨k1, hread, hrun⟩ := bind_eq_ok.mp hrun
    obtain ⟨⟨pg, dev⟩, -, hread⟩ := bind_eq_ok.mp hread
    cases hread
    cases hrun
    unfold freeSwapSlot
    split_ifs <;> rfl

/-- `kfree_user` of the page of the held frame frees that frame. -/
theorem kfreeUser_frametable (hI : k.core.Inv ⟨some i, none, none⟩) (hpa : (k.frametable i).pa = pa)
    (hrun : k.kfreeUser pa = .ok k') : k'.frametable = update k.frametable i {} := by
  rcases kfreeUser_cases hI.pages (hI.frames.cells.held_used i rfl) hpa hrun with
    ⟨hpin, -⟩ | hfree | ⟨p, g, hfree⟩
  · exact absurd hpin (hI.frames.notPinned i)
  · rw [kfree_ok hfree]
    rfl
  · rw [kfree_ok hfree]
    rfl

/-- Mapping zeros leaves the held frame as it is, or frees it if the page cannot be mapped. -/
theorem mapZeros_frame {pa' : ℕ} (hI : k.core.Inv ⟨some i, none, none⟩)
    (hr : (k.owner (k.proc p).pagetable).isSome) (hpa : (k.frametable i).pa = pa)
    (hrun : k.mapZeros p (v * PGSIZE) pa = .ok (pa', k')) :
    (∀ j, j ≠ i → k'.frametable j = k.frametable j) ∧
      (k'.frametable i = k.frametable i ∨ k'.frametable i = {}) := by
  unfold mapZeros at hrun
  obtain ⟨⟨mapped, k2⟩, hmap, hrun⟩ := bind_eq_ok.mp hrun
  obtain ⟨o, k1, hwalk, hcases⟩ := mappages_one hmap
  obtain ⟨-, hP1, hgrown, -⟩ := walkAlloc_spec (k := k.setMem pa 0) hI.pages hr hwalk
  have hI1 := hgrown.inv (k := k.setMem pa 0) hI hP1
  have hft1 : k1.frametable = k.frametable := hgrown.frametable
  rcases hcases with ⟨-, rfl, rfl⟩ | ⟨q, -, -, rfl, rfl⟩
  · -- the page could not be mapped, and its frame is freed
    obtain ⟨k3, hfree, hrun⟩ := bind_eq_ok.mp hrun
    cases hrun
    have hft3 := kfreeUser_frametable hI1 (by rw [hft1, hpa]) hfree
    refine ⟨fun j hj => ?_, .inr ?_⟩
    · rw [hft3, update_of_ne hj, hft1]
    · rw [hft3, update_self]
  · cases hrun
    exact ⟨fun j _ => congrFun hft1 j, .inl (congrFun hft1 i)⟩

/-- What a fault of `p` does to the frame table: nothing, or it takes one frame. -/
structure FaultTaken (k : Kernel σ) (va : ℕ) (p : ProcId) (k' : Kernel σ) (i : Fin NUM_FRAMES) :
    Prop where
  lt_sz : va < (k.proc p).sz
  invalid : (k.core.leaf (k.proc p).pagetable (va / PGSIZE)).flags.v = false
  frame : (k'.frametable i).p = some p ∨ (k'.frametable i).p = none
  other : ∀ j, j ≠ i → (k'.frametable j).inUse = (k.frametable j).inUse ∧
    (k'.frametable j).p = (k.frametable j).p ∧ (k'.frametable j).va = (k.frametable j).va ∧
    (k'.frametable j).pa = (k.frametable j).pa
  choice : (k.frametable i).inUse = .free ∨
    k.NeedsVictim ∧ ∃ k1, k.acquire.getVictim = .ok (i, k1)

lemma vmfault_frame (hI : k.core.Inv {}) (ha : k.Attached)
    (howner : k.owner (k.proc p).pagetable = some p)
    (hrun : k.vmfault D p (k.proc p).pagetable va = .ok (pa, k')) :
    k'.frametable = k.frametable ∨ ∃ i, FaultTaken k va p k' i := by
  have hr : (k.owner (k.proc p).pagetable).isSome := by simp [howner]
  rcases vmfault_ok hI ha hr hrun with
    ⟨-, -, rfl | rfl⟩ | ⟨hsz, hnv, pa1, k1, i', halloc, hal, hrun⟩
  · exact .inl rfl
  · exact .inl rfl
  obtain ⟨i, htaken⟩ := kallocUser_frame hI ha halloc
  -- both lemmas speak about the frame of the new page
  obtain rfl : i' = i := by
    have hi : k1.core.frametable i = userFrame (va / PGSIZE * PGSIZE) p pa1 := htaken.frame
    have hi' : k1.core.frametable i' = userFrame (va / PGSIZE * PGSIZE) p pa1 := hal.frame
    refine hal.inv.pages.pa_inj ?_ ?_ ?_
    · rw [hi]
      simp [userFrame]
    · rw [hi']
      simp [userFrame]
    · rw [hi, hi']
  have htail : (∀ j, j ≠ i' → k'.frametable j = k1.frametable j) ∧
      (k'.frametable i' = k1.frametable i' ∨ k'.frametable i' = {}) := by
    split_ifs at hrun
    · obtain ⟨-, k2, hswap, rfl⟩ := hrun
      have hft : k2.frametable = k1.frametable := swapIn_frametable hswap
      exact ⟨fun j _ => congrFun hft j, .inl (congrFun hft i')⟩
    · exact mapZeros_frame hal.inv (by rw [hal.same.proc, hal.same.owner]; exact hr)
        (by rw [htaken.frame]; rfl) hrun
  refine .inr ⟨i', hsz, hnv, ?_, fun j hj => ?_, ?_⟩
  · rcases htail.2 with heq | heq
    · rw [heq, htaken.frame]
      exact .inl rfl
    · rw [heq]
      exact .inr rfl
  · rw [htail.1 j hj]
    exact htaken.other j hj
  · exact htaken.choice.imp_right fun ⟨hneed, k2, hvictim, _⟩ => ⟨hneed, k2, hvictim⟩

/-! ## When no page can be evicted -/

/-- The panics of `get_victim`. -/
def victimMessages : List String :=
  ["get_victim: no valid frames to evict", "get_victim: no victim found"]

/-- In a consistent state a round of `get_victim` does not panic. -/
theorem inspect_ok (hI : k.core.Inv {}) (ha : k.Attached) (level : Option ℤ)
    (i : Fin NUM_FRAMES) : ∃ x, k.inspect level i = .ok x := by
  unfold inspect
  dsimp only
  cases hp : (k.frametable i).p with
  | none => exact ⟨_, rfl⟩
  | some p =>
    dsimp only
    split_ifs with hc
    · have hused : (k.frametable i).inUse ≠ .free := by simp [hc.1]
      have hva : (k.frametable i).va < MAXVA := by
        obtain ⟨a, hres⟩ := (hI.frames.cells.covered i hused).resolve_left (by simp)
        have hva : (k.frametable i).va = a.2 * PGSIZE := (hI.frames.owned a i hres).2
        rw [hva]
        exact mul_pgsize_lt_maxva hres.1
      rw [bind_of_ok (walk_eq (by rw [ha p hc.2.1]; rfl) hva)]
      cases k.core.leafRef (k.proc p).pagetable ((k.frametable i).va / PGSIZE) with
      | none => exact ⟨_, rfl⟩
      | some q =>
        dsimp only
        split_ifs <;> exact ⟨_, rfl⟩
    · exact ⟨_, rfl⟩

lemma clockLoop_ok (level : Option ℤ) (n : ℕ) : ∀ {k : Kernel σ},
    k.core.Inv {} → k.Attached → ∃ x, k.clockLoop level n = .ok x := by
  induction n with
  | zero => exact fun _ _ => ⟨_, rfl⟩
  | succ n ih =>
    intro k hI ha
    have hhand := hinted_clockHand k (k.clockHand + 1)
    obtain ⟨⟨found, k1⟩, hround⟩ := inspect_ok (k := { k with clockHand := k.clockHand + 1 }) hI
      (hhand.attached ha) level k.clockHand
    obtain ⟨hI1, hh1, -⟩ :=
      inspect_spec (k := { k with clockHand := k.clockHand + 1 }) hI (hhand.attached ha) hround
    unfold clockLoop
    dsimp only
    rw [bind_of_ok hround]
    dsimp only
    split_ifs
    · exact ⟨_, rfl⟩
    · exact ih hI1 ((hhand.trans hh1).attached ha)

/-- In a consistent state `get_victim` panics only with its own messages. -/
theorem getVictim_error {msg : String} (hI : k.core.Inv {}) (ha : k.Attached)
    (hrun : k.getVictim = .error msg) : msg ∈ victimMessages := by
  unfold getVictim at hrun
  split_ifs at hrun
  · cases hrun
    simp [victimMessages]
  · obtain ⟨⟨o, k1⟩, hloop⟩ := clockLoop_ok (some k.lowPri) (NUM_FRAMES * 2) hI ha
    obtain ⟨hI1, hh1, -⟩ := clockLoop_spec _ hI ha hloop
    rw [bind_of_ok hloop] at hrun
    cases o with
    | some idx => cases hrun
    | none =>
      obtain ⟨⟨o, k2⟩, hloop⟩ := clockLoop_ok none (NUM_FRAMES * 2) hI1 (hh1.attached ha)
      dsimp only at hrun
      rw [bind_of_ok hloop] at hrun
      cases o with
      | some idx => cases hrun
      | none =>
        cases hrun
        simp [victimMessages]

/-- What `get_victim` returns is mapped, so `kalloc_user` takes the first answer. -/
theorem pickVictim_ok {n : ℕ} {k1 : Kernel σ} (hI : k.core.Inv {})
    (ha : k.Attached) (hvictim : k.getVictim = .ok (i, k1)) :
    ∃ x, k.pickVictim (n + 1) = .ok x := by
  obtain ⟨hI1, hh1, p, hev⟩ := getVictim_spec hI ha hvictim
  have howner : k1.owner (k1.proc p).pagetable = some p := hh1.attached ha p hev.pagetable
  have hpa : (k1.frametable i).pa ≠ 0 := pa_ne_zero hI1 (by simp [hev.used])
  unfold pickVictim
  rw [bind_of_ok hvictim]
  dsimp only
  rw [hev.owner]
  dsimp only
  rw [if_neg (not_or.mpr ⟨hev.pagetable, hpa⟩), bind_of_ok (walk_eq (by simp [howner]) hev.va_lt)]
  cases href : k1.core.leafRef (k1.proc p).pagetable ((k1.frametable i).va / PGSIZE) with
  | none =>
    have hvalid := hev.valid
    rw [Core.leaf_eq_of_none href] at hvalid
    cases hvalid
  | some q =>
    dsimp only
    rw [pte_eq_leaf href, if_neg (by simp [hev.valid, hev.num])]
    exact ⟨_, rfl⟩

lemma pickVictim_error {msg : String} {n : ℕ} (hI : k.core.Inv {})
    (ha : k.Attached) (hrun : k.pickVictim (n + 1) = .error msg) : msg ∈ victimMessages := by
  cases hvictim : k.getVictim with
  | error msg' =>
    unfold pickVictim at hrun
    rw [bind_of_error hvictim] at hrun
    cases hrun
    exact getVictim_error hI ha hvictim
  | ok res =>
    obtain ⟨x, hx⟩ := pickVictim_ok (n := n) hI ha hvictim
    rw [hx] at hrun
    cases hrun

/-- No frame in use belongs to a process that may lose pages. -/
def NoEvictee (k : Kernel σ) : Prop :=
  ∀ i p, (k.frametable i).inUse ≠ .free → (k.frametable i).p = some p → ¬k.Evictee p

lemma getVictim_of_noEvictee (h : k.NoEvictee) :
    k.getVictim = .error "get_victim: no valid frames to evict" := by
  have hlow : k.lowPri = -1 := by
    unfold lowPri
    -- no frame of the list changes the initial value
    generalize List.finRange NUM_FRAMES = l
    induction l with
    | nil => rfl
    | cons i l ih =>
      rw [foldl_cons]
      cases hp : (k.frametable i).p with
      | none => exact ih
      | some p =>
        have hskip : ¬((k.frametable i).inUse ≠ .free ∧ k.Evictee p ∧ -1 < (k.proc p).level) :=
          fun hc => h i p hc.1 hp hc.2.1
        dsimp only
        rw [if_neg hskip]
        exact ih
  unfold getVictim
  rw [if_pos hlow]

/-- Every swap slot is in use. -/
def SlotsFull (k : Kernel σ) : Prop := ∀ j < MAX_SWAP_PAGES, (k.swaptable j).inUse = true

lemma takeSlot_of_slotsFull (h : k.SlotsFull) (p : ProcId) : k.takeSlot p = none := by
  have hnone : Raid.findFreeSlot (fun j => (k.swaptable j).inUse) = none := by
    unfold Raid.findFreeSlot
    rw [List.find?_eq_none]
    intro j hj
    simp [h j (mem_range.mp hj)]
  unfold takeSlot
  rw [hnone]
  rfl

/-- The panics of an allocation that finds nothing to evict or no slot. -/
def exhaustionMessages : List String := victimMessages ++ ["swap space full"]

/-- `kalloc_user` has to evict a page, and either no process may lose one or every slot is in
use. -/
structure Starved (k : Kernel σ) : Prop where
  needs : k.NeedsVictim
  stuck : k.NoEvictee ∨ k.Consistent ∧ k.SlotsFull

/-- A starved `kalloc_user` panics. -/
theorem Starved.kallocUser (h : k.Starved) (D : SwapDev σ) (va : ℕ) (p : ProcId) :
    ∃ msg ∈ exhaustionMessages, k.kallocUser D va p = .error msg := by
  rw [kallocUser_of_needsVictim h.needs]
  unfold evictFor
  rcases h.stuck with hno | ⟨hk, hfull⟩
  · have hvictim : k.acquire.getVictim = .error _ := getVictim_of_noEvictee hno
    have hpick : k.acquire.pickVictim 1 = .error "get_victim: no valid frames to evict" := by
      unfold pickVictim
      exact bind_of_error hvictim _
    exact ⟨_, by decide, bind_of_error hpick _⟩
  · cases hpick : k.acquire.pickVictim 1 with
    | error msg =>
      have hmem : msg ∈ victimMessages := pickVictim_error (k := k.acquire) hk.inv hk.attached hpick
      exact ⟨msg, mem_append_left _ hmem, rfl⟩
    | ok res =>
      obtain ⟨⟨i, vp, q⟩, k0⟩ := res
      obtain ⟨k1, r, v, -, -, hh, -, rfl⟩ :=
        pickVictim_spec (k := k.acquire) hk.inv hk.attached hpick
      have hslots : k1.swaptable = k.swaptable := by
        rw [hh.eq]
        rfl
      refine ⟨"swap space full", by decide, ?_⟩
      refine (bind_of_ok rfl _).trans (bind_of_error ?_ _)
      unfold swapOut
      rw [takeSlot_of_slotsFull]
      intro j hj
      change (k1.swaptable j).inUse = true
      rw [hslots]
      exact hfull j hj

end Xv6.VM.Kernel
