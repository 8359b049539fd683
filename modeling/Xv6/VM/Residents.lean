import Xv6.Foundations.Sums
import Xv6.VM.OwnershipBijection
import Xv6.VM.Traversal

/-!
# Counting resident pages

`Accounted` says that `p->resident_pages` of every process is the number of its frames. Each
function that allocates or frees frames keeps it, from any state; `allocproc` and `freeproc`, which
set the counter to zero, keep it if the process has no frame left.
-/

namespace Xv6.VM

open Fallible Function

/-- The frame has `in_use = 1` and belongs to `p`. -/
def Frame.BelongsTo (f : Frame) (p : ProcId) : Prop := f.inUse = .used ∧ f.p = some p
  deriving Decidable

namespace Kernel

variable {σ : Type} {D : SwapDev σ} {k k' : Kernel σ} {p : ProcId} {r va pa : ℕ}

/-- The number of frames of a process. -/
def residents (k : Kernel σ) (p : ProcId) : ℕ :=
  (Finset.univ.filter fun i => (k.frametable i).BelongsTo p).card

/-- `resident_pages` is exact. -/
def Accounted (k : Kernel σ) : Prop := ∀ p, (k.stats p).residentPages = k.residents p

/-! ## Changes of the frame table -/

lemma residents_eq_sum (k : Kernel σ) (p : ProcId) :
    (k.residents p : ℤ) = ∑ i, if (k.frametable i).BelongsTo p then 1 else 0 := by
  rw [residents, Finset.card_filter]
  push_cast
  rfl

lemma residents_setFrame (k : Kernel σ) (i : Fin NUM_FRAMES) (f : Frame) (p : ProcId) :
    ((k.setFrame i f).residents p : ℤ) + (if (k.frametable i).BelongsTo p then 1 else 0) =
      k.residents p + if f.BelongsTo p then 1 else 0 := by
  have hsum := Finset.sum_update_add (fun f : Frame => if f.BelongsTo p then (1 : ℤ) else 0)
    k.frametable i f
  rw [residents_eq_sum, residents_eq_sum]
  exact hsum

/-- The frame table and the counters of two states, as far as counting is concerned, are the same.
-/
structure SameBooks (k k' : Kernel σ) : Prop where
  inUse : ∀ i, (k'.frametable i).inUse = (k.frametable i).inUse
  owner : ∀ i, (k'.frametable i).p = (k.frametable i).p
  counter : ∀ p, (k'.stats p).residentPages = (k.stats p).residentPages

lemma SameBooks.residents (h : SameBooks k k') (p : ProcId) : k'.residents p = k.residents p := by
  refine congrArg Finset.card (Finset.filter_congr fun i _ => ?_)
  rw [Frame.BelongsTo, Frame.BelongsTo, h.inUse, h.owner]

lemma SameBooks.accounted (h : SameBooks k k') (hk : k.Accounted) : k'.Accounted := fun p => by
  rw [h.counter, h.residents]
  exact hk p

lemma SameBooks.refl (k : Kernel σ) : SameBooks k k := ⟨fun _ => rfl, fun _ => rfl, fun _ => rfl⟩

lemma SameBooks.trans {k₁ k₂ k₃ : Kernel σ} (h : SameBooks k₁ k₂) (h' : SameBooks k₂ k₃) :
    SameBooks k₁ k₃ where
  inUse i := (h'.inUse i).trans (h.inUse i)
  owner i := (h'.owner i).trans (h.owner i)
  counter p := (h'.counter p).trans (h.counter p)

lemma Alike.sameBooks (h : k.Alike k') : SameBooks k k' :=
  ⟨fun i => by rw [h.frametable], fun i => by rw [h.frametable], h.counter⟩

lemma kfree_accounted (hk : k.Accounted) : Returns (k.kfree pa) Accounted := by
  unfold kfree
  split_ifs
  · exact .error trivial
  · exact .ok hk

/-! ## `kalloc_user` and `kfree_user` -/

/-- A frame changes hands, and the counters with it. -/
theorem accounted_setFrame {i : Fin NUM_FRAMES} {f : Frame} (hk : k.Accounted)
    (hframes : k'.frametable = update k.frametable i f)
    (hstats : ∀ p, (k'.stats p).residentPages + (if (k.frametable i).BelongsTo p then 1 else 0) =
      (k.stats p).residentPages + if f.BelongsTo p then 1 else 0) : k'.Accounted := by
  intro p
  have hset := residents_setFrame k i f p
  have hres : k'.residents p = (k.setFrame i f).residents p := by
    rw [residents, hframes]
    rfl
  rw [hres]
  have hp := hstats p
  rw [hk p] at hp
  omega

/-- The clock only changes marks. -/
theorem secondChance_books (k : Kernel σ) (i : Fin NUM_FRAMES) (pte : ℕ × ℕ) :
    SameBooks k (k.secondChance i pte).2 := by
  have hframe : ∀ k' : Kernel σ, k'.frametable = k.frametable → k'.stats = k.stats →
      SameBooks k (k'.setFrame i { k.frametable i with ref := false }) := by
    intro k' hframes hstats
    refine ⟨fun j => ?_, fun j => ?_, fun q => by rw [setFrame, hstats]⟩ <;>
      by_cases hj : j = i <;> simp [setFrame, hj, hframes]
  unfold secondChance
  dsimp only
  split_ifs
  · exact hframe (k.setPte pte _) rfl rfl
  · exact hframe k rfl rfl
  · exact ⟨fun _ => rfl, fun _ => rfl, fun _ => rfl⟩
  · exact .refl k

lemma inspect_books {level : Option ℤ} {i : Fin NUM_FRAMES} :
    Returns (k.inspect level i) fun res =>
      SameBooks k res.2 ∧ (res.1 = true → (k.frametable i).inUse = .used) := by
  unfold inspect
  dsimp only
  split
  · exact .ok ⟨.refl k, by simp⟩
  · split_ifs with hcond
    · refine Returns.bind_any fun o => ?_
      cases o with
      | none => exact .ok ⟨.refl k, by simp⟩
      | some pte =>
        dsimp only
        split_ifs
        · exact .ok ⟨secondChance_books k i pte, fun _ => hcond.1⟩
        · exact .ok ⟨.refl k, by simp⟩
    · exact .ok ⟨.refl k, by simp⟩

lemma clockLoop_books {level : Option ℤ} (n : ℕ) : ∀ {k : Kernel σ},
    Returns (clockLoop level n k) fun res =>
      SameBooks k res.2 ∧ ∀ i ∈ res.1, (k.frametable i).inUse = .used := by
  induction n with
  | zero => exact .ok ⟨.refl _, by simp⟩
  | succ n ih =>
    intro k
    unfold clockLoop
    refine (inspect_books (k := { k with clockHand := k.clockHand + 1 })).bind fun res hres => ?_
    obtain ⟨hsame, hused⟩ := hres
    have hsame : SameBooks k res.2 := ⟨hsame.inUse, hsame.owner, hsame.counter⟩
    dsimp only
    split_ifs with hfound
    · refine .ok ⟨hsame, fun i hi => ?_⟩
      cases hi
      exact hused hfound
    · refine Returns.intro fun res' hrun => ?_
      obtain ⟨hsame', hused'⟩ := ih.result res' hrun
      refine ⟨hsame.trans hsame', fun i hi => ?_⟩
      rw [← hsame.inUse]
      exact hused' i hi

lemma getVictim_books : Returns k.getVictim fun res =>
    SameBooks k res.2 ∧ (k.frametable res.1).inUse = .used := by
  unfold getVictim
  split_ifs
  · exact .error trivial
  · refine (clockLoop_books _).bind fun res hres => ?_
    obtain ⟨o, k1⟩ := res
    cases o with
    | some idx => exact .ok ⟨hres.1, hres.2 idx rfl⟩
    | none =>
      refine (clockLoop_books _).bind fun res hres' => ?_
      obtain ⟨o, k2⟩ := res
      cases o with
      | some idx =>
        refine .ok ⟨hres.1.trans hres'.1, ?_⟩
        rw [← hres.1.inUse]
        exact hres'.2 idx rfl
      | none => exact .error trivial

/-- The frame that `kalloc_user` takes is a frame of the victim, and is pinned. -/
theorem pickVictim_books (fuel : ℕ) : ∀ {k : Kernel σ}, Returns (pickVictim fuel k) fun res =>
    ∃ k1, SameBooks k k1 ∧ (k1.frametable res.1.1).BelongsTo res.1.2.1 ∧
      res.2.frametable = update k1.frametable res.1.1
        { k1.frametable res.1.1 with inUse := .pinned } ∧ res.2.stats = k1.stats := by
  induction fuel with
  | zero => exact .error trivial
  | succ fuel ih =>
    intro k
    unfold pickVictim
    refine getVictim_books.bind fun res hres => ?_
    obtain ⟨slot, k1⟩ := res
    obtain ⟨hsame, hused⟩ := hres
    -- another round starts in the state that `get_victim` left
    have hagain : Returns (pickVictim fuel k1) fun res =>
        ∃ k2, SameBooks k k2 ∧ (k2.frametable res.1.1).BelongsTo res.1.2.1 ∧
          res.2.frametable = update k2.frametable res.1.1
            { k2.frametable res.1.1 with inUse := .pinned } ∧ res.2.stats = k2.stats := by
      refine Returns.intro fun res hrun => ?_
      obtain ⟨k2, hsame2, hrest⟩ := ih.result res hrun
      exact ⟨k2, hsame.trans hsame2, hrest⟩
    dsimp only
    split
    · exact hagain
    · rename_i victimP howner
      split_ifs
      · exact hagain
      · refine Returns.bind_any fun o => ?_
        cases o with
        | none => exact hagain
        | some pte =>
          dsimp only
          split_ifs
          · exact hagain
          · refine .ok ⟨k1, hsame, ⟨?_, howner⟩, rfl, rfl⟩
            rw [hsame.inUse]
            exact hused

lemma residentPages_update (c : ProcId → VmStats) (p : ProcId) {s : VmStats} (n : ℤ)
    (hs : s.residentPages = (c p).residentPages + n) (q : ProcId) :
    (update c p s q).residentPages = (c q).residentPages + if q = p then n else 0 := by
  by_cases hq : q = p
  · subst hq
    simp [hs]
  · simp [hq]

lemma userFrame_belongsTo {q : ProcId} : (userFrame va p pa).BelongsTo q ↔ q = p := by
  simp [Frame.BelongsTo, userFrame, eq_comm]

/-- The victim loses a page and the requester gets one. -/
theorem evictFor_accounted (hk : k.Accounted) :
    Returns (k.evictFor D va p) fun res => res.2.Accounted := by
  unfold evictFor
  refine (pickVictim_books (k := k.acquire) 1).bind fun res hres => ?_
  obtain ⟨⟨slot, victimP, pte⟩, k2⟩ := res
  obtain ⟨k1, hsame, hbelongs, hframes, hstats⟩ := hres
  have hk1 : k1.Accounted := hsame.accounted hk
  dsimp only at hbelongs hframes ⊢
  refine Within.bind (P := fun k3 : Kernel σ => k3.frametable = k2.frametable ∧ ∀ q,
    (k3.stats q).residentPages = (k2.stats q).residentPages + if q = victimP then -1 else 0) ?_
    fun k3 hk3 => .ok ?_
  · -- `swap_out` counts the page out
    unfold swapOut
    split
    · exact .error trivial
    · rename_i j k3 htake
      obtain ⟨-, -, rfl⟩ := takeSlot_eq_some htake
      unfold raidWrite
      refine Returns.bind_any fun dev => .ok ⟨rfl, fun q => ?_⟩
      exact residentPages_update k2.stats victimP (-1) rfl q
  · obtain ⟨hframes3, hstats3⟩ := hk3
    -- the pinned frame of the victim becomes a frame of `p`
    refine accounted_setFrame (i := slot) (f := userFrame va p (k2.frametable slot).pa) hk1 ?_
      fun q => ?_
    · change update k3.frametable slot _ = _
      rw [hframes3, hframes, update_idem]
    · have hcount : ((k3.countResident p).stats q).residentPages =
          (k3.stats q).residentPages + if q = p then 1 else 0 :=
        residentPages_update k3.stats p 1 rfl q
      change ((k3.countResident p).stats q).residentPages + _ = _
      have hvictim : (k1.frametable slot).BelongsTo q ↔ q = victimP :=
        ⟨fun hq => Option.some.inj (hq.2.symm.trans hbelongs.2), fun hq => hq ▸ hbelongs⟩
      rw [hcount, hstats3, hstats]
      simp only [hvictim, userFrame_belongsTo]
      split_ifs <;> omega

lemma kallocUser_accounted (hk : k.Accounted) :
    Returns (k.kallocUser D va p) fun res => res.2.Accounted := by
  have hkalloc := (onlyTables_kalloc k).alike.sameBooks.accounted hk
  unfold kallocUser
  split
  · exact evictFor_accounted hk
  · rename_i slot hfind
    have hfree : (k.frametable slot).inUse = .free := by
      simpa using List.find?_some hfind
    split
    · rename_i heq
      rw [heq] at hkalloc
      exact evictFor_accounted hkalloc
    · rename_i pa k1 heq
      have hframes : k1.frametable = k.frametable := by
        obtain ⟨rest, -, rfl⟩ := kalloc_some heq
        rfl
      rw [heq] at hkalloc
      refine .ok (accounted_setFrame (i := slot) (f := userFrame va p pa) hkalloc rfl fun q => ?_)
      have hnone : ¬ (k1.frametable slot).BelongsTo q := by simp [Frame.BelongsTo, hframes, hfree]
      have hcount : ((k1.countResident p).stats q).residentPages =
          (k1.stats q).residentPages + if q = p then 1 else 0 :=
        residentPages_update k1.stats p 1 rfl q
      change ((k1.countResident p).stats q).residentPages + _ = _
      rw [hcount, if_neg hnone]
      simp [userFrame_belongsTo]

lemma kfreeUser_accounted (hk : k.Accounted) : Returns (k.kfreeUser pa) Accounted := by
  unfold kfreeUser
  split
  · exact kfree_accounted hk
  · rename_i i hfind
    split_ifs with hpinned
    · exact .ok hk
    · have hnone : ∀ q, ¬ ({} : Frame).BelongsTo q := fun q => by simp [Frame.BelongsTo]
      have hused : (k.frametable i).inUse = .used := by
        have hin := List.find?_some hfind
        cases h : (k.frametable i).inUse <;> simp_all
      dsimp only
      split
      · rename_i howner
        refine kfree_accounted (accounted_setFrame (i := i) (f := {}) hk rfl fun q => ?_)
        have hother : ¬ (k.frametable i).BelongsTo q := by simp [Frame.BelongsTo, howner]
        rw [if_neg hother, if_neg (hnone q)]
        rfl
      · rename_i q' howner
        refine kfree_accounted (accounted_setFrame (i := i) (f := {}) hk rfl fun q => ?_)
        have hbelongs : (k.frametable i).BelongsTo q ↔ q = q' := by
          simp [Frame.BelongsTo, hused, howner, eq_comm]
        change (update k.stats q' { k.stats q' with
          residentPages := (k.stats q').residentPages - 1 } q).residentPages + _ = _
        rw [residentPages_update k.stats q' (-1) rfl q, if_neg (hnone q)]
        simp only [hbelongs]
        split_ifs <;> omega

/-! ## All functions -/

/-- The functions that are built from `kalloc_user` and `kfree_user` keep the counters exact. -/
theorem stable_accounted (D : SwapDev σ) : Stable D (fun _ => True) Accounted where
  table _ _ := trivial
  only h hk := h.alike.sameBooks.accounted hk
  alike h hk := h.sameBooks.accounted hk
  kallocUser _ _ hk := kallocUser_accounted hk
  kfreeUser _ hk := kfreeUser_accounted hk
  raidRead slot pa hk := by
    unfold raidRead
    exact Returns.bind_any fun _ => .ok hk
  raidWrite slot pa hk := by
    unfold raidWrite
    exact Returns.bind_any fun _ => .ok hk

end Kernel

end Xv6.VM
