import Xv6.VM.CopyString
import Xv6.VM.Pressure

/-!
# The rounds of `copyin` and `copyout`

Each round of `copyin` and `copyout` looks one page up, faulting it in if necessary, and transfers
the bytes of the copy in this page. The rounds of a call are a transition system. This module
connects it to the loops of the model and says what the lookup of a round finds: which entry the
page has when its bytes are transferred.
-/

namespace Xv6.VM

open Fallible

/-! ## Rounds -/

/-- A call of `copyin` before a round. -/
structure CopyIn (σ : Type) where
  kernel : Kernel σ
  srcva : ℕ
  len : ℕ
  dst : List UInt8

/-- A call of `copyout` before a round. -/
structure CopyOut (σ : Type) where
  kernel : Kernel σ
  dstva : ℕ
  src : List UInt8

section Rounds

variable {σ : Type}

/-- A round of `copyin`: the call after it, or `none` if it returns -1, and the kernel when the
bytes are transferred. -/
def CopyIn.round (D : SwapDev σ) (p : ProcId) (pagetable : ℕ) (c : CopyIn σ) :
    Except String (Option (CopyIn σ) × Kernel σ) := do
  let va0 := pgrounddown c.srcva
  let (pa0, k) ← c.kernel.userPa D p pagetable va0
  if pa0 = 0 then pure (none, k)
  else
    let n := min (PGSIZE - (c.srcva - va0)) c.len
    pure (some ⟨k, va0 + PGSIZE, c.len - n, c.dst ++ (k.mem pa0).read (c.srcva - va0) n⟩, k)

/-- A round of `copyout`, likewise. -/
def CopyOut.round (D : SwapDev σ) (p : ProcId) (pagetable : ℕ) (c : CopyOut σ) :
    Except String (Option (CopyOut σ) × Kernel σ) :=
  let va0 := pgrounddown c.dstva
  if MAXVA ≤ va0 then .ok (none, c.kernel)
  else do
    let (pa0, k) ← c.kernel.userPa D p pagetable va0
    if pa0 = 0 then pure (none, k)
    else do
      match ← k.walk pagetable va0 with
      | none => .error "copyout: no pte"
      | some pte =>
        if (k.pte pte).flags.w = false then pure (none, k)
        else
          let n := PGSIZE - (c.dstva - va0)
          pure (some ⟨k.setMem pa0 ((k.mem pa0).write (c.dstva - va0) (c.src.take n)), va0 + PGSIZE,
            c.src.drop n⟩, k)

/-- The rounds of a call of `copyin`. -/
def copyinRounds (D : SwapDev σ) (p : ProcId) (pagetable : ℕ) (start : CopyIn σ) :
    TransitionSystem (CopyIn σ) Unit where
  init c := c = start
  step c _ c' := c.len ≠ 0 ∧ ∃ k, c.round D p pagetable = .ok (some c', k)

/-- The rounds of a call of `copyout`. -/
def copyoutRounds (D : SwapDev σ) (p : ProcId) (pagetable : ℕ) (start : CopyOut σ) :
    TransitionSystem (CopyOut σ) Unit where
  init c := c = start
  step c _ c' := c.src ≠ [] ∧ ∃ k, c.round D p pagetable = .ok (some c', k)

variable {D : SwapDev σ} {p : ProcId} {r : ℕ}

namespace Kernel

lemma copyinLoop_eq_round (fuel : ℕ) (c : CopyIn σ) :
    copyinLoop D p r (fuel + 1) c.srcva c.len c.dst c.kernel =
      if c.len = 0 then .ok (some c.dst, c.kernel)
      else c.round D p r >>= fun x =>
        match x with
        | (none, k) => pure (none, k)
        | (some c', _) => copyinLoop D p r fuel c'.srcva c'.len c'.dst c'.kernel := by
  rw [copyinLoop]
  split_ifs with hlen
  · rfl
  · unfold CopyIn.round
    dsimp only
    rw [bind_assoc]
    congr 1
    funext x
    split_ifs <;> rfl

lemma copyoutLoop_eq_round (fuel : ℕ) (c : CopyOut σ) :
    copyoutLoop D p r (fuel + 1) c.dstva c.src c.kernel =
      if c.src = [] then .ok (true, c.kernel)
      else c.round D p r >>= fun x =>
        match x with
        | (none, k) => pure (false, k)
        | (some c', _) => copyoutLoop D p r fuel c'.dstva c'.src c'.kernel := by
  rw [copyoutLoop]
  unfold CopyOut.round
  dsimp only
  split_ifs with hsrc hva
  · rfl
  · rfl
  · rw [bind_assoc]
    congr 1
    funext x
    split_ifs with hpa
    · rfl
    · rw [bind_assoc]
      congr 1
      funext o
      cases o with
      | none => rfl
      | some pte =>
        dsimp only
        split_ifs <;> rfl

end Kernel

lemma CopyIn.round_eq_ok {c : CopyIn σ} {o : Option (CopyIn σ)} {k : Kernel σ}
    (h : c.round D p r = .ok (o, k)) :
    ∃ pa, c.kernel.userPa D p r (c.srcva / PGSIZE * PGSIZE) = .ok (pa, k) ∧
      ((pa = 0 ∧ o = none) ∨ (pa ≠ 0 ∧ ∃ n dst, (c.len ≠ 0 → 0 < n) ∧
        o = some ⟨k, c.srcva / PGSIZE * PGSIZE + PGSIZE, c.len - n, dst⟩)) := by
  obtain ⟨⟨pa, k1⟩, hpa, h⟩ := bind_eq_ok.mp h
  dsimp only at h
  split_ifs at h with h0
  · cases h
    exact ⟨pa, hpa, .inl ⟨h0, rfl⟩⟩
  · cases h
    refine ⟨pa, hpa, .inr ⟨h0, _, _, fun hlen => ?_, rfl⟩⟩
    rw [sub_pgrounddown]
    have := Nat.mod_lt c.srcva (show 0 < PGSIZE by decide)
    omega

lemma CopyOut.round_eq_ok {c : CopyOut σ} {o : Option (CopyOut σ)} {k : Kernel σ}
    (h : c.round D p r = .ok (o, k)) :
    (o = none ∧ k = c.kernel ∧ MAXVA ≤ c.dstva / PGSIZE * PGSIZE) ∨
    ∃ pa, c.kernel.userPa D p r (c.dstva / PGSIZE * PGSIZE) = .ok (pa, k) ∧
      ((pa = 0 ∧ o = none) ∨
        (pa ≠ 0 ∧ ∃ pte, k.walk r (c.dstva / PGSIZE * PGSIZE) = .ok (some pte) ∧
          (((k.pte pte).flags.w = false ∧ o = none) ∨
            ((k.pte pte).flags.w = true ∧ ∃ bytes n, 0 < n ∧
              o = some ⟨k.setMem pa ((k.mem pa).write (c.dstva % PGSIZE) bytes),
                c.dstva / PGSIZE * PGSIZE + PGSIZE, c.src.drop n⟩)))) := by
  unfold CopyOut.round at h
  dsimp only at h
  split_ifs at h with hva
  · cases h
    exact .inl ⟨rfl, rfl, hva⟩
  obtain ⟨⟨pa, k1⟩, hpa, h⟩ := bind_eq_ok.mp h
  dsimp only at h
  split_ifs at h with h0
  · cases h
    exact .inr ⟨pa, hpa, .inl ⟨h0, rfl⟩⟩
  obtain ⟨pte, hwalk, h⟩ := bind_eq_ok.mp h
  cases pte with
  | none => cases h
  | some pte =>
    dsimp only at h
    split_ifs at h with hw
    · cases h
      exact .inr ⟨pa, hpa, .inr ⟨h0, pte, hwalk, .inl ⟨hw, rfl⟩⟩⟩
    · cases h
      rw [sub_pgrounddown]
      refine .inr ⟨pa, hpa, .inr ⟨h0, pte, hwalk, .inr ⟨by simpa using hw, _, _, ?_, rfl⟩⟩⟩
      have := Nat.mod_lt c.dstva (show 0 < PGSIZE by decide)
      omega

/-- If a call of `copyin` returns, then so does every round of it. -/
theorem CopyIn.round_returns {start c : CopyIn σ} {res : Option (List UInt8) × Kernel σ}
    (hrun : start.kernel.copyin D p r start.srcva start.len = .ok res) (hdst : start.dst = [])
    (hc : (copyinRounds D p r start).Reachable c) (hlen : c.len ≠ 0) :
    ∃ o k, c.round D p r = .ok (o, k) := by
  -- the rest of the loop returns, from every round on
  have hrest : ∃ fuel, c.len ≤ fuel ∧
      Kernel.copyinLoop D p r fuel c.srcva c.len c.dst c.kernel = .ok res := by
    refine hc.invariant (I := fun c => ∃ fuel, c.len ≤ fuel ∧
      Kernel.copyinLoop D p r fuel c.srcva c.len c.dst c.kernel = .ok res) ?_ ?_
    · rintro c rfl
      exact ⟨c.len, le_rfl, by rw [hdst]; exact hrun⟩
    · rintro c _ c' - ⟨fuel, hfuel, hloop⟩ ⟨hne, k, hround⟩
      obtain ⟨fuel, rfl⟩ := Nat.exists_eq_succ_of_ne_zero (show fuel ≠ 0 by omega)
      rw [Kernel.copyinLoop_eq_round, if_neg hne, hround] at hloop
      refine ⟨fuel, ?_, hloop⟩
      -- a round copies at least one byte
      obtain ⟨pa, -, ⟨-, hnone⟩ | ⟨-, n, dst, hn, hc'⟩⟩ := CopyIn.round_eq_ok hround
      · cases hnone
      · cases hc'
        have := hn hne
        dsimp only
        omega
  obtain ⟨fuel, hfuel, hloop⟩ := hrest
  obtain ⟨fuel, rfl⟩ := Nat.exists_eq_succ_of_ne_zero (show fuel ≠ 0 by omega)
  rw [Kernel.copyinLoop_eq_round, if_neg hlen] at hloop
  obtain ⟨⟨o, k⟩, hround, -⟩ := bind_eq_ok.mp hloop
  exact ⟨o, k, hround⟩

lemma CopyOut.round_returns {start c : CopyOut σ} {res : Bool × Kernel σ}
    (hrun : start.kernel.copyout D p r start.dstva start.src = .ok res)
    (hc : (copyoutRounds D p r start).Reachable c) (hsrc : c.src ≠ []) :
    ∃ o k, c.round D p r = .ok (o, k) := by
  have hrest : ∃ fuel, c.src.length ≤ fuel ∧
      Kernel.copyoutLoop D p r fuel c.dstva c.src c.kernel = .ok res := by
    refine hc.invariant (I := fun c => ∃ fuel, c.src.length ≤ fuel ∧
      Kernel.copyoutLoop D p r fuel c.dstva c.src c.kernel = .ok res) ?_ ?_
    · rintro c rfl
      exact ⟨c.src.length, le_rfl, hrun⟩
    · rintro c _ c' - ⟨fuel, hfuel, hloop⟩ ⟨hne, k, hround⟩
      have hpos : 0 < c.src.length := List.length_pos_iff.mpr hne
      obtain ⟨fuel, rfl⟩ := Nat.exists_eq_succ_of_ne_zero (show fuel ≠ 0 by omega)
      rw [Kernel.copyoutLoop_eq_round, if_neg hne, hround] at hloop
      refine ⟨fuel, ?_, hloop⟩
      rcases CopyOut.round_eq_ok hround with ⟨hnone, -⟩ | ⟨pa, -, ⟨-, hnone⟩ |
        ⟨-, pte, -, ⟨-, hnone⟩ | ⟨-, bytes, n, hn, hc'⟩⟩⟩
      · cases hnone
      · cases hnone
      · cases hnone
      · cases hc'
        rw [List.length_drop]
        omega
  obtain ⟨fuel, hfuel, hloop⟩ := hrest
  have hpos : 0 < c.src.length := List.length_pos_iff.mpr hsrc
  obtain ⟨fuel, rfl⟩ := Nat.exists_eq_succ_of_ne_zero (show fuel ≠ 0 by omega)
  rw [Kernel.copyoutLoop_eq_round, if_neg hsrc] at hloop
  obtain ⟨⟨o, k⟩, hround, -⟩ := bind_eq_ok.mp hloop
  exact ⟨o, k, hround⟩

end Rounds

/-! ## What a round finds -/

namespace Kernel

variable {σ : Type} {D : SwapDev σ} {k k' : Kernel σ} {h : Held} {p : ProcId} {r v va pa : ℕ}

/-- The page `v` of the table rooted at `r` is in a swap slot. -/
def SwappedOut (k : Kernel σ) (r v : ℕ) : Prop := (k.core.leaf r v).flags.s = true
  deriving Decidable

lemma evictFor_valid (hI : k.core.Inv {}) (ha : k.Attached)
    (hrun : k.evictFor D va p = .ok (pa, k')) :
    (k'.core.leaf r v).flags.v = true → (k.core.leaf r v).flags.v = true := by
  obtain ⟨i, vp, q, r1, v1, j, k1, stats, dev, -, hI1, hh, hvictim, -, -, -, -, rfl⟩ :=
    evictFor_ok hI ha hrun
  intro hv
  change ((k1.core.setPte q (.toSwap j (k1.core.leaf r1 v1).flags)).leaf r v).flags.v = true at hv
  rw [hI1.pages.leaf_setPte hvictim.ref, setAt] at hv
  split_ifs at hv
  · cases hv
  · exact (hh.leaf_fields r v).2.1.symm.trans hv

lemma kallocUser_invalid (hI : k.core.Inv {}) (ha : k.Attached)
    (hrun : k.kallocUser D va p = .ok (pa, k')) (hv : (k.core.leaf r v).flags.v = false) :
    (k'.core.leaf r v).flags.v = false := by
  by_cases hneed : k.NeedsVictim
  · rw [kallocUser_of_needsVictim hneed] at hrun
    rw [← Bool.not_eq_true] at hv ⊢
    exact fun hv' => hv (evictFor_valid hI ha hrun hv')
  · obtain ⟨i, pg, rest, -, -, heq⟩ := kallocUser_of_room D va p hneed
    rw [heq] at hrun
    cases hrun
    exact hv

/-- A round finds a page that is swapped out. -/
theorem userPa_of_swappedOut (hI : k.core.Inv {}) (ha : k.Attached)
    (howner : k.owner r = some p) (hframed : k.Framed r) (hsz : v * PGSIZE < (k.proc p).sz)
    (hs : k.SwappedOut r v) (hrun : k.userPa D p r (v * PGSIZE) = .ok (pa, k')) : pa ≠ 0 := by
  obtain ⟨hnv, htop, -⟩ := hI.slots.swapped (r, v) _ ⟨hs, rfl⟩
  have hr : (k.owner r).isSome := by rw [howner]; rfl
  unfold userPa at hrun
  rw [walkaddr_eq_ite hr hframed, if_neg (by simp [Accessible, hnv])] at hrun
  change k.vmfault D p r (v * PGSIZE) = _ at hrun
  obtain ⟨hno, -⟩ | ⟨-, -, pa1, k1, i, halloc, hal, hrun⟩ := vmfault_ok hI ha hr hrun
  · rw [mul_pgsize_div, show (k.core.leaf r v).flags.v = false from hnv] at hno
    rcases hno with hno | hno
    · omega
    · cases hno
  rw [mul_pgsize_div] at hrun
  -- the allocation has left the page in its slot
  have hs1 : (k1.core.leaf r v).flags.s = true := by
    by_contra hns
    rw [Bool.not_eq_true] at hns
    have hnv1 := kallocUser_invalid hI ha halloc hnv
    have hnone := page_of_empty (D := D) (hal.inv.shape r v hnv1 hns)
    rw [hal.page, page_of_swapped htop hnv hs] at hnone
    cases hnone
  rw [if_pos hs1] at hrun
  rw [hrun.1]
  exact hal.pa_ne_zero

/-- `vmfault` maps a page of zeros in the table of the process, whichever table it was called for.
-/
theorem mapZeros_other {i : Fin NUM_FRAMES} {pa' : ℕ} (hI : k.core.Inv ⟨some i, none, none⟩)
    (hpa : (k.frametable i).pa = pa) (howner : (k.owner (k.proc p).pagetable).isSome)
    (hne : r ≠ (k.proc p).pagetable) (hrun : k.mapZeros p (v * PGSIZE) pa = .ok (pa', k')) :
    k'.page D r = k.page D r ∧ k'.core.leaf r = k.core.leaf r ∧ k'.owner = k.owner := by
  have hpage1 : (k.setMem pa 0).page D = k.page D := page_setMem_held hI hpa 0
  unfold mapZeros at hrun
  obtain ⟨⟨b, k2⟩, hmap, hrun⟩ := bind_eq_ok.mp hrun
  obtain ⟨o, k3, halloc, hcases⟩ := mappages_one hmap
  obtain ⟨-, hP3, hgrown, href⟩ := walkAlloc_spec (k := k.setMem pa 0) hI.pages howner halloc
  have hI3 := hgrown.inv (k := k.setMem pa 0) hI hP3
  rcases hcases with ⟨-, rfl, rfl⟩ | ⟨q, rfl, -, rfl, rfl⟩
  · -- no page-table page could be allocated, and the frame is given back
    obtain ⟨k4, hfree, hrun⟩ := bind_eq_ok.mp hrun
    cases hrun
    have hpa3 : (k2.frametable i).pa = pa := by
      rw [hgrown.frametable]
      exact hpa
    obtain ⟨-, hpage4, hsame4, -, hleaf4⟩ := kfreeUser_spec (D := D) hI3 hpa3 hfree
    rw [hpage4, hleaf4, hsame4.owner, hgrown.page hI, hgrown.leaf, hgrown.same.owner, hpage1]
    exact ⟨rfl, rfl, rfl⟩
  · cases hrun
    have hleaf := hI3.pages.leaf_setPte (e := .map pa { w := true, u := true, r := true })
      (href q rfl)
    have hpage := page_setPte (D := D) hI3 (href q rfl)
      (.map pa { w := true, u := true, r := true })
    refine ⟨?_, ?_, hgrown.same.owner⟩
    · funext v'
      refine (congrFun (congrFun hpage r) v').trans ?_
      rw [setAt, if_neg fun hc => hne hc.1, hgrown.page hI, hpage1]
    · funext v'
      refine (congrFun (congrFun hleaf r) v').trans ?_
      rw [setAt, if_neg fun hc => hne hc.1, hgrown.leaf]
      rfl

/-- In the image that `exec` builds a round finds resident pages only. If the page is not in the
image, then `vmfault` maps one in the table of the process instead. -/
theorem userPa_image (hI : k.core.Inv {}) (ha : k.Attached)
    (hp : (k.proc p).pagetable ≠ 0) (howner : k.owner r = some p) (hframed : k.Framed r)
    (hun : k.Unattached r) (hres : k.Resident r)
    (hrun : k.userPa D p r (v * PGSIZE) = .ok (pa, k')) :
    (k.Accessible r v ∧ k' = k) ∨ (k'.page D r = k.page D r ∧ k'.owner = k.owner ∧
      (pa ≠ 0 → k'.core.leaf r v = {})) := by
  have hr : (k.owner r).isSome := by rw [howner]; rfl
  unfold userPa at hrun
  rw [walkaddr_eq_ite hr hframed] at hrun
  by_cases hacc : k.Accessible r v
  · rw [if_pos hacc] at hrun
    change (if _ then _ else _) = _ at hrun
    rw [if_neg (num_ne_zero hI hacc.1 hacc.2.1)] at hrun
    cases hrun
    exact .inl ⟨hacc, rfl⟩
  rw [if_neg hacc] at hrun
  change k.vmfault D p r (v * PGSIZE) = _ at hrun
  refine .inr ?_
  rcases vmfault_ok hI ha hr hrun with ⟨-, rfl, rfl | rfl⟩ | ⟨-, hb, pa1, k1, i, halloc, hal, hrun⟩
  · exact ⟨rfl, rfl, absurd rfl⟩
  · exact ⟨rfl, rfl, absurd rfl⟩
  rw [mul_pgsize_div] at hb hrun
  -- the allocation has evicted no page of the image
  have hs1 : (k1.core.leaf r v).flags.s = false := (hal.unattached r v hun).trans (hres v)
  have hv1 := kallocUser_invalid hI ha halloc hb
  rw [if_neg (by simp [hs1])] at hrun
  have hown1 : (k1.owner (k1.proc p).pagetable).isSome := by
    rw [hal.same.proc, hal.same.owner, ha p hp]
    rfl
  have hne : r ≠ (k1.proc p).pagetable := by
    rw [hal.same.proc]
    exact (hun p).symm
  have hpa1 : (k1.frametable i).pa = pa1 := by
    rw [hal.frame]
    rfl
  obtain ⟨hpage, hleaf, howned⟩ := mapZeros_other (D := D) hal.inv hpa1 hown1 hne hrun
  refine ⟨by rw [hpage, hal.page], by rw [howned, hal.same.owner], fun _ => ?_⟩
  rw [hleaf]
  exact hal.inv.shape r v hv1 hs1

section Own

variable (hI : k.core.Inv {}) (ha : k.Attached)
  (htable : (k.proc p).pagetable = r) (howner : k.owner r = some p) (hframed : k.Framed r)

include hI ha htable howner hframed

section

variable (hrun : k.userPa D p r (v * PGSIZE) = .ok (pa, k')) (hpa : pa ≠ 0)

include hrun hpa

/-- A page that the round finds was accessible, or not resident. -/
theorem accessible_of_userPa (hv : (k.core.leaf r v).flags.v = true) :
    (k.core.leaf r v).flags.u = true := by
  unfold userPa at hrun
  rw [walkaddr_eq_ite (by rw [howner]; rfl) hframed] at hrun
  obtain ⟨pa0, hpa0, hrun⟩ := bind_eq_ok.mp hrun
  split_ifs at hrun with h0
  · obtain ⟨hfault, -⟩ := vmfault_spec hI ha htable howner hframed hrun
    rw [mul_pgsize_div] at hfault
    rcases hfault.outcome with ⟨hzero, -⟩ | ⟨-, -, hnv, -⟩
    · exact absurd hzero hpa
    · rw [hv] at hnv
      cases hnv
  · injection hpa0 with hpa0
    split_ifs at hpa0 with hacc
    · exact hacc.2.2
    · exact absurd hpa0.symm h0

/-- The permissions of the page that a round has found are those that it had before, or those of a
page allocated on demand. -/
theorem userPa_permissions :
    (k'.core.leaf r v).flags.u = (faultedIn (k.page D r v)).u ∧
      (k'.core.leaf r v).flags.w = (faultedIn (k.page D r v)).w := by
  obtain ⟨-, hleaf⟩ := userPa_spec ha htable howner hframed hI hrun
  obtain ⟨htop, hv, -⟩ := hleaf hpa
  have hsame := userPa_faultedIn hI ha htable howner hframed hrun v
  rw [page_of_valid htop hv] at hsame
  rw [← hsame]
  exact ⟨rfl, rfl⟩

/-- The page that a round has found is accessible to the user, unless it was swapped out and is
not. -/
theorem userPa_user_iff :
    (k'.core.leaf r v).flags.u = true ↔
      ¬(k.SwappedOut r v ∧ (k.core.leaf r v).flags.u = false) := by
  obtain ⟨-, hleaf⟩ := userPa_spec ha htable howner hframed hI hrun
  obtain ⟨htop, -, -⟩ := hleaf hpa
  rw [(userPa_permissions hI ha htable howner hframed hrun hpa).1]
  by_cases hv : (k.core.leaf r v).flags.v = true
  · have hu := accessible_of_userPa hI ha htable howner hframed hrun hpa hv
    rw [page_of_valid htop hv, hu]
    simp [faultedIn, UPage.ofFlags, hu]
  · rw [Bool.not_eq_true] at hv
    by_cases hs : (k.core.leaf r v).flags.s = true
    · rw [page_of_swapped htop hv hs]
      simp [faultedIn, UPage.ofFlags, SwappedOut, hs]
    · rw [Bool.not_eq_true] at hs
      rw [page_of_empty (hI.shape r v hv hs)]
      simp [faultedIn, UPage.zeros, UPage.ofFlags, lazyPerm, SwappedOut, hs]

end

end Own

end Kernel

end Xv6.VM
