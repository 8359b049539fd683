import Xv6.VM.ExecSpec

/-!
# Accesses to user memory

The specifications of the loads and stores of user code, and of `copyout` on the table of the
running process, where a page that is not resident is faulted in first.
-/

namespace Xv6.VM.Kernel

open Fallible Function

variable {σ : Type} {D : SwapDev σ} {k k' k'' : Kernel σ} {h : Held} {p : ProcId}
  {r v va pa off : ℕ} {q : ℕ × ℕ}

/-! ## Loads and stores -/

lemma userPte_spec (hr : k.owner (k.proc p).pagetable = some p)
    (hframed : k.Framed (k.proc p).pagetable) (hrun : k.userPte p va = some q) :
    k.core.leafRef (k.proc p).pagetable (va / PGSIZE) = some q ∧ va / PGSIZE < USER_TOP ∧
      (k.core.leaf (k.proc p).pagetable (va / PGSIZE)).flags.v = true ∧
      (k.core.leaf (k.proc p).pagetable (va / PGSIZE)).flags.u = true := by
  unfold userPte at hrun
  split at hrun
  · rename_i pte hwalk
    obtain ⟨hva, href⟩ := walk_ok (by rw [hr]; rfl) hwalk
    rw [pte_eq_leaf href] at hrun
    split_ifs at hrun with hflags
    cases hrun
    refine ⟨href, ?_, hflags⟩
    -- the trampoline and the trapframe are not accessible to the user
    by_contra htop
    have hlt : va / PGSIZE * PGSIZE < MAXVA := (Nat.div_mul_le_self _ _).trans_lt hva
    have hbits := hframed _ (Nat.le_of_not_lt htop) hlt
    simp [upperBits, hflags.2] at hbits
  · cases hrun

lemma touch_spec (hI : k.core.Inv h) (hq : k.core.leafRef r v = some q) (hlt : v < USER_TOP)
    (hv : (k.core.leaf r v).flags.v = true) :
    (k.touch q).core.Inv h ∧ (k.touch q).page D = k.page D ∧ k.Same (k.touch q) ∧
      ((k.touch q).core.leaf r v).flags.v = true ∧
      ((k.touch q).core.leaf r v).num = (k.core.leaf r v).num := by
  have hleaf : (k.touch q).core.leaf = setAt k.core.leaf r v
      { k.core.leaf r v with flags := { (k.core.leaf r v).flags with a := true } } := by
    rw [← pte_eq_leaf hq]
    exact hI.pages.leaf_setPte hq
  have hself : (k.touch q).core.leaf r v =
      { k.core.leaf r v with flags := { (k.core.leaf r v).flags with a := true } } := by
    rw [hleaf, setAt_self]
  refine ⟨?_, ?_, .mk rfl rfl (fun r' v' hle => ?_) rfl rfl rfl rfl rfl, by rw [hself]; exact hv,
    by rw [hself]⟩
  · unfold touch
    rw [pte_eq_leaf hq]
    exact hI.setBits hq (.inl hv) rfl rfl rfl
  · unfold touch
    rw [page_setPte hI hq, pte_eq_leaf hq]
    funext r' v'
    unfold setAt
    split_ifs with hrv
    · rw [hrv.1, hrv.2, page_of_valid hlt hv]
      simp [entryPage, hv, Nat.not_le.mpr hlt, UPage.ofFlags]
    · rfl
  · rw [hleaf, setAt, if_neg (by rintro ⟨-, rfl⟩; omega)]

section

variable (hI : k.core.Inv h) (hr : k.owner (k.proc p).pagetable = some p)
  (hframed : k.Framed (k.proc p).pagetable)

include hI hr hframed

lemma userLoad_spec {byte : UInt8} (hrun : k.userLoad p va = some (byte, k')) :
    k'.core.Inv h ∧ k'.page D = k.page D ∧ k.Same k' ∧
      ∃ x pg, k.page D (k.proc p).pagetable (va / PGSIZE) = some x ∧ x.u = true ∧ x.r = true ∧
        x.bytes = D.seen pg ∧ pg ⟨va % PGSIZE, Nat.mod_lt _ (by decide)⟩ = byte := by
  unfold userLoad at hrun
  split at hrun
  · cases hrun
  · rename_i q hq
    obtain ⟨href, hlt, hv, hu⟩ := userPte_spec hr hframed hq
    split_ifs at hrun with hread
    cases hrun
    obtain ⟨hI', hpage, hsame, -⟩ := touch_spec (D := D) hI href hlt hv
    rw [pte_eq_leaf href] at hread
    refine ⟨hI', hpage, hsame, _, _, page_of_valid hlt hv, hu, hread, rfl, ?_⟩
    rw [pte_eq_leaf href]

lemma userStore_spec {byte : UInt8} (hrun : k.userStore p va byte = some k') :
    k'.core.Inv h ∧ k.Same k' ∧
      k'.page D = update (k.page D) (k.proc p).pagetable
        (Space.write D.seen (k.page D (k.proc p).pagetable) (va / PGSIZE) (va % PGSIZE) [byte]) ∧
      ∃ x, k.page D (k.proc p).pagetable (va / PGSIZE) = some x ∧ x.u = true ∧ x.w = true := by
  unfold userStore at hrun
  split at hrun
  · cases hrun
  · rename_i q hq
    obtain ⟨href, hlt, hv, hu⟩ := userPte_spec hr hframed hq
    split_ifs at hrun with hwrite
    cases hrun
    obtain ⟨hI', hpage, hsame, hv', hnum⟩ := touch_spec (D := D) hI href hlt hv
    rw [pte_eq_leaf href] at hwrite
    refine ⟨hI', hsame, ?_, _, page_of_valid hlt hv, hu, hwrite⟩
    rw [pte_eq_leaf href]
    have hstore := page_write (D := D) hI' hlt hv' hnum (va % PGSIZE) [byte]
    rw [hpage] at hstore
    exact hstore

end

/-! ## `copyout` on the table of the running process -/

/-- The states differ at most in pages of the table rooted at `r`, and any new page is below
`sz`. -/
structure Touched (D : SwapDev σ) (k : Kernel σ) (r sz : ℕ) (k' : Kernel σ) : Prop where
  inv : k'.core.Inv {}
  same : k.Same k'
  other : ∀ r', r' ≠ r → k'.page D r' = k.page D r'
  above : ∀ v, pageCount sz ≤ v → k.page D r v = none → k'.page D r v = none

lemma Touched.refl {sz : ℕ} (hI : k.core.Inv {}) : Touched D k r sz k :=
  ⟨hI, rfl, fun _ _ => rfl, fun _ _ hv => hv⟩

lemma Touched.trans {sz : ℕ} (h : Touched D k r sz k') (h' : Touched D k' r sz k'') :
    Touched D k r sz k'' where
  inv := h'.inv
  same := h.same.trans h'.same
  other r' hr' := (h'.other r' hr').trans (h.other r' hr')
  above v hv hnone := h'.above v hv (h.above v hv hnone)

lemma Touched.page {sz : ℕ} (h : Touched D k r sz k') :
    k'.page D = update (k.page D) r (k'.page D r) := by
  funext r'
  by_cases hr : r' = r
  · rw [hr, update_self]
  · rw [update_of_ne hr, h.other r' hr]

section Running

variable (ha : k.Attached) (htable : (k.proc p).pagetable = r) (howner : k.owner r = some p)
  (hframed : k.Framed r)

include ha htable howner hframed

/-- The page that `copyout` and `copyin` look up is mapped at the address they found. -/
theorem userPa_spec (hI : k.core.Inv {})
    (hrun : k.userPa D p r (v * PGSIZE) = .ok (pa, k')) :
    Touched D k r (k.proc p).sz k' ∧ (pa ≠ 0 → v < USER_TOP ∧
      (k'.core.leaf r v).flags.v = true ∧ (k'.core.leaf r v).num = pa) := by
  unfold userPa at hrun
  obtain ⟨pa0, hwalk, hrun⟩ := bind_eq_ok.mp hrun
  split_ifs at hrun with hpa0
  · obtain ⟨hfault, hlt⟩ := vmfault_spec hI ha htable howner hframed hrun
    rw [mul_pgsize_div] at hfault
    rcases hfault.outcome with ⟨hpa, hpage⟩ | ⟨hpa, htop, -, hv, hnum, hpage⟩
    · exact ⟨⟨hfault.inv, hfault.same, fun _ _ => by rw [hpage], fun _ _ hn => by rw [hpage, hn]⟩,
        fun hne => absurd hpa hne⟩
    · refine ⟨⟨hfault.inv, hfault.same, fun r' hr' => ?_, fun v' hv' hn => ?_⟩,
        fun _ => ⟨htop, hv, hnum⟩⟩
      · funext v'
        rw [hpage, setAt, if_neg fun hc => hr' hc.1]
      · have := lt_pageCount.mpr (hlt hpa)
        rw [hpage, setAt, if_neg (by omega), hn]
  · cases hrun
    refine ⟨.refl hI, fun _ => ?_⟩
    obtain ⟨hv, hu, hnum⟩ := walkaddr_ok (by rw [howner]; rfl) hwalk hpa0
    rw [mul_pgsize_div] at hv hu hnum
    refine ⟨?_, hv, hnum⟩
    by_contra htop
    have hva : v * PGSIZE < MAXVA := by
      by_contra hge
      unfold walkaddr at hwalk
      rw [if_pos (Nat.le_of_not_lt hge)] at hwalk
      cases hwalk
      exact hpa0 rfl
    have hbits := hframed v (Nat.le_of_not_lt htop) hva
    simp [upperBits, hu] at hbits

/-- `copyout` changes only pages of the table it is given. -/
theorem copyoutLoop_spec (fuel : ℕ) :
    ∀ {k' k1 : Kernel σ} {dstva : ℕ} {src : List UInt8} {b : Bool},
    Touched D k r (k.proc p).sz k1 → copyoutLoop D p r fuel dstva src k1 = .ok (b, k') →
    Touched D k r (k.proc p).sz k' := by
  induction fuel with
  | zero =>
    intro k' k1 dstva src b hk1 hrun
    cases hrun
    exact hk1
  | succ fuel ih =>
    intro k' k1 dstva src b hk1 hrun
    unfold copyoutLoop at hrun
    dsimp only at hrun
    split_ifs at hrun with hsrc hva
    · cases hrun
      exact hk1
    · cases hrun
      exact hk1
    · obtain ⟨⟨pa, k2⟩, hpa, hrun⟩ := bind_eq_ok.mp hrun
      have hproc := hk1.same.proc
      obtain ⟨htouch, hleaf⟩ := userPa_spec (hk1.same.attached ha) (by rw [hproc, htable])
        (by rw [hk1.same.owner, howner]) (hk1.same.framed hframed) hk1.inv
        (v := dstva / PGSIZE) hpa
      rw [hproc] at htouch
      have hk2 := hk1.trans htouch
      dsimp only at hrun
      split_ifs at hrun with hpa0
      · cases hrun
        exact hk2
      · obtain ⟨htop, hv, hnum⟩ := hleaf hpa0
        obtain ⟨o, hwalk, hrun⟩ := bind_eq_ok.mp hrun
        cases o with
        | none => cases hrun
        | some q =>
          dsimp only at hrun
          split_ifs at hrun with hw
          · cases hrun
            exact hk2
          · refine ih ?_ hrun
            have hpage := page_write (D := D) hk2.inv htop hv hnum (dstva - pgrounddown dstva)
              (src.take (PGSIZE - (dstva - pgrounddown dstva)))
            refine hk2.trans ⟨hk2.inv, rfl, fun r' hr' => ?_, fun v' _ hn => ?_⟩
            · rw [hpage, update_of_ne hr']
            · rw [hpage, update_self]
              exact Space.write_eq_none.mpr hn

lemma copyout_spec {dstva : ℕ} {src : List UInt8} {b : Bool}
    (hI : k.core.Inv {}) (hrun : k.copyout D p r dstva src = .ok (b, k')) :
    Touched D k r (k.proc p).sz k' :=
  copyoutLoop_spec ha htable howner hframed _ (.refl hI) hrun

end Running

end Xv6.VM.Kernel
