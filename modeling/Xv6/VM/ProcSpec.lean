import Xv6.VM.CopySpec

/-!
# Specifications of the process functions

What `proc_pagetable`, `freeproc` and `allocproc` do to the process table, to the page tables that
exist and to the abstract pages.
-/

namespace Xv6.VM.Kernel

open Fallible Function

variable {σ : Type} {D : SwapDev σ} {k k' : Kernel σ} {h : Held} {p : ProcId} {r v pa : ℕ}
  {perm : Flags}

/-! ## `proc_pagetable` -/

/-- A page that is not the root of a table has no entries. -/
theorem leaf_of_unowned (hr : k.owner r = none) (v : ℕ) : k.core.leaf r v = {} :=
  Core.leaf_of_dir1_none (fun i => if_neg (by simp [core, hr])) v

/-- The bits of the entries of a table with only the trapframe and the trampoline. -/
def framedUpper (v : ℕ) : Bool × Bool :=
  if v = USER_TOP ∨ v = USER_TOP + 1 then (true, false) else (false, false)

/-- The rest of the state with a new table for `p`. -/
def Rest.add (rest : Rest) (r : ℕ) (p : ProcId) : Rest :=
  { rest with
    owner := update rest.owner r (some p)
    upper := update rest.upper r framedUpper }

lemma dropTable_eq {α : Type*} (g : ℕ → ℕ → α) (r : ℕ) (x : α) :
    dropTable g r x = update g r fun _ => x := by
  funext r' v
  by_cases hr : r' = r <;> simp [dropTable, hr]

lemma Rest.drop_eq {rest rest' : Rest} (hnew : rest.owner r = none)
    (hupper : ∀ v, rest.upper r v = (false, false))
    (heq : rest' = { rest with owner := rest'.owner, upper := rest'.upper })
    (howner : ∀ r', r' ≠ r → rest'.owner r' = rest.owner r')
    (hupper' : ∀ r', r' ≠ r → rest'.upper r' = rest.upper r') : rest'.drop r = rest := by
  have h1 : update rest'.owner r none = rest.owner := by
    funext r'
    by_cases hr : r' = r
    · rw [hr, update_self, hnew]
    · rw [update_of_ne hr, howner r' hr]
  have h2 : dropTable rest'.upper r (false, false) = rest.upper := by
    rw [dropTable_eq]
    funext r'
    by_cases hr : r' = r
    · rw [hr, update_self]
      exact (funext hupper).symm
    · rw [update_of_ne hr, hupper' r' hr]
  unfold Rest.drop
  rw [h1, h2, heq]

lemma mapUpper_spec {b : Bool} (hI : k.core.Inv {}) (hr : (k.owner r).isSome)
    (htop : USER_TOP ≤ v) (hperm : perm.s = false)
    (hrun : k.mappages r (v * PGSIZE) PGSIZE pa perm = .ok (b, k')) :
    (b = true ∧ k'.core.Inv {} ∧ k'.page D = k.page D ∧
      k'.rest = { k.rest with upper := setAt k.rest.upper r v (true, perm.u) } ∧
      k'.core.leaf = setAt k.core.leaf r v (.map pa perm)) ∨
    (b = false ∧ k'.core.Inv {} ∧ Grown k k') := by
  obtain ⟨o, k1, hwalk, hcases⟩ := mappages_one hrun
  obtain ⟨hva, hP1, hgrown, href⟩ := walkAlloc_spec hI.pages hr hwalk
  have hI1 := hgrown.inv hI hP1
  rcases hcases with ⟨-, rfl, rfl⟩ | ⟨q, rfl, hv, rfl, rfl⟩
  · exact .inr ⟨rfl, hI1, hgrown⟩
  · have hq := href q rfl
    rw [mul_pgsize_div] at hq
    have hleaf : (k1.setPte q (.map pa perm)).core.leaf = setAt k.core.leaf r v (.map pa perm) := by
      rw [← hgrown.leaf]
      exact hI1.pages.leaf_setPte hq
    refine .inl ⟨rfl, hI1.setUpper hq htop hperm (fun hc => by cases hc), ?_, ?_, hleaf⟩
    · rw [page_setPte hI1 hq, hgrown.page hI]
      funext r' v'
      unfold setAt
      split_ifs with hrv
      · rw [hrv.1, hrv.2, page_of_top htop, entryPage, if_pos htop]
      · rfl
    · have hupper : (k1.setPte q (.map pa perm)).rest.upper =
          setAt k.rest.upper r v (true, perm.u) := by
        funext r' v'
        change (if USER_TOP ≤ v' then upperBits ((k1.setPte q (.map pa perm)).core.leaf r' v')
          else (false, false)) = _
        rw [hleaf]
        unfold setAt
        by_cases hrv : r' = r ∧ v' = v
        · simp [hrv, htop, upperBits, Pte.map]
        · rw [if_neg hrv, if_neg hrv]
          rfl
      rw [← hupper, ← show k1.rest = k.rest from hgrown.same]
      rfl

lemma discardTable_spec {k1 : Kernel σ} {upper : ℕ → Bool × Bool} (hnew : k.owner r = none)
    (hI : k1.core.Inv {}) (hpage : k1.page D = k.page D)
    (hrest : k1.rest = { k.rest with
      owner := update k.owner r (some p), upper := update k.rest.upper r upper })
    (hswap : ∀ v, (k1.core.leaf r v).flags.s = false) (hrun : k1.uvmfree r 0 = .ok k') :
    k'.core.Inv {} ∧ k'.page D = k.page D ∧ k.Same k' := by
  have hr : (k1.owner r).isSome := by
    have : k1.owner = update k.owner r (some p) := congrArg Rest.owner hrest
    simp [this]
  obtain ⟨hI2, hpage2, hrest2⟩ := uvmfree_spec (D := D) hI hr (by decide)
    (fun v hs => by simp [hswap v] at hs) hrun
  refine ⟨hI2, ?_, ?_⟩
  · rw [hpage2, hpage, dropTable_eq]
    funext r'
    by_cases hr' : r' = r
    · rw [hr', update_self]
      funext v
      exact (page_of_empty (leaf_of_unowned hnew v)).symm
    · rw [update_of_ne hr']
  · unfold Same
    rw [hrest2, hrest]
    refine Rest.drop_eq hnew (fun v => ?_) rfl (fun r' hr' => ?_) fun r' hr' => ?_
    · simp [Kernel.rest, leaf_of_unowned hnew, upperBits]
    · exact update_of_ne hr' _ _
    · exact update_of_ne hr' _ _

/-- A new table for `p`, with the trampoline and the trapframe mapped. -/
structure NewTable (D : SwapDev σ) (k : Kernel σ) (p : ProcId) (r : ℕ) (k' : Kernel σ) : Prop where
  inv : k'.core.Inv {}
  page : k'.page D = k.page D
  rest : k'.rest = k.rest.add r p
  fresh : k.owner r = none
  ne_zero : r ≠ 0
  leaf : ∀ v, v < USER_TOP → k'.core.leaf r v = {}

lemma setAt_eq_update {α : Type*} (g : ℕ → ℕ → α) (r v : ℕ) (x : α) :
    setAt g r v x = update g r (update (g r) v x) := by
  funext r' v'
  by_cases hr : r' = r
  · subst hr
    by_cases hv : v' = v <;> simp [setAt, hv]
  · simp [setAt, hr]

lemma setAt_update {α : Type*} (g : ℕ → ℕ → α) (f : ℕ → α) (r v : ℕ) (x : α) :
    setAt (update g r f) r v x = update g r (update f v x) := by
  rw [setAt_eq_update, update_idem, update_self]

/-- A page from the free list becomes the root of an empty table for `p`. -/
theorem newRoot_spec {k1 : Kernel σ} (p : ProcId) (hI : k.core.Inv {})
    (hkalloc : k.kalloc = (some r, k1)) :
    let k2 := (k1.zeroTable r).setOwner r (some p)
    k2.core.Inv {} ∧ k2.page D = k.page D ∧ k2.core.leaf = k.core.leaf ∧
      k2.rest = { k.rest with
        owner := update k.owner r (some p)
        upper := update k.rest.upper r fun _ => (false, false) } ∧
      k.owner r = none ∧ r ≠ 0 := by
  intro k2
  obtain ⟨hP1, hgrown, -, -, hzero⟩ := kalloc_zeroTable hI.pages hkalloc
  have hnew : k.owner r = none := by
    have := hP1.held_apart.1
    rw [show (k1.zeroTable r).core.owner = k.owner from hgrown.same.owner] at this
    simpa using this
  obtain ⟨hP2, hleaf⟩ := hP1.newRoot p fun b => by simp [Core.child, core, hzero]
  have hI2 := (hgrown.inv hI hP1).of_setOwner (fun i => by
    rw [Core.dir1, if_neg (by simp [hP1.held_apart.1])]) hP2 hleaf
  have hleaf2 : k2.core.leaf = k.core.leaf := hleaf.trans hgrown.leaf
  have hup : k.rest.upper r = fun _ => (false, false) := by
    funext v
    simp [Kernel.rest, leaf_of_unowned hnew, upperBits]
  refine ⟨hI2, ?_, hleaf2, ?_, hnew, fun h0 => hP1.null .held (congrArg some h0)⟩
  · rw [← hgrown.page hI]
    exact page_of_leaf_eq (k := k1.zeroTable r) hleaf rfl rfl
  · have hupper : k2.rest.upper = k.rest.upper := by
      unfold Kernel.rest
      dsimp only
      rw [hleaf2]
    rw [← hup, update_eq_self, ← hupper,
      ← show (k1.zeroTable r).rest = k.rest from hgrown.same, ← hgrown.same.owner]
    rfl

lemma procPagetable_spec {trampoline : ℕ} {o : Option ℕ} (hI : k.core.Inv {})
    (hrun : k.procPagetable trampoline p = .ok (o, k')) :
    (o = none ∧ k'.core.Inv {} ∧ k'.page D = k.page D ∧ k.Same k') ∨
      ∃ r, o = some r ∧ NewTable D k p r k' := by
  unfold procPagetable uvmcreate at hrun
  cases hkalloc : k.kalloc with
  | mk o1 k1 =>
    rw [hkalloc] at hrun
    cases o1 with
    | none =>
      cases hrun
      rw [kalloc_none hkalloc]
      exact .inl ⟨rfl, hI, rfl, rfl⟩
    | some r =>
      dsimp only at hrun
      obtain ⟨hI2, hpage2, hleaf2, hrest2, hnew, hr0⟩ := newRoot_spec (D := D) p hI hkalloc
      have hempty : ∀ v, k.core.leaf r v = {} := leaf_of_unowned hnew
      obtain ⟨⟨b1, k3⟩, htramp, hrun⟩ := bind_eq_ok.mp hrun
      rw [trampoline_eq] at htramp
      rcases mapUpper_spec (D := D) hI2 (by simp [setOwner]) (by omega) rfl htramp with
        ⟨rfl, hI3, hpage3, hrest3, hleaf3⟩ | ⟨rfl, hI3, hgrown3⟩
      · obtain ⟨⟨b2, k4⟩, htrap, hrun⟩ := bind_eq_ok.mp hrun
        rw [trapframe_eq] at htrap
        rw [hrest2] at hrest3
        dsimp only at hrest3
        rw [setAt_update] at hrest3
        have howner3 : (k3.owner r).isSome := by
          rw [show k3.owner = _ from congrArg Rest.owner hrest3]
          simp
        rcases mapUpper_spec (D := D) hI3 howner3 le_rfl rfl htrap with
          ⟨rfl, hI4, hpage4, hrest4, hleaf4⟩ | ⟨rfl, hI4, hgrown4⟩
        · cases hrun
          refine .inr ⟨r, rfl, hI4, by rw [hpage4, hpage3, hpage2], ?_, hnew, hr0, fun v hlt => ?_⟩
          · rw [hrest4, hrest3]
            dsimp only
            rw [setAt_update, Rest.add]
            congr 2
            funext v
            unfold framedUpper
            by_cases h0 : v = USER_TOP
            · simp [h0]
            · by_cases h1 : v = USER_TOP + 1 <;> simp [h0, h1]
          · rw [hleaf4, setAt, if_neg (by omega), hleaf3, setAt, if_neg (by omega), hleaf2, hempty]
        · obtain ⟨k5, hunmap, hrun⟩ := bind_eq_ok.mp hrun
          obtain ⟨k6, hfree, hrun⟩ := bind_eq_ok.mp hrun
          cases hrun
          rw [trampoline_eq] at hunmap
          obtain ⟨hI5, hpage5, hrest5, hleaf5⟩ := unmapUpper_spec (D := D) hI4
            (by rw [hgrown4.same.owner]; exact howner3) (by omega) hunmap
          rw [show k4.rest = k3.rest from hgrown4.same, hrest3] at hrest5
          dsimp only at hrest5
          rw [setAt_update] at hrest5
          refine .inl ⟨rfl, discardTable_spec hnew hI5 ?_ hrest5 (fun v => ?_) hfree⟩
          · rw [hpage5, hgrown4.page hI3, hpage3, hpage2]
          · rw [hleaf5, hgrown4.leaf, hleaf3, hleaf2]
            unfold setAt
            split_ifs
            · rfl
            · rw [hempty]
      · obtain ⟨k4, hfree, hrun⟩ := bind_eq_ok.mp hrun
        cases hrun
        refine .inl ⟨rfl, discardTable_spec hnew hI3 ((hgrown3.page hI2).trans hpage2)
          (Eq.trans hgrown3.same hrest2) (fun v => ?_) hfree⟩
        rw [hgrown3.leaf, hleaf2, hempty]

/-! ## `freeproc` -/

/-- The ownership of pages, frames and slots depends on the processes only through their
trapframes. -/
theorem inv_of_procs {proc' : ProcId → Proc} (hI : k.core.Inv h)
    (htf : ∀ p, (proc' p).trapframe = (k.proc p).trapframe) :
    (Kernel.core { k with proc := proc' }).Inv h := by
  have hcore : Kernel.core { k with proc := proc' } =
      { k.core with pagetable := fun p => (proc' p).pagetable } := by
    simp [core, htf]
  rw [hcore]
  exact ⟨hI.pages.of_iff (fun _ u => by cases u <;> exact Iff.rfl) hI.pages.nodup rfl
    (hI.pages.dirs.congr rfl rfl), hI.frames, hI.slots, hI.shape⟩

lemma inv_setProc {pr : Proc} (hI : k.core.Inv h)
    (htf : pr.trapframe = (k.proc p).trapframe) : (k.setProc p pr).core.Inv h := by
  refine inv_of_procs hI fun p' => ?_
  by_cases hp : p' = p
  · rw [hp, update_self, htf]
  · rw [update_of_ne hp]

lemma core_setTrapframe (k : Kernel σ) (p : ProcId) (pg : ℕ) :
    (k.setProc p { k.proc p with trapframe := pg }).core = k.core.setTrapframe p pg := by
  unfold core setProc Core.setTrapframe
  congr 1
  · funext p'
    by_cases hp : p' = p <;> simp [hp]
  · funext p'
    by_cases hp : p' = p <;> simp [hp]

lemma owner_zero (hI : k.core.Inv h) : k.owner 0 = none := by
  by_contra hne
  exact hI.pages.null .root (Option.isSome_iff_ne_none.mpr hne)

lemma page_of_unowned (hr : k.owner r = none) (v : ℕ) : k.page D r v = none :=
  page_of_empty (leaf_of_unowned hr v)

lemma drop_of_unowned (hr : k.owner r = none) :
    dropTable (k.page D) r none = k.page D ∧ k.rest.drop r = k.rest := by
  constructor
  · rw [dropTable_eq]
    refine update_eq_self_iff.mpr ?_
    funext v
    exact (page_of_unowned hr v).symm
  · exact Rest.drop_eq hr (fun v => by simp [rest, leaf_of_unowned hr, upperBits]) rfl
      (fun _ _ => rfl) fun _ _ => rfl

/-- The first part of `freeproc`. -/
theorem freeTrapframe_spec {k1 : Kernel σ} (hI : k.core.Inv {})
    (hrun : (if (k.proc p).trapframe ≠ 0 then k.kfree (k.proc p).trapframe else pure k) = .ok k1) :
    let k2 := k1.setProc p { k1.proc p with trapframe := 0 }
    k2.core.Inv {} ∧ k2.page D = k.page D ∧
      k2.rest = { k.rest with
        proc := update k.proc p { k.proc p with trapframe := 0 } } := by
  intro k2
  split_ifs at hrun with htf
  · have hclear : (k.setProc p { k.proc p with trapframe := 0 }).core.Inv
        ⟨none, none, some (k.proc p).trapframe⟩ := by
      rw [core_setTrapframe]
      exact hI.clearTrapframe htf
    have hpage : ((k.setProc p { k.proc p with trapframe := 0 }).setMem (k.proc p).trapframe
        (Page.fill 1)).page D = k.page D := page_setMem fun r v hlt hv =>
      hclear.num_ne (u := .held) rfl (by simp) hlt hv
    have heq : k2 = Kernel.setMem { k.setProc p { k.proc p with trapframe := 0 } with
        freelist := (k.proc p).trapframe :: k.freelist } (k.proc p).trapframe (Page.fill 1) := by
      change k1.setProc p { k1.proc p with trapframe := 0 } = _
      rw [kfree_ok hrun]
      rfl
    rw [heq]
    exact ⟨hclear.kfree, hpage, rfl⟩
  · cases hrun
    have htf0 : (k.proc p).trapframe = 0 := by simpa using htf
    exact ⟨inv_setProc hI htf0.symm, rfl, rfl⟩

/-- With no table left for `p`, no slot belongs to `p`. -/
theorem freeProcSwap_eq (hI : k.core.Inv {}) (hno : ∀ r, k.owner r ≠ some p) :
    k.freeProcSwap p = k := by
  unfold freeProcSwap
  congr 1
  funext j
  refine if_neg ?_
  rintro ⟨-, hused, hp⟩
  obtain ⟨a, ha⟩ := (hI.slots.cells.covered j hused).resolve_left (by simp)
  refine hno a.1 ?_
  rw [← hp]
  exact (hI.slots.owned a j ha).symm

lemma lt_of_swapped {n : ℕ} (hI : k.core.Inv h) (habove : ∀ v, n ≤ v → k.page D r v = none)
    (hs : (k.core.leaf r v).flags.s = true) : v < n := by
  by_contra hge
  obtain ⟨-, hlt, -⟩ := hI.slots.swapped (r, v) _ ⟨hs, rfl⟩
  have hempty := (page_eq_none_iff hI hlt).mp (habove v (Nat.le_of_not_lt hge))
  rw [hempty] at hs
  cases hs

section

variable (hI : k.core.Inv {})

include hI

lemma freeproc_spec (howner : ∀ r, k.owner r = some p ↔ (k.proc p).pagetable = r ∧ r ≠ 0)
    (hsz : pageCount (k.proc p).sz ≤ USER_TOP)
    (habove : ∀ v, pageCount (k.proc p).sz ≤ v → k.page D (k.proc p).pagetable v = none)
    (hrun : k.freeproc p = .ok k') :
    k'.core.Inv {} ∧
      k'.page D = dropTable (k.page D) (k.proc p).pagetable none ∧
      k'.rest = { k.rest.drop (k.proc p).pagetable with proc := update k.proc p {} } := by
  unfold freeproc at hrun
  obtain ⟨k1, htf, hrun⟩ := bind_eq_ok.mp hrun
  obtain ⟨hI2, hpage2, hrest2⟩ := freeTrapframe_spec (D := D) hI htf
  obtain ⟨k3, htable, hrun⟩ := bind_eq_ok.mp hrun
  cases hrun
  have hproc2 := congrArg Rest.proc hrest2
  have howner2 := congrArg Rest.owner hrest2
  change (k1.setProc p { k1.proc p with trapframe := 0 }).proc = _ at hproc2
  change (k1.setProc p { k1.proc p with trapframe := 0 }).owner = k.owner at howner2
  generalize k1.setProc p { k1.proc p with trapframe := 0 } = k2 at *
  have hpt : (k2.proc p).pagetable = (k.proc p).pagetable := by simp [hproc2]
  have hsz2 : (k2.proc p).sz = (k.proc p).sz := by simp [hproc2]
  rw [hpt, hsz2] at htable
  -- the table is released, if there is one
  obtain ⟨hI3, hpage3, hrest3⟩ : k3.core.Inv {} ∧
      k3.page D = dropTable (k2.page D) (k.proc p).pagetable none ∧
      k3.rest = k2.rest.drop (k.proc p).pagetable := by
    split_ifs at htable with hne
    · refine procFreepagetable_spec hI2 ?_ (by simpa using hsz) (fun v hs => ?_) htable
      · rw [howner2, (howner _).mpr ⟨rfl, hne⟩]
        rfl
      · rw [pgroundup_div]
        exact lt_of_swapped (D := D) hI2 (by rw [hpage2]; exact habove) hs
    · cases htable
      have h0 : k3.owner (k.proc p).pagetable = none := by
        rw [show (k.proc p).pagetable = 0 by simpa using hne]
        exact owner_zero hI2
      obtain ⟨hpage, hrest⟩ := drop_of_unowned (D := D) h0
      exact ⟨hI2, hpage.symm, hrest.symm⟩
  have howner3 : k3.owner = update k2.owner (k.proc p).pagetable none :=
    congrArg Rest.owner hrest3
  have hno : ∀ r, (k3.setProc p {}).owner r ≠ some p := by
    intro r hr
    change k3.owner r = some p at hr
    rw [howner3, howner2] at hr
    by_cases hrp : r = (k.proc p).pagetable
    · simp [hrp] at hr
    · rw [update_of_ne hrp] at hr
      exact hrp ((howner r).mp hr).1.symm
  have htf3 : (k3.proc p).trapframe = 0 := by
    rw [show k3.proc = k2.proc from congrArg Rest.proc hrest3, hproc2]
    simp
  have hI4 : (k3.setProc p {}).core.Inv {} := inv_setProc hI3 htf3.symm
  rw [freeProcSwap_eq hI4 hno]
  refine ⟨hI4, ?_, ?_⟩
  · change k3.page D = _
    rw [hpage3, hpage2]
  · change { k3.rest with proc := update k3.rest.proc p {} } = _
    rw [hrest3, hrest2]
    simp [Rest.drop]

/-- `freeproc` of a process without a page table. -/
theorem freeproc_bare_spec (hno : ∀ r, k.owner r ≠ some p) (hpt : (k.proc p).pagetable = 0)
    (hsz : (k.proc p).sz = 0) (hrun : k.freeproc p = .ok k') :
    k'.core.Inv {} ∧ k'.page D = k.page D ∧
      k'.rest = { k.rest with proc := update k.proc p {} } := by
  have h0 := owner_zero hI
  obtain ⟨hpage, hrest⟩ := drop_of_unowned (D := D) h0
  have hspec := freeproc_spec (D := D) hI (fun r => ?_) ?_ (fun v _ => ?_) hrun
  · rwa [hpt, hpage, hrest] at hspec
  · rw [hpt]
    exact iff_of_false (hno r) fun hc => hc.2 hc.1.symm
  · rw [hsz]
    decide
  · rw [hpt]
    exact page_of_unowned h0 v

/-! ## `allocproc` -/

/-- The entry of the process table that `allocproc` makes. -/
def newProc (pid tf r : ℕ) : Proc :=
  { state := .used, pid := pid, trapframe := tf, pagetable := r }

lemma takeProc_spec (hp : k.proc p = {}) :
    (k.takeProc p).core.Inv {} ∧ (k.takeProc p).page D = k.page D ∧
      (k.takeProc p).rest = { k.rest with
        proc := update k.proc p (newProc k.nextpid 0 0)
        nextpid := k.nextpid + 1
        noff := k.noff + 1 } := by
  refine ⟨inv_setProc (k := k.acquire) hI rfl, rfl, ?_⟩
  have hproc : (k.takeProc p).proc = update k.proc p (newProc k.nextpid 0 0) := by
    change update k.proc p { k.proc p with
      pid := k.nextpid, state := .used, level := 0 } = _
    rw [hp]
    rfl
  rw [← hproc]
  rfl

lemma newTrapframe_spec {k1 : Kernel σ} {pg : ℕ} (htf : (k.proc p).trapframe = 0)
    (hkalloc : k.kalloc = (some pg, k1)) : let k2 := k1.setProc p { k1.proc p with trapframe := pg }
    k2.core.Inv {} ∧ k2.page D = k.page D ∧
      k2.rest = { k.rest with
        proc := update k.proc p { k.proc p with trapframe := pg } } := by
  intro k2
  obtain ⟨hI1, hpage, hsame, -⟩ := kalloc_spec (D := D) hI hkalloc
  have htf1 : k1.core.trapframe p = 0 := by
    change (k1.proc p).trapframe = 0
    rw [hsame.proc, htf]
  refine ⟨?_, hpage, ?_⟩
  · rw [core_setTrapframe]
    exact hI1.newTrapframe htf1
  · rw [← hsame.proc, ← show k1.rest = k.rest from hsame]
    rfl

lemma allocproc_spec {trampoline : ℕ} {o : Option ProcId}
    (hunused : ∀ p, (k.proc p).state = .unused → k.proc p = {} ∧ ∀ r, k.owner r ≠ some p)
    (hrun : k.allocproc trampoline = .ok (o, k')) :
    k'.core.Inv {} ∧ k'.page D = k.page D ∧
      ((o = none ∧ ∃ pid, k'.rest = { k.rest with nextpid := pid }) ∨
        ∃ p r tf, o = some p ∧ (k.proc p).state = .unused ∧ k.owner r = none ∧ r ≠ 0 ∧
          k'.rest = { k.rest.add r p with
            proc := update k.proc p (newProc k.nextpid tf r)
            nextpid := k.nextpid + 1
            noff := k.noff + 1 }) := by
  unfold allocproc at hrun
  split at hrun
  · cases hrun
    exact ⟨hI, rfl, .inl ⟨rfl, k.nextpid, rfl⟩⟩
  · rename_i p hfind
    have hstate : (k.proc p).state = .unused := by simpa using List.find?_some hfind
    obtain ⟨hp, hno⟩ := hunused p hstate
    dsimp only at hrun
    obtain ⟨hI1, hpage1, hrest1⟩ := takeProc_spec (D := D) hI hp
    generalize k.takeProc p = k1 at *
    have hproc1 : k1.proc = update k.proc p (newProc k.nextpid 0 0) :=
      congrArg Rest.proc hrest1
    have howner1 : k1.owner = k.owner := congrArg Rest.owner hrest1
    -- giving the entry back after a failure
    have hgive : ∀ {k2 k3 : Kernel σ} {tf : ℕ}, k2.core.Inv {} →
        k2.page D = k1.page D → k2.rest = { k1.rest with
          proc := update k.proc p (newProc k.nextpid tf 0) } →
        k2.freeproc p = .ok k3 → k3.release.core.Inv {} ∧
          k3.release.page D = k.page D ∧
          k3.release.rest = { k.rest with nextpid := k.nextpid + 1 } := by
      intro k2 k3 tf hI2 hpage2 hrest2 hfree
      have hproc2 : k2.proc = _ := congrArg Rest.proc hrest2
      have howner2 : k2.owner = k1.owner := congrArg Rest.owner hrest2
      obtain ⟨hI3, hpage3, hrest3⟩ := freeproc_bare_spec (D := D) hI2
        (by rw [howner2, howner1]; exact hno) (by simp [hproc2, newProc])
        (by simp [hproc2, newProc]) hfree
      refine ⟨hI3, (hpage3.trans hpage2).trans hpage1, ?_⟩
      have hback : update k.proc p {} = k.proc := update_eq_self_iff.mpr hp.symm
      change { k3.rest with noff := k3.rest.noff - 1 } = _
      rw [hrest3, hproc2, hrest2, hrest1]
      simp [hback, rest]
    cases hkalloc : k1.kalloc with
    | mk o1 k2 =>
      rw [hkalloc] at hrun
      cases o1 with
      | none =>
        obtain ⟨k3, hfree, hrun⟩ := bind_eq_ok.mp hrun
        cases hrun
        rw [kalloc_none hkalloc, hproc1] at hfree
        have hself : ({ (update k.proc p (newProc k.nextpid 0 0)) p with
            trapframe := 0 } : Proc) = newProc k.nextpid 0 0 := by
          rw [update_self]
          rfl
        rw [hself] at hfree
        have hI3 : (k1.setProc p (newProc k.nextpid 0 0)).core.Inv {} :=
          inv_setProc hI1 (by rw [hproc1, update_self])
        have hrest3 : (k1.setProc p (newProc k.nextpid 0 0)).rest = { k1.rest with
            proc := update k.proc p (newProc k.nextpid 0 0) } := by
          change { k1.rest with proc := update k1.proc p (newProc k.nextpid 0 0) } = _
          rw [hproc1, update_idem]
        obtain ⟨hI4, hpage4, hrest4⟩ := hgive hI3 rfl hrest3 hfree
        exact ⟨hI4, hpage4, .inl ⟨rfl, k.nextpid + 1, hrest4⟩⟩
      | some pg =>
        dsimp only at hrun
        obtain ⟨hI2, hpage2, hrest2⟩ := newTrapframe_spec (D := D) (p := p) hI1
          (by rw [hproc1, update_self]; rfl) hkalloc
        generalize k2.setProc p { k2.proc p with trapframe := pg } = k3 at *
        have hrest3 : k3.rest = { k1.rest with
            proc := update k.proc p (newProc k.nextpid pg 0) } := by
          rw [hrest2, hproc1, update_self, update_idem]
          rfl
        have hproc3 : k3.proc = _ := congrArg Rest.proc hrest3
        have howner3 : k3.owner = k.owner := (congrArg Rest.owner hrest3).trans howner1
        obtain ⟨⟨o2, k4⟩, htable, hrun⟩ := bind_eq_ok.mp hrun
        rcases procPagetable_spec (D := D) hI2 htable with
          ⟨rfl, hI4, hpage4, hsame4⟩ | ⟨r, rfl, hnew⟩
        · obtain ⟨k5, hfree, hrun⟩ := bind_eq_ok.mp hrun
          cases hrun
          obtain ⟨hI5, hpage5, hrest5⟩ := hgive hI4 (hpage4.trans hpage2)
            (Eq.trans hsame4 hrest3) hfree
          exact ⟨hI5, hpage5, .inl ⟨rfl, k.nextpid + 1, hrest5⟩⟩
        · cases hrun
          have hproc4 : k4.proc = k3.proc := congrArg Rest.proc hnew.rest
          refine ⟨inv_setProc hnew.inv rfl, (hnew.page.trans hpage2).trans hpage1,
            .inr ⟨p, r, pg, rfl, hstate, by rw [← howner3]; exact hnew.fresh, hnew.ne_zero, ?_⟩⟩
          change { k4.rest with
            proc := update k4.proc p { k4.proc p with pagetable := r } } = _
          rw [hproc4, hproc3, hnew.rest, hrest3, hrest1]
          simp [Rest.add, newProc, rest]

end

end Xv6.VM.Kernel
