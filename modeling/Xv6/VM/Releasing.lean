import Xv6.VM.Idle
import Xv6.VM.Traversal

/-!
# Releasing memory does not panic

`freewalk` panics on a valid entry that does not point at a table. No caller lets it meet one: the
entries of tables are pointers (`Core.DirsOk`), and the pages of a table that is given back lie
below the size that `uvmfree` is told. So no operation on memory panics with a message of
`freewalk`.

The other checks on the way, such as that of `kfree` on its argument, do not fail either if the
pages that `kinit` freed pass it. `Quiet` lets both results have one proof: it holds of every
message that is not one of these checks, and of every message if the pages are in range.
-/

namespace Xv6.VM

open Fallible Function

namespace Kernel

variable {σ : Type} {D : SwapDev σ} {k k' : Kernel σ} {f : Option (Fin NUM_FRAMES)}
  {s : Option ℕ} {msg : String} {p : ProcId} {r v : ℕ}

/-- The check of `kfree` passes for the pages that `kinit` freed. -/
def Rest.InRange (rest : Rest) : Prop :=
  ∀ pg ∈ rest.managed, rest.kernelEnd ≤ pg ∧ pg < PHYSTOP_PAGE

/-- The message is not one of the page-table code, or the pages are in range. -/
def Rest.Quiet (msg : String) (rest : Rest) : Prop := msg ∉ tableMessages ∨ rest.InRange

/-! ## Pages and entries -/

lemma kfree_quiet {pg : ℕ} (hQ : k.rest.Quiet msg) (hend : k'.kernelEnd = k.kernelEnd)
    (hpg : pg ∈ k.managed) : Avoids msg (k'.kfree pg) := by
  rcases hQ with hT | hrange
  · exact kfree_avoids hT
  · obtain ⟨hle, hlt⟩ : k.kernelEnd ≤ pg ∧ pg < PHYSTOP_PAGE := hrange pg hpg
    unfold kfree
    rw [if_neg (by omega)]
    exact .ok _

/-- `kfree` of a page that is in use. -/
theorem kfree_use_quiet {held : Option ℕ} {pg : ℕ} {u : PageUse} (hQ : k.rest.Quiet msg)
    (hP : k.core.PagesOk held) (hu : k.core.PageUses held pg u) : Avoids msg (k.kfree pg) :=
  kfree_quiet hQ rfl ((hP.managed pg).mpr ⟨u, hu⟩)

lemma kfreeUser_quiet {pa : ℕ} (hQ : k.rest.Quiet msg) (hend : k'.kernelEnd = k.kernelEnd)
    (hpa : pa ∈ k.managed) : Avoids msg (k'.kfreeUser pa) := by
  unfold kfreeUser
  split
  · exact kfree_quiet hQ hend hpa
  · split_ifs
    · exact .ok _
    · dsimp only
      split
      · exact kfree_quiet hQ hend hpa
      · exact kfree_quiet hQ hend hpa

lemma unmapPage_quiet (hQ : k.rest.Quiet msg) (hI : k.core.Inv {})
    (hr : (k.owner r).isSome) (hlt : v < USER_TOP) :
    Avoids msg (k.unmapPage r true (v * PGSIZE)) := by
  have hwalk := walk_eq hr (mul_pgsize_lt_maxva hlt)
  rw [mul_pgsize_div] at hwalk
  unfold unmapPage
  rw [bind_of_ok hwalk]
  cases href : k.core.leafRef r v with
  | none => exact .ok _
  | some q =>
    dsimp only
    rw [pte_eq_leaf href]
    split_ifs with hnone hfree hs
    · exact .ok _
    · exact .ok _
    · exact .ok _
    · -- the page of a resident page is that of its frame
      have hv : (k.core.leaf r v).flags.v = true := by
        by_contra hv
        exact hnone ⟨(Bool.not_eq_true _).mp hv, (Bool.not_eq_true _).mp hs⟩
      obtain ⟨i, hi⟩ := hI.frames.resident r v hlt hv
      refine kfreeUser_quiet hQ rfl ((hI.pages.managed _).mpr ⟨.frame i, hi.2.2.2, ?_⟩)
      exact hi.2.2.1.symm

lemma unmapLoop_quiet (D : SwapDev σ) (n : ℕ) : ∀ {k : Kernel σ} {v : ℕ}, k.rest.Quiet msg →
    k.core.Inv {} → (k.owner r).isSome → v + n ≤ USER_TOP →
    Avoids msg (k.unmapLoop r true n (v * PGSIZE)) := by
  induction n with
  | zero => exact fun _ _ _ _ => .ok _
  | succ n ih =>
    intro k v hQ hI hr hle
    unfold unmapLoop
    refine (unmapPage_quiet hQ hI hr (by omega)).bind fun k1 hk1 => ?_
    obtain ⟨hI1, -, hsame, -⟩ := unmapPage_spec (D := D) hI hr (by omega) hk1
    rw [← Nat.succ_mul]
    exact ih (by rw [show k1.rest = k.rest from hsame]; exact hQ) hI1
      (by rw [hsame.owner]; exact hr) (by omega)

lemma uvmunmap_quiet {n : ℕ} (D : SwapDev σ) (hQ : k.rest.Quiet msg)
    (hI : k.core.Inv {}) (hr : (k.owner r).isSome) (hle : v + n ≤ USER_TOP) :
    Avoids msg (k.uvmunmap r (v * PGSIZE) n true) := by
  unfold uvmunmap
  rw [if_neg (by simp)]
  exact unmapLoop_quiet D n hQ hI hr hle

lemma uvmdealloc_quiet {oldsz newsz : ℕ} (D : SwapDev σ) (hQ : k.rest.Quiet msg)
    (hI : k.core.Inv {}) (hr : (k.owner r).isSome)
    (hle : pageCount oldsz ≤ USER_TOP) : Avoids msg (k.uvmdealloc r oldsz newsz) := by
  unfold uvmdealloc
  split_ifs with hge hlt
  · exact .ok _
  · refine .bind ?_ fun _ _ => .ok _
    rw [pgroundup_eq, pgroundup_eq] at hlt
    have hlt' : pageCount newsz < pageCount oldsz := Nat.lt_of_mul_lt_mul_right hlt
    rw [pgroundup_eq, pgroundup_eq, ← Nat.sub_mul, mul_pgsize_div]
    exact uvmunmap_quiet D hQ hI hr (by omega)
  · exact .ok _

lemma unmapUpper_avoids (hr : (k.owner r).isSome) (hva : v * PGSIZE < MAXVA) :
    Avoids msg (k.uvmunmap r (v * PGSIZE) 1 false) := by
  unfold uvmunmap
  rw [if_neg (by simp)]
  unfold unmapLoop unmapPage
  rw [bind_of_ok (walk_eq hr hva)]
  split
  · exact .ok _
  · simp only [if_true]
    split_ifs
    · exact .ok _
    · exact .ok _

lemma mapUpper_avoids {pa : ℕ} {perm : Flags} (hP : k.core.PagesOk none)
    (hr : (k.owner r).isSome) (hva : v * PGSIZE < MAXVA)
    (hv : (k.core.leaf r v).flags.v = false) :
    Avoids msg (k.mappages r (v * PGSIZE) PGSIZE pa perm) := by
  have hone : PGSIZE / PGSIZE = 1 := by decide
  unfold mappages
  rw [if_neg (by simp), if_neg (by simp), if_neg (by decide), hone]
  unfold mapLoop
  refine .bind ?_ fun res hwalk => ?_
  · unfold walkAlloc
    rw [if_neg (Nat.not_le.mpr hva)]
    exact .ok _
  · obtain ⟨o, k1⟩ := res
    obtain ⟨-, -, hgrown, href⟩ := walkAlloc_spec hP hr hwalk
    cases o with
    | none => exact .ok _
    | some q =>
      have hq := href q rfl
      rw [mul_pgsize_div] at hq
      dsimp only
      rw [pte_eq_leaf hq, hgrown.leaf, hv]
      exact .ok _

/-! ## `freewalk` -/

/-- An entry is skipped, or it points at a table that can be freed. -/
theorem freewalkEntry_avoids {depth pg i : ℕ} (hptr : (k.ptes pg i).IsPointer)
    (hfree : (k.ptes pg i).flags.v = true → Avoids msg (freewalk depth k (k.ptes pg i).num)) :
    Avoids msg (freewalkEntry depth pg k i) := by
  unfold freewalkEntry
  dsimp only
  split_ifs with hdir hv
  · exact (hfree hdir.1).bind fun _ _ => .ok _
  · exact absurd ⟨hv, hptr hv⟩ hdir
  · exact .ok _

lemma freewalk_one_avoids {pg : ℕ} (hfree : Avoids msg (k.kfree pg))
    (hnone : ∀ b < 512, (k.ptes pg b).flags.v = false) : Avoids msg (freewalk 1 k pg) := by
  have hstep : ∀ b t t', b < 512 → t = k → freewalkEntry 0 pg t b = .ok t' → t' = k := by
    rintro b t t' hb rfl hbody
    rcases freewalkEntry_ok hbody with ⟨-, rfl⟩ | ⟨hv, -⟩
    · rfl
    · rw [hnone b hb] at hv
      cases hv
  rw [freewalk_succ]
  refine (Avoids.foldlM_range (I := fun _ t => t = k) 512 hstep ?_ k rfl).bind fun t ht => ?_
  · rintro b t hb rfl
    have hv := hnone b hb
    exact freewalkEntry_avoids (fun hc => by rw [hv] at hc; cases hc)
      fun hc => by rw [hv] at hc; cases hc
  · rw [foldlM_range_invariant (I := fun _ t => t = k) 512 hstep k t rfl ht]
    exact hfree

lemma Shrunk.quiet (h : Shrunk r k k') (hQ : k.rest.Quiet msg) : k'.rest.Quiet msg := by
  obtain ⟨_, _, _, rfl⟩ := h.only
  exact hQ

lemma Shrunk.invalid (h : Shrunk r k k') (hempty : ∀ v, (k.core.leaf r v).flags.v = false)
    (v : ℕ) : (k'.core.leaf r v).flags.v = false := by
  rcases h.leaf r v with heq | ⟨-, -, hnone⟩
  · rw [heq]
    exact hempty v
  · rw [hnone]

lemma freewalk_two_avoids {i l1 : ℕ} (hQ : k.rest.Quiet msg)
    (hP : k.core.PagesOk none) (hl : k.core.dir1 r i = some l1)
    (hempty : ∀ v, (k.core.leaf r v).flags.v = false) : Avoids msg (freewalk 2 k l1) := by
  have hstep : ∀ b t t', b < 512 → Level1Loop k r l1 b t →
      freewalkEntry 1 l1 t b = .ok t' → Level1Loop k r l1 (b + 1) t' :=
    fun b t t' hb ht => ht.step hb hl
  rw [freewalk_succ]
  refine (Avoids.foldlM_range 512 hstep ?_ k (.init hP r l1)).bind fun t hloop => ?_
  · intro b t hb ht
    have hl' : t.core.dir1 r i = some l1 := by rw [ht.dir1, hl]
    refine freewalkEntry_avoids (ht.pages.dirs.level1 r i l1 b hl' hb) fun hv => ?_
    have hdir0 := ht.dir0 hb hl hv
    refine freewalk_one_avoids (kfree_use_quiet (u := .dir0 r (i * 512 + b)) (ht.shrunk.quiet hQ)
      ht.pages hdir0) fun b' hb' => ?_
    -- the entries of the level-0 page are the entries of the table, and those are not valid
    have href : t.core.leafRef r ((i * 512 + b) * 512 + b') = some ((t.ptes l1 b).num, b') := by
      refine Core.leafRef_eq_some.mpr ⟨?_, by omega⟩
      rw [show ((i * 512 + b) * 512 + b') / 512 = i * 512 + b by omega]
      exact hdir0
    change (t.core.ptes _ _).flags.v = false
    rw [← Core.leaf_eq_of_ref href]
    exact ht.shrunk.invalid hempty _
  · have ht := foldlM_range_invariant 512 hstep k t (.init hP r l1) hloop
    refine kfree_use_quiet (u := .dir1 r i) (ht.shrunk.quiet hQ) ht.pages ?_
    change t.core.dir1 r i = some l1
    rw [ht.dir1, hl]

lemma freewalk_three_avoids (hQ : k.rest.Quiet msg)
    (hP : k.core.PagesOk none) (hr : (k.owner r).isSome)
    (hempty : ∀ v, (k.core.leaf r v).flags.v = false) : Avoids msg (freewalk 3 k r) := by
  have hstep : ∀ b t t', b < 512 → RootLoop k r b t →
      freewalkEntry 2 r t b = .ok t' → RootLoop k r (b + 1) t' :=
    fun b t t' hb ht => ht.step hb hr
  rw [freewalk_succ]
  refine (Avoids.foldlM_range 512 hstep ?_ k (.init hP r)).bind fun t hloop => ?_
  · intro b t hb ht
    refine freewalkEntry_avoids (ht.pages.dirs.root r b (ht.owner hr) hb) fun hv => ?_
    have hl : t.core.dir1 r b = some (t.ptes r b).num :=
      (if_pos ⟨ht.owner hr, hb⟩).trans (if_pos hv)
    exact freewalk_two_avoids (ht.shrunk.quiet hQ) ht.pages hl (ht.shrunk.invalid hempty)
  · have ht := foldlM_range_invariant 512 hstep k t (.init hP r) hloop
    exact kfree_use_quiet (u := .root) (ht.shrunk.quiet hQ) ht.pages (ht.owner hr)

/-! ## Tables -/

lemma uvmfree_avoids {sz : ℕ} (D : SwapDev σ) (hQ : k.rest.Quiet msg)
    (hI : k.core.Inv {}) (hr : (k.owner r).isSome) (hsz : pageCount sz ≤ USER_TOP)
    (hbelow : ∀ v, pageCount sz ≤ v → k.core.leaf r v = {}) : Avoids msg (k.uvmfree r sz) := by
  have hsz' : pgroundup sz / PGSIZE ≤ USER_TOP := by simpa using hsz
  have hunmap : Avoids msg
      (if 0 < sz then k.uvmunmap r 0 (pgroundup sz / PGSIZE) true else pure k) := by
    split_ifs
    · rw [show (0 : ℕ) = 0 * PGSIZE by simp]
      exact uvmunmap_quiet D hQ hI hr (by omega)
    · exact .ok k
  unfold uvmfree
  refine hunmap.bind fun k1 hk1 => ?_
  obtain ⟨hI1, -, hsame1, hleaf1⟩ := unmapUser_spec (D := D) hI hr hsz' hk1
  have hempty : ∀ v, k1.core.leaf r v = {} := by
    intro v
    rw [hleaf1, setRange, pgroundup_div]
    split_ifs with hv
    · rfl
    · exact hbelow v (by simpa using hv)
  exact (freewalk_three_avoids (by rw [show k1.rest = k.rest from hsame1]; exact hQ) hI1.pages
    (by rw [hsame1.owner]; exact hr) fun v => by rw [hempty]).bind fun _ _ => .ok _

/-- A table with the trapframe and the trampoline mapped has no other entry above its pages. -/
theorem leaf_eq_empty {h : Held} {n : ℕ} (hI : k.core.Inv h)
    (hupper : k.rest.upper r = framedUpper) (habove : ∀ v, n ≤ v → k.page D r v = none)
    (hv : n ≤ v) (htf : v ≠ USER_TOP) (htramp : v ≠ USER_TOP + 1) : k.core.leaf r v = {} := by
  by_cases hlt : v < USER_TOP
  · exact (page_eq_none_iff hI hlt).mp (habove v hv)
  · have hbits : k.rest.upper r v = upperBits (k.core.leaf r v) := if_pos (Nat.le_of_not_lt hlt)
    rw [hupper, framedUpper, if_neg (by tauto)] at hbits
    refine hI.shape r v (congrArg Prod.fst hbits).symm ?_
    by_contra hs
    exact hlt (hI.slots.swapped (r, v) _ ⟨(Bool.not_eq_false _).mp hs, rfl⟩).2.1

lemma procFreepagetable_avoids {sz : ℕ} (hQ : k.rest.Quiet msg)
    (hI : k.core.Inv {}) (hr : (k.owner r).isSome) (hsz : pageCount sz ≤ USER_TOP)
    (hupper : k.rest.upper r = framedUpper)
    (habove : ∀ v, pageCount sz ≤ v → k.page D r v = none) :
    Avoids msg (k.procFreepagetable r sz) := by
  unfold procFreepagetable
  rw [trampoline_eq, trapframe_eq]
  refine (unmapUpper_avoids hr (by decide)).bind fun k1 hk1 => ?_
  obtain ⟨hI1, -, hrest1, hleaf1⟩ := unmapUpper_spec (D := D) hI hr (by omega) hk1
  have howner1 : k1.owner = k.owner := congrArg Rest.owner hrest1
  have hr1 : (k1.owner r).isSome := by rw [howner1]; exact hr
  refine (unmapUpper_avoids hr1 (by decide)).bind fun k2 hk2 => ?_
  obtain ⟨hI2, -, hrest2, hleaf2⟩ := unmapUpper_spec (D := D) hI1 hr1 le_rfl hk2
  have howner2 : k2.owner = k.owner := (congrArg Rest.owner hrest2).trans howner1
  refine uvmfree_avoids D (by rw [hrest2, hrest1]; exact hQ) hI2 (by rw [howner2]; exact hr) hsz
    fun v hv => ?_
  rw [hleaf2, hleaf1]
  unfold setAt
  split_ifs with htf htramp
  · rfl
  · rfl
  · exact leaf_eq_empty hI hupper habove hv (fun hc => htf ⟨rfl, hc⟩) fun hc => htramp ⟨rfl, hc⟩

lemma procPagetable_avoids {trampoline : ℕ} (D : SwapDev σ) (hQ : k.rest.Quiet msg)
    (hI : k.core.Inv {}) : Avoids msg (k.procPagetable trampoline p) := by
  unfold procPagetable uvmcreate
  rw [trampoline_eq, trapframe_eq]
  cases hkalloc : k.kalloc with
  | mk o1 k1 =>
    cases o1 with
    | none => exact .ok _
    | some r =>
      dsimp only
      obtain ⟨hI2, -, hleaf2, hrest2, hnew, -⟩ := newRoot_spec (D := D) p hI hkalloc
      have hempty : ∀ v, k.core.leaf r v = {} := leaf_of_unowned hnew
      refine (mapUpper_avoids hI2.pages (by simp [setOwner]) (by decide)
        (by rw [hleaf2, hempty])).bind fun res3 hk3 => ?_
      obtain ⟨b3, k3⟩ := res3
      rcases mapUpper_spec (D := D) hI2 (by simp [setOwner]) (by omega) rfl hk3 with
        ⟨rfl, hI3, -, hrest3, hleaf3⟩ | ⟨rfl, hI3, hgrown3⟩
      · have howner3 : (k3.owner r).isSome := by
          rw [show k3.owner = _ from congrArg Rest.owner hrest3]
          simp [rest, setOwner]
        refine (mapUpper_avoids hI3.pages howner3 (by decide) ?_).bind fun res4 hk4 => ?_
        · rw [hleaf3, setAt, if_neg (by omega), hleaf2, hempty]
        obtain ⟨b4, k4⟩ := res4
        rcases mapUpper_spec (D := D) hI3 howner3 le_rfl rfl hk4 with
          ⟨rfl, -⟩ | ⟨rfl, hI4, hgrown4⟩
        · exact .ok _
        · -- the trampoline is unmapped again
          have howner4 : (k4.owner r).isSome := by rw [hgrown4.same.owner]; exact howner3
          refine (unmapUpper_avoids howner4 (by decide)).bind fun k5 hk5 => ?_
          obtain ⟨hI5, -, hrest5, hleaf5⟩ := unmapUpper_spec (D := D) hI4 howner4 (by omega) hk5
          have howner5 : k5.owner = k4.owner := congrArg Rest.owner hrest5
          have hQ5 : k5.rest.Quiet msg := by
            rw [hrest5, show k4.rest = k3.rest from hgrown4.same, hrest3, hrest2]
            exact hQ
          refine (uvmfree_avoids D hQ5 hI5 (by rw [howner5]; exact howner4) (by decide)
            fun v _ => ?_).bind fun _ _ => .ok _
          rw [hleaf5, hgrown4.leaf, hleaf3, hleaf2]
          unfold setAt
          split_ifs
          · rfl
          · exact hempty v
      · have hQ3 : k3.rest.Quiet msg := by
          rw [show k3.rest = _ from hgrown3.same, hrest2]
          exact hQ
        refine (uvmfree_avoids D hQ3 hI3 (by rw [hgrown3.same.owner]; simp [setOwner]) (by decide)
          fun v _ => ?_).bind fun _ _ => .ok _
        rw [hgrown3.leaf, hleaf2, hempty]

/-! ## Processes -/

lemma freeproc_avoids (hQ : k.rest.Quiet msg) (hI : k.core.Inv {})
    (hsz : pageCount (k.proc p).sz ≤ USER_TOP)
    (htable : (k.proc p).pagetable ≠ 0 → (k.owner (k.proc p).pagetable).isSome ∧
      k.rest.upper (k.proc p).pagetable = framedUpper)
    (habove : ∀ v, pageCount (k.proc p).sz ≤ v → k.page D (k.proc p).pagetable v = none) :
    Avoids msg (k.freeproc p) := by
  unfold freeproc
  have hfree : Avoids msg
      (if (k.proc p).trapframe ≠ 0 then k.kfree (k.proc p).trapframe else pure k) := by
    split_ifs with htf
    · exact kfree_use_quiet (u := .trapframe p) hQ hI.pages ⟨rfl, htf⟩
    · exact .ok k
  refine hfree.bind fun k1 hk1 => ?_
  obtain ⟨hI2, hpage2, hrest2⟩ := freeTrapframe_spec (D := D) hI hk1
  have hproc2 := congrArg Rest.proc hrest2
  have howner2 := congrArg Rest.owner hrest2
  have hupper2 := congrArg Rest.upper hrest2
  change (k1.setProc p { k1.proc p with trapframe := 0 }).proc = _ at hproc2
  change (k1.setProc p { k1.proc p with trapframe := 0 }).owner = k.owner at howner2
  change (k1.setProc p { k1.proc p with trapframe := 0 }).rest.upper = k.rest.upper at hupper2
  dsimp only
  generalize k1.setProc p { k1.proc p with trapframe := 0 } = k2 at *
  have hpt : (k2.proc p).pagetable = (k.proc p).pagetable := by simp [hproc2]
  have hsz2 : (k2.proc p).sz = (k.proc p).sz := by simp [hproc2]
  rw [hpt, hsz2]
  refine .bind ?_ fun k3 _ => .ok _
  split_ifs with hne
  · obtain ⟨hr, hupper⟩ := htable hne
    exact procFreepagetable_avoids (by rw [hrest2]; exact hQ) hI2 (by rw [howner2]; exact hr) hsz
      (by rw [hupper2, hupper]) (by rw [hpage2]; exact habove)
  · exact .ok k2

/-- `freeproc` of a process without a page table. -/
theorem freeproc_bare_avoids (D : SwapDev σ) (hQ : k.rest.Quiet msg)
    (hI : k.core.Inv {}) (hpt : (k.proc p).pagetable = 0)
    (hsz : (k.proc p).sz = 0) : Avoids msg (k.freeproc p) := by
  refine freeproc_avoids (D := D) hQ hI ?_ (fun hne => absurd hpt hne) fun v _ => ?_
  · rw [hsz]
    decide
  · rw [hpt]
    exact page_of_unowned (owner_zero hI) v

lemma allocproc_avoids {trampoline : ℕ} (D : SwapDev σ) (hQ : k.rest.Quiet msg)
    (hI : k.core.Inv {})
    (hunused : ∀ p, (k.proc p).state = .unused → k.proc p = {}) :
    Avoids msg (k.allocproc trampoline) := by
  unfold allocproc
  split
  · exact .ok _
  · rename_i p hfind
    have hstate : (k.proc p).state = .unused := by simpa using List.find?_some hfind
    dsimp only
    obtain ⟨hI1, -, hrest1⟩ := takeProc_spec (D := D) hI (hunused p hstate)
    have hproc1 := congrArg Rest.proc hrest1
    change (k.takeProc p).proc = update k.proc p (newProc k.nextpid 0 0) at hproc1
    have hQ1 : (k.takeProc p).rest.Quiet msg := by
      rw [hrest1]
      exact hQ
    generalize k.takeProc p = k1 at *
    cases hkalloc : k1.kalloc with
    | mk o1 k2 =>
      cases o1 with
      | none =>
        dsimp only
        rw [kalloc_none hkalloc]
        have hself : k1.proc p = newProc k.nextpid 0 0 := by rw [hproc1, update_self]
        refine .bind ?_ fun _ _ => .ok _
        refine freeproc_bare_avoids (k := k1.setProc p _) D hQ1 (inv_setProc hI1 ?_) ?_ ?_
        · rw [hself]
          rfl
        · simp [setProc, hself, newProc]
        · simp [setProc, hself, newProc]
      | some pg =>
        dsimp only
        obtain ⟨hI2, -, hrest2⟩ := newTrapframe_spec (D := D) (p := p) hI1
          (by rw [hproc1, update_self]; rfl) hkalloc
        have hproc2 := congrArg Rest.proc hrest2
        change (k2.setProc p { k2.proc p with trapframe := pg }).proc = _ at hproc2
        have hQ3 : (k2.setProc p { k2.proc p with trapframe := pg }).rest.Quiet msg := by
          rw [hrest2]
          exact hQ1
        generalize k2.setProc p { k2.proc p with trapframe := pg } = k3 at *
        refine (procPagetable_avoids D hQ3 hI2).bind fun res hres => ?_
        obtain ⟨o2, k4⟩ := res
        rcases procPagetable_spec (D := D) hI2 hres with ⟨rfl, hI4, -, hsame4⟩ | ⟨r, rfl, -⟩
        · have hQ4 : k4.rest.Quiet msg := by
            rw [show k4.rest = k3.rest from hsame4]
            exact hQ3
          refine (freeproc_bare_avoids D hQ4 hI4 ?_ ?_).bind fun _ _ => .ok _
          · rw [hsame4.proc, hproc2, hproc1]
            simp [newProc]
          · rw [hsame4.proc, hproc2, hproc1]
            simp [newProc]
        · exact .ok _

end Kernel

/-! ## Operations -/

namespace Idle

open Kernel

variable {σ : Type} {D : SwapDev σ} {m : List ℕ} {k : Kernel σ} {msg : String} {p : ProcId}
  {trampoline addr : ℕ}

section Quiet

variable (hk : Idle D m k) (hQ : k.rest.Quiet msg)

include hk hQ

lemma freeproc_avoids : Avoids msg (k.freeproc p) :=
  Kernel.freeproc_avoids hQ hk.inv (hk.top p)
    (fun hne => ⟨by rw [hk.attached p hne]; rfl, hk.settled.upper p hne⟩) fun _ hv => hk.above hv

lemma allocproc_avoids : Avoids msg (k.allocproc trampoline) :=
  Kernel.allocproc_avoids D hQ hk.inv fun p => hk.settled.unused p

lemma allocproc_quiet {o : Option ProcId} {k1 : Kernel σ}
    (hrun : k.allocproc trampoline = .ok (o, k1)) : k1.rest.Quiet msg := by
  obtain ⟨-, -, hcases⟩ := allocproc_spec (D := D) hk.inv (fun p => hk.unused) hrun
  rcases hcases with ⟨-, pid, hrest⟩ | ⟨np, r, tf, -, -, -, -, hrest⟩
  · rw [hrest]
    exact hQ
  · rw [hrest]
    exact hQ

lemma kfork_avoids_of_uvmcopy (hp : (k.proc p).state ≠ .unused)
    (hcopy : ∀ np k1, k.allocproc trampoline = .ok (some np, k1) →
      Avoids msg (k1.uvmcopy D (k1.proc p).pagetable (k1.proc np).pagetable (k1.proc p).sz np)) :
    Avoids msg (k.kfork D trampoline p) := by
  unfold Kernel.kfork
  refine (hk.allocproc_avoids hQ).bind fun res1 halloc => ?_
  obtain ⟨o1, k1⟩ := res1
  obtain ⟨hk1, hcases⟩ := hk.allocproc halloc
  rcases hcases with ⟨rfl, -⟩ | ⟨np, rfl, hnp, hnp1, hother, hempty, -⟩
  · exact .ok _
  · refine (hcopy np k1 halloc).bind fun res2 hcopy => ?_
    obtain ⟨copied, k2⟩ := res2
    cases copied with
    | true => exact .ok _
    | false =>
      -- the copy failed, and the child is given up
      have hne : p ≠ np := by
        rintro rfl
        exact hp hnp
      obtain ⟨hI2, hsame2, hres⟩ :=
        hk1.uvmcopy (by rw [hother p hne]; exact hp) hnp1 hne hempty hcopy
      have hpage2 : k2.page D = k1.page D := (hres.resolve_left fun hc => by cases hc.1).2
      obtain ⟨hk2, -⟩ := hk1.of_page_eq hI2 hsame2 hpage2
      have hQ2 : k2.rest.Quiet msg := by
        rw [show k2.rest = k1.rest from hsame2]
        exact hk.allocproc_quiet hQ halloc
      exact (hk2.freeproc_avoids hQ2).bind fun _ _ => .ok _

/-- `kexec` panics only where the new image is built. -/
theorem kexec_avoids_of_buildImage {ip : File} {argv : List (List UInt8)}
    (hp : (k.proc p).state ≠ .unused) (hargs : ∀ arg ∈ argv, arg.length < PGSIZE)
    (himage : (ip.readi 0 ELFHDR_SIZE).length = ELFHDR_SIZE →
      (ElfHdr.ofBytes (ip.readi 0 ELFHDR_SIZE)).magic = ELF_MAGIC →
      ∀ r k1, k.procPagetable trampoline p = .ok (some r, k1) →
        Avoids msg (k1.buildImage D p ip (ElfHdr.ofBytes (ip.readi 0 ELFHDR_SIZE)) r argv)) :
    Avoids msg (k.kexec D trampoline p ip argv) := by
  unfold Kernel.kexec
  dsimp only
  split_ifs with hlen hmagic
  · exact .ok _
  · exact .ok _
  refine (procPagetable_avoids D hQ hk.inv).bind fun res1 htable => ?_
  obtain ⟨o, k1⟩ := res1
  rcases procPagetable_spec (D := D) hk.inv htable with ⟨rfl, -⟩ | ⟨r, rfl, hnew⟩
  · exact .ok _
  · refine (himage (not_not.mp hlen) (not_not.mp hmagic) r k1 htable).bind fun res2 hbuild => ?_
    obtain ⟨⟨osp, sz⟩, k2⟩ := res2
    obtain ⟨a, rfl, hB, -⟩ := hnew.image hk.attached hargs hbuild
    have hrest2 : k2.rest = k.rest.add r p := Eq.trans hB.same hnew.rest
    have hQ2 : k2.rest.Quiet msg := by
      rw [hrest2]
      exact hQ
    cases osp with
    | none =>
      refine .bind ?_ fun _ _ => .ok _
      exact procFreepagetable_avoids hQ2 hB.inv (by rw [hB.same.owner, hnew.owner]; rfl) hB.top
        (by rw [show k2.rest = k1.rest from hB.same, hnew.rest]; exact update_self _ _ _)
        (by rw [hB.page_self]; exact hB.above)
    | some sp =>
      refine .bind ?_ fun _ _ => .ok _
      have hproc2 : k2.proc = k.proc := hB.same.proc.trans hnew.proc
      have hr := hk.owner hp
      have hne : (k.proc p).pagetable ≠ r := by
        rintro heq
        rw [heq, hnew.fresh] at hr
        cases hr
      rw [hproc2]
      refine procFreepagetable_avoids (D := D) (k := k2.setProc p _) hQ2
        (inv_setProc hB.inv (by rw [hproc2])) ?_ (hk.top p) ?_ fun v hv => ?_
      · have howner : k2.owner = update k.owner r (some p) := congrArg Rest.owner hrest2
        change (k2.owner _).isSome = true
        rw [howner, update_of_ne hne, hr]
        rfl
      · change k2.rest.upper _ = _
        rw [hrest2]
        exact (update_of_ne hne _ _).trans (hk.settled.upper p (hk.settled.live p hp))
      · change k2.page D _ v = none
        rw [hB.page, hnew.page, update_of_ne hne]
        exact hk.above hv

end Quiet

variable (hk : Idle D m k) (hT : msg ∉ tableMessages) (hE : msg ∉ evictMessages)
  (hD : D.Avoids msg)

include hk hT hE hD

lemma kfork_avoids (hp : (k.proc p).state ≠ .unused) : Avoids msg (k.kfork D trampoline p) :=
  hk.kfork_avoids_of_uvmcopy (.inl hT) hp fun _ _ _ =>
    ((stable_of_avoids hT hE hD _).uvmcopy rfl).avoids

lemma kexec_avoids {ip : File} {argv : List (List UInt8)} (hp : (k.proc p).state ≠ .unused)
    (hargs : ∀ arg ∈ argv, arg.length < PGSIZE) :
    Avoids msg (k.kexec D trampoline p ip argv) :=
  hk.kexec_avoids_of_buildImage (.inl hT) hp hargs fun _ _ _ _ _ =>
    ((stable_of_avoids hT hE hD _).buildImage rfl).avoids

lemma kwait_avoids (hp : (k.proc p).state ≠ .unused) : Avoids msg (k.kwait D p addr) := by
  unfold Kernel.kwait
  split
  · exact .ok _
  · rename_i pp hfind
    obtain ⟨hk1, -⟩ := hk.acquire
    obtain ⟨hk2, -⟩ := hk1.acquire
    refine .bind ?_ fun res hcopy => ?_
    · split_ifs
      · exact ((stable_of_avoids hT hE hD _).copyout rfl).avoids
      · exact .ok _
    · obtain ⟨copied, k3⟩ := res
      dsimp only
      split_ifs
      · exact ((hk2.copyStatus hp hcopy).freeproc_avoids (.inl hT)).bind fun _ _ => .ok _
      · exact .ok _

end Idle

end Xv6.VM
