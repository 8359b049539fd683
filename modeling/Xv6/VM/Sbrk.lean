import Xv6.VM.Supply
import Xv6.VM.OutOfMemory
import Xv6.VM.Transparency

/-!
# `sbrk` is exact or has no effect

If `sys_sbrk` returns, it has changed the size and the pages of the process as asked, or nothing.
It does not return if `uvmalloc` needs a user page and `kalloc_user` has nothing to evict or no slot
for it: then the kernel panics. `sbrk_exact_iff` says exactly when, by the supply of frames, pages
and slots before the call.
-/

namespace Xv6.VM

open Fallible Kernel Nat

variable {σ : Type} {D : SwapDev σ} {m : List ℕ} {k k' : Kernel σ} {p : ProcId} {n : ℤ}
  {lazy b : Bool}

namespace Kernel

/-- The byte at `va` of the process `p`; a page that is not allocated reads as zeros. -/
def userByte (D : SwapDev σ) (k : Kernel σ) (p : ProcId) (va : ℕ) : UInt8 :=
  (k.userPage D p (va / PGSIZE)).bytes ⟨va % PGSIZE, mod_pgsize_lt va⟩

/-- The size that `sbrk n` asks for, or the old one if it is negative. -/
def sbrkSize (sz : ℕ) (n : ℤ) : ℕ := if 0 ≤ sz + n then (sz + n).toNat else sz

/-- `sbrk` failed and had no effect: the size and every page of every process are as before, and
frames and slots in use are those of pages. -/
structure SbrkFailed (D : SwapDev σ) (k : Kernel σ) (k' : Kernel σ) : Prop where
  sz : ∀ q, (k.proc q).state ≠ .unused → (k'.proc q).sz = (k.proc q).sz
  page : ∀ q v, (k.proc q).state ≠ .unused → v * PGSIZE < (k.proc q).sz →
    k'.userPage D q v = k.userPage D q v
  bijective : k'.Bijective

/-- `sbrk` by `p` succeeded. -/
structure SbrkDone (D : SwapDev σ) (k : Kernel σ) (p : ProcId) (n : ℤ) (k' : Kernel σ) : Prop where
  sz : (k'.proc p).sz = sbrkSize (k.proc p).sz n
  top : (k'.proc p).sz ≤ TRAPFRAME
  kept : ∀ va < min (k.proc p).sz (k'.proc p).sz, k'.userByte D p va = k.userByte D p va
  zeros : ∀ v, pgroundup (k.proc p).sz ≤ v * PGSIZE → v * PGSIZE < (k'.proc p).sz →
    (k'.userPage D p v).bytes = 0
  nothingAbove : k'.NothingAbove p
  bijective : k'.Bijective

/-- `sys_sbrk` returns, and either fails without effect or does exactly what it is asked to. -/
def SbrkExact (D : SwapDev σ) (k : Kernel σ) (p : ProcId) (n : ℤ) (lazy : Bool) : Prop :=
  ∃ b k', k.sysSbrk D p n lazy = .ok (b, k') ∧
    (b = false → SbrkFailed D k k') ∧ (b = true → SbrkDone D k p n k')

/-- The number of pages that `sbrk` has to allocate at once. -/
def sbrkPages (k : Kernel σ) (p : ProcId) (n : ℤ) (lazy : Bool) : ℕ :=
  if lazy = false ∧ 0 < n ∧ (k.proc p).sz + n.toNat ≤ TRAPFRAME then
    pageCount ((k.proc p).sz + n.toNat) - pageCount (k.proc p).sz
  else 0

/-- The supply lasts for the pages of `sbrk`. -/
def SbrkSupplied (k : Kernel σ) (p : ProcId) (n : ℤ) (lazy : Bool) : Prop :=
  Supply.Lasts (k.own p) (k.newTables (k.proc p).pagetable (pageCount (k.proc p).sz))
    (k.sbrkPages p n lazy) (pageCount (k.proc p).sz) k.supply
  deriving Decidable

end Kernel

/-! ## What `sbrk` did -/

/-- The address space after `sbrk`. -/
theorem AddressSpace.sbrk_spec {a a' : AddressSpace} (h : a.sbrk n lazy = some a')
    (hn : -2 ^ 31 ≤ n) (htop : a.sz ≤ TRAPFRAME)
    (habove : ∀ v, pageCount a.sz ≤ v → a.page v = none) :
    a'.sz = sbrkSize a.sz n ∧ a'.sz ≤ TRAPFRAME ∧
      (∀ v, v * PGSIZE < a.sz → v * PGSIZE < a'.sz → a'.page v = a.page v) ∧
      ∀ v, pageCount a.sz ≤ v → v * PGSIZE < a'.sz → (a'.userPage v).bytes = 0 := by
  have hbound : TRAPFRAME < 2 ^ 38 := by decide
  unfold AddressSpace.sbrk at h
  unfold sbrkSize
  split_ifs at h with hpos hover hlazy hneg
  · -- lazily
    cases h
    refine ⟨?_, Nat.le_of_not_lt hover, fun _ _ _ => rfl, fun v hv _ => ?_⟩
    · rw [if_pos (by omega)]
      dsimp only
      omega
    · simp [AddressSpace.userPage, habove v hv, UPage.zeros, UPage.ofFlags]
  · -- with new pages of zeros
    cases h
    refine ⟨?_, Nat.le_of_not_lt hover, fun v hv _ => ?_, fun v hv hlt => ?_⟩
    · rw [if_pos (by omega)]
      dsimp only
      omega
    · have := lt_pageCount.mpr hv
      exact if_neg (by omega)
    · have := lt_pageCount.mpr hlt
      have hmono := pageCount_mono (le_add_right a.sz n.toNat)
      dsimp only at this
      have hpage : a.page.alloc a.sz (a.sz + n.toNat) lazyPerm v = some (.zeros lazyPerm) :=
        if_pos ⟨hv, by omega⟩
      unfold AddressSpace.userPage
      dsimp only
      rw [hpage]
      rfl
  · -- shrinking
    cases h
    have hsub : min a.sz (sub64 a.sz n.natAbs) = if 0 ≤ (a.sz : ℤ) + n then ((a.sz : ℤ) + n).toNat
        else a.sz := by
      unfold sub64
      split_ifs with hle
      · omega
      · omega
    refine ⟨hsub, (min_le_left _ _).trans htop, fun v _ hv => ?_, fun v hv hlt => ?_⟩
    · have := lt_pageCount.mpr hv
      dsimp only at this
      exact if_neg (by omega)
    · have := lt_pageCount.mpr hlt
      dsimp only at this
      have hmono := pageCount_mono (min_le_left a.sz (sub64 a.sz n.natAbs))
      omega
  · cases h
    refine ⟨?_, htop, fun _ _ _ => rfl, fun v hv hlt => ?_⟩
    · have : n = 0 := by omega
      simp [this]
    · have := lt_pageCount.mpr hlt
      omega

/-- The size of a process does not reach the trapframe. -/
theorem Idle.sz_le (hk : Idle D m k) (p : ProcId) : (k.proc p).sz ≤ TRAPFRAME := by
  have htop : pageCount (k.proc p).sz ≤ USER_TOP := hk.top p
  by_contra hgt
  have hlt : USER_TOP * PGSIZE < (k.proc p).sz := by
    rw [← trapframe_eq]
    omega
  exact absurd (lt_pageCount.mpr hlt) (by omega)

/-- A failed `sbrk` has no effect. -/
theorem Idle.sbrkFailed (hk : Idle D m k) (hD : D.Lawful) (hk' : Idle D m k')
    (hview : k'.view D = k.view D) : SbrkFailed D k k' := by
  have hsame : ∀ q, (k.proc q).state ≠ .unused →
      k'.view D q = some ⟨(k.proc q).sz, k.page D (k.proc q).pagetable⟩ := by
    intro q hq
    rw [hview, Idle.view_eq hq]
  refine ⟨fun q hq => ?_, fun q v hq hv => ?_, hk'.bijective⟩
  · exact (hk'.userPage_eq hD (hsame q hq)).1.symm
  · rw [(hk'.userPage_eq hD (hsame q hq)).2 v hv, (hk.userPage_eq hD (Idle.view_eq hq)).2 v hv]

/-- A `sbrk` that returns the old size has done what it was asked to. -/
theorem Idle.sbrkDone (hk : Idle D m k) (hD : D.Lawful) (hp : (k.proc p).state ≠ .unused)
    (hn : -2 ^ 31 ≤ n) (hk' : Idle D m k')
    (hview : (k.view D).modify p (·.sbrk n lazy) = some (k'.view D)) : SbrkDone D k p n k' := by
  obtain ⟨a, a', ha, hsbrk, hupdate⟩ := Unlimited.exists_of_modify hview
  have ha' : k'.view D p = some a' := by
    rw [hupdate, Function.update_self]
  obtain ⟨hsz, hpage⟩ := hk.userPage_eq hD ha
  obtain ⟨hsz', hpage'⟩ := hk'.userPage_eq hD ha'
  have hlive' := Idle.live_of_view ha'
  have habove : ∀ v, pageCount a.sz ≤ v → a.page v = none := by
    rw [Idle.view_eq hp] at ha
    cases ha
    exact fun v hv => hk.above hv
  obtain ⟨hnew, htop, hkept, hzeros⟩ :=
    AddressSpace.sbrk_spec hsbrk hn (by rw [hsz]; exact hk.sz_le p) habove
  rw [hsz', hsz] at hnew
  rw [hsz'] at htop hkept hzeros
  rw [hsz] at hkept hzeros
  refine ⟨hnew, htop, fun va hva => ?_, fun v hv hlt => ?_, hk'.nothingAbove hlive', hk'.bijective⟩
  · have hdown := div_mul_le_self va PGSIZE
    have hlt : va / PGSIZE * PGSIZE < (k.proc p).sz := by omega
    have hlt' : va / PGSIZE * PGSIZE < (k'.proc p).sz := by omega
    unfold userByte
    rw [hpage' _ (by rw [hsz']; exact hlt'), hpage _ (by rw [hsz]; exact hlt),
      AddressSpace.userPage, hkept _ hlt hlt']
    rfl
  · rw [pgroundup_eq] at hv
    rw [hpage' v (by rw [hsz']; exact hlt)]
    exact hzeros v (Nat.le_of_mul_le_mul_right hv (by decide)) hlt

/-! ## When `sbrk` returns -/

lemma Idle.growing (hk : Idle D m k) (hp : (k.proc p).state ≠ .unused) (hlevel : k.LevelsValid)
    (hrange : k.rest.InRange) : k.Growing p (k.proc p).pagetable where
  inv := hk.inv
  table r p := hk.settled.owner r p
  owner := hk.owner hp
  framed := hk.framed hp
  levels := hlevel
  range := hrange

/-- `sys_sbrk` does not panic exactly if the supply lasts. -/
theorem Idle.sbrk_returns_iff (hk : Idle D m k) (hp : (k.proc p).state ≠ .unused)
    (hlevel : k.LevelsValid) (hrange : k.rest.InRange) (hD : ∀ msg, D.Avoids msg) :
    (∃ x, k.sysSbrk D p n lazy = .ok x) ↔ k.SbrkSupplied p n lazy := by
  have hnone : k.sbrkPages p n lazy = 0 → k.SbrkSupplied p n lazy := by
    intro hzero
    unfold SbrkSupplied
    rw [hzero]
    trivial
  by_cases hmode : lazy = false ∨ n < 0
  swap
  · refine iff_of_true ?_ (hnone (if_neg fun hc => hmode (.inl hc.1)))
    unfold sysSbrk
    rw [if_neg hmode]
    dsimp only
    split_ifs <;> exact ⟨_, rfl⟩
  have hgrow : k.sysSbrk D p n lazy = k.growproc D p n := if_pos hmode
  rw [hgrow]
  unfold Kernel.growproc
  dsimp only
  by_cases hpos : 0 < n
  · rw [if_pos hpos]
    have heager : lazy = false := hmode.resolve_right (by omega)
    by_cases hover : TRAPFRAME < (k.proc p).sz + n.toNat
    · rw [if_pos hover]
      exact iff_of_true ⟨_, rfl⟩ (hnone (if_neg (by omega)))
    · rw [if_neg hover]
      have hpages : k.sbrkPages p n lazy =
          pageCount ((k.proc p).sz + n.toNat) - pageCount (k.proc p).sz :=
        if_pos ⟨heager, hpos, Nat.le_of_not_lt hover⟩
      have hle : pageCount ((k.proc p).sz + n.toNat) ≤ USER_TOP :=
        pageCount_le_top (Nat.le_of_not_lt hover)
      have hmono := pageCount_mono (le_add_right (k.proc p).sz n.toNat)
      -- `uvmalloc` is its loop
      have hloop := uvmallocLoop_returns_iff (D := D) (a := pageCount (k.proc p).sz)
        { w := true, r := true, u := true } rfl hD
        (pageCount ((k.proc p).sz + n.toNat) - pageCount (k.proc p).sz)
        (v := pageCount (k.proc p).sz) (hk.growing hp hlevel hrange) (by omega)
        fun v hv _ => hk.above hv
      unfold SbrkSupplied
      rw [hpages, ← hloop]
      unfold uvmalloc
      rw [if_neg (by omega)]
      dsimp only
      rw [pagesFrom_eq, pgroundup_eq]
      constructor
      · rintro ⟨x, hx⟩
        obtain ⟨y, hy, -⟩ := bind_eq_ok.mp hx
        obtain ⟨z, hz, -⟩ := bind_eq_ok.mp hy
        exact ⟨z, hz⟩
      · rintro ⟨⟨b, k1⟩, hx⟩
        rw [hx]
        cases b with
        | true =>
          have hne : (k.proc p).sz + n.toNat ≠ 0 := by omega
          exact ⟨_, if_neg hne⟩
        | false => exact ⟨_, rfl⟩
  · rw [if_neg hpos]
    refine iff_of_true ?_ (hnone (if_neg (by omega)))
    by_cases hneg : n < 0
    · rw [if_pos hneg]
      obtain ⟨x, hx⟩ := Avoids.exists_ok fun msg => uvmdealloc_quiet D (.inr hrange) hk.inv
        (by rw [hk.owner hp]; rfl) (hk.top p)
      rw [bind_of_ok hx]
      exact ⟨_, rfl⟩
    · rw [if_neg hneg]
      exact ⟨_, rfl⟩

/-- **`sbrk` is exact or has no effect, if the supply lasts.** For every process between operations,
every 32-bit `n` and both modes, `sys_sbrk` returns and is exact exactly if the frames, pages and
slots before the call last for the pages it has to allocate at once. -/
theorem sbrk_exact_iff (hk : Idle D m k) (hp : (k.proc p).state ≠ .unused) (hD : D.Lawful)
    (hreturns : ∀ msg, D.Avoids msg) (hlevel : k.LevelsValid) (hrange : k.rest.InRange)
    (hn : -2 ^ 31 ≤ n) : k.SbrkExact D p n lazy ↔ k.SbrkSupplied p n lazy := by
  rw [← hk.sbrk_returns_iff hp hlevel hrange hreturns]
  constructor
  · rintro ⟨b, k', hrun, -⟩
    exact ⟨(b, k'), hrun⟩
  · rintro ⟨⟨b, k'⟩, hrun⟩
    obtain ⟨hk', hstep⟩ := hk.sbrk hp hrun
    refine ⟨b, k', hrun, ?_, ?_⟩
    · rintro rfl
      refine hk.sbrkFailed hD hk' ?_
      injection hstep with hview
      exact hview.symm
    · rintro rfl
      exact hk.sbrkDone hD hp hn hk' hstep

/-- **`sbrk` panics.** `init` fills all frames and asks for one more page, and `sys_sbrk` does not
return. -/
theorem sbrk_panics : ∃ k : Kernel (ℕ → Page), (memorySystem arrayDev 0x80000).Reachable k ∧
    (k.proc ⟨0, by decide⟩).sz = 64 * 4096 ∧
    k.sysSbrk arrayDev ⟨0, by decide⟩ 4096 false =
      .error "get_victim: no valid frames to evict" ∧
    ¬k.SbrkExact arrayDev ⟨0, by decide⟩ 4096 false := by
  obtain ⟨k0, k, hinit, hrun, hfilled, hpanic⟩ := exists_filled
  refine ⟨k, hrun.reachable (.init hinit), hfilled.sz, hpanic, ?_⟩
  rintro ⟨b, k', hcall, -⟩
  rw [hpanic] at hcall
  cases hcall

/-- A child of `init` fills all frames. -/
def growingRun : List Event :=
  let p0 : ProcId := ⟨0, nproc_pos⟩
  let p1 : ProcId := ⟨1, one_lt_nproc⟩
  let p2 : ProcId := ⟨2, two_lt_nproc⟩
  [.schedule p0 .running 0, .fork p0 (some p1), .fork p0 (some p2), .schedule p2 .running 0,
    .sbrk p2 (64 * 4096) false true]

/-- No frame is free, but the supply lasts for the pages of `sbrk n`. -/
structure Kernel.Replaces {σ : Type} (k : Kernel σ) (p : ProcId) (n : ℤ) : Prop where
  running : (k.proc p).state = .running
  levels : k.LevelsValid
  range : ∀ pg ∈ k.managed, k.kernelEnd ≤ pg ∧ pg < PHYSTOP_PAGE
  frames : k.supply.frames = 0
  supplied : k.SbrkSupplied p n false

instance (k : Kernel σ) : Decidable (k.Replaces p n) :=
  decidable_of_iff ((k.proc p).state = .running ∧
      (∀ q, 0 ≤ (k.proc q).level ∧ (k.proc q).level ≤ 3) ∧
      (∀ pg ∈ k.managed, k.kernelEnd ≤ pg ∧ pg < PHYSTOP_PAGE) ∧
      k.supply.frames = 0 ∧ k.SbrkSupplied p n false)
    ⟨fun ⟨h1, h2, h3, h4, h5⟩ => ⟨h1, h2, h3, h4, h5⟩, fun h => ⟨h.1, h.2, h.3, h.4, h.5⟩⟩

/-- After `growingRun` two pages are made free by evictions, and `sbrk` of them is exact. -/
theorem sbrk_exact_growing : ∃ (p : ProcId) (n : ℤ) (k : Kernel (ℕ → Page)), n = 8192 ∧
    (memorySystem arrayDev 0x80000).Reachable k ∧ k.supply.frames = 0 ∧
    k.SbrkExact arrayDev p n false := by
  have heval : (bootRun arrayDev (fun _ => 0) 0x80000 200 growingRun).any (fun k =>
      decide (k.Replaces ⟨2, by decide⟩ 8192)) = true := by
    decide +kernel
  obtain ⟨k, hk, heval⟩ := Option.any_eq_true _ _ |>.mp heval
  obtain ⟨k0, hinit, hrun⟩ := run_of_bootRun hk
  have hreach := hrun.reachable (.init hinit)
  -- the number is kept abstract, or the supply is computed
  obtain ⟨n, hn, hgrown⟩ : ∃ n : ℤ, n = 8192 ∧ k.Replaces ⟨2, by decide⟩ n :=
    ⟨8192, rfl, of_decide_eq_true heval⟩
  have hlive : (k.proc ⟨2, by decide⟩).state ≠ .unused := by
    rw [hgrown.running]
    decide
  exact ⟨_, n, k, hn, hreach, hgrown.frames, (sbrk_exact_iff (idle_of_reachable hreach) hlive
    arrayDev_lawful (fun msg => ⟨fun _ _ _ _ => .ok _, fun _ _ _ _ => .ok _⟩) hgrown.levels
    hgrown.range (by omega)).mpr hgrown.supplied⟩

end Xv6.VM
