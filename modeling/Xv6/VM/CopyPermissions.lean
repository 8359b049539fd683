import Xv6.VM.CopyRounds

/-!
# Permissions of copies between the kernel and user memory

A round of `copyin` or `copyout` should transfer bytes only if the entry of the page has `PTE_U`,
and for `copyout` also `PTE_W`. `walkaddr` checks `PTE_U`, but only of resident pages. For a page
that is swapped out the round calls `vmfault`, which brings it back without looking at `PTE_U`, and
goes on with the copy. So the guard page below the stack, whose `PTE_U` is cleared by `uvmclear`,
is protected only while it is resident.
-/

namespace Xv6.VM

open Kernel CopyOut

variable {σ : Type} {D : SwapDev σ} {m : List ℕ} {k k' : Kernel σ} {p : ProcId} {r v : ℕ}

/-! ## The property and the condition -/

/-- The round transfers bytes only if the entry of the page has `PTE_U` when they are read. -/
def CopyIn.Honours (D : SwapDev σ) (p : ProcId) (r : ℕ) (c : CopyIn σ) : Prop :=
  ∀ o k, c.len ≠ 0 → c.round D p r = .ok (o, k) → o.isSome →
    (k.core.leaf r (c.srcva / PGSIZE)).flags.u = true

/-- The round transfers bytes only if the entry of the page has `PTE_U` and `PTE_W` when they are
written, and a round that returns -1 writes nothing to the page. -/
def CopyOut.Honours (D : SwapDev σ) (p : ProcId) (r : ℕ) (c : CopyOut σ) : Prop :=
  ∀ o k, c.src ≠ [] → c.round D p r = .ok (o, k) →
    (o.isSome → (k.core.leaf r (c.dstva / PGSIZE)).flags.u = true ∧
      (k.core.leaf r (c.dstva / PGSIZE)).flags.w = true) ∧
    (o = none → ∀ v, faultedIn (k.page D r v) = faultedIn (c.kernel.page D r v))

/-- The page of the round is swapped out and the user may not access it. -/
def CopyIn.Unchecked (r : ℕ) (c : CopyIn σ) : Prop :=
  c.len ≠ 0 ∧ c.kernel.SwappedOut r (c.srcva / PGSIZE) ∧
    (c.kernel.core.leaf r (c.srcva / PGSIZE)).flags.u = false
  deriving Decidable

/-- The page of the round is swapped out and the user may not access it, but has `PTE_W`. -/
def CopyOut.Unchecked (r : ℕ) (c : CopyOut σ) : Prop :=
  c.src ≠ [] ∧ c.kernel.SwappedOut r (c.dstva / PGSIZE) ∧
    (c.kernel.core.leaf r (c.dstva / PGSIZE)).flags.u = false ∧
    (c.kernel.core.leaf r (c.dstva / PGSIZE)).flags.w = true
  deriving Decidable

/-! ## One round on the table of the process -/

/-- What every round of a copy by the process `p` relies on. -/
structure CopyState (D : SwapDev σ) (p : ProcId) (r : ℕ) (k : Kernel σ) : Prop where
  inv : k.core.Inv {}
  attached : k.Attached
  table : (k.proc p).pagetable = r
  owner : k.owner r = some p
  framed : k.Framed r
  above : ∀ v, pageCount (k.proc p).sz ≤ v → k.page D r v = none

namespace CopyState

lemma of_idle (hk : Idle D m k) (hp : (k.proc p).state ≠ .unused) :
    CopyState D p (k.proc p).pagetable k where
  inv := hk.inv
  attached := hk.attached
  table := rfl
  owner := hk.owner hp
  framed := hk.framed hp
  above _ hv := hk.above hv

lemma touched (hk : CopyState D p r k) (ht : Touched D k r (k.proc p).sz k') :
    CopyState D p r k' where
  inv := ht.inv
  attached := ht.same.attached hk.attached
  table := by rw [ht.same.proc, hk.table]
  owner := by rw [ht.same.owner, hk.owner]
  framed := ht.same.framed hk.framed
  above v hv := by
    rw [ht.same.proc] at hv
    exact ht.above v hv (hk.above v hv)

/-- A page that is swapped out is below the size. -/
theorem lt_of_swappedOut (hk : CopyState D p r k) (hs : k.SwappedOut r v) :
    v * PGSIZE < (k.proc p).sz := by
  obtain ⟨hnv, htop, -⟩ := hk.inv.slots.swapped (r, v) _ ⟨hs, rfl⟩
  rw [← lt_pageCount]
  by_contra hge
  have hnone := hk.above v (Nat.le_of_not_lt hge)
  rw [page_of_swapped htop hnv hs] at hnone
  cases hnone

/-- The entry that `copyout` looks at is that of the page. -/
theorem pte_of_walk {q : ℕ × ℕ} (hk : CopyState D p r k)
    (hwalk : k.walk r (v * PGSIZE) = .ok (some q)) : k.pte q = k.core.leaf r v := by
  obtain ⟨-, href⟩ := walk_ok (by rw [hk.owner]; rfl) hwalk
  rw [mul_pgsize_div] at href
  exact pte_eq_leaf href

end CopyState

lemma CopyIn.state_of_round {c c' : CopyIn σ} (hc : CopyState D p r c.kernel)
    (hround : c.round D p r = .ok (some c', k)) : CopyState D p r c'.kernel := by
  obtain ⟨pa, hpa, ⟨-, hnone⟩ | ⟨-, n, dst, -, hc'⟩⟩ := CopyIn.round_eq_ok hround
  · cases hnone
  · cases hc'
    exact hc.touched (userPa_spec hc.attached hc.table hc.owner hc.framed hc.inv hpa).1

/-- A round of `copyin` that returns honours permissions exactly if it does not bring in a page
that the user may not access. -/
theorem CopyIn.honours_iff {c : CopyIn σ} (hc : CopyState D p r c.kernel) {o : Option (CopyIn σ)}
    (hround : c.round D p r = .ok (o, k)) : c.Honours D p r ↔ ¬c.Unchecked r := by
  obtain ⟨pa, hpa, hcases⟩ := CopyIn.round_eq_ok hround
  have huser := userPa_user_iff hc.inv hc.attached hc.table hc.owner hc.framed hpa
  constructor
  · rintro hh ⟨hlen, hs, hu⟩
    have hne := userPa_of_swappedOut hc.inv hc.attached hc.owner hc.framed (hc.lt_of_swappedOut hs)
      hs hpa
    rcases hcases with ⟨h0, -⟩ | ⟨-, n, dst, -, rfl⟩
    · exact hne h0
    · exact (huser hne).mp (hh _ _ hlen hround rfl) ⟨hs, hu⟩
  · intro hcond o' k1 hlen hround' hsome
    rw [hround] at hround'
    cases hround'
    rcases hcases with ⟨-, rfl⟩ | ⟨hne, -⟩
    · cases hsome
    · exact (huser hne).mpr fun hswap => hcond ⟨hlen, hswap⟩

lemma CopyOut.state_of_round {c c' : CopyOut σ} (hc : CopyState D p r c.kernel)
    (hround : c.round D p r = .ok (some c', k)) : CopyState D p r c'.kernel := by
  rcases round_eq_ok hround with ⟨hnone, -⟩ | ⟨pa, hpa, ⟨-, hnone⟩ |
    ⟨hne, pte, -, ⟨-, hnone⟩ | ⟨-, bytes, n, -, hc'⟩⟩⟩
  · cases hnone
  · cases hnone
  · cases hnone
  · cases hc'
    obtain ⟨htouch, hleaf⟩ := userPa_spec hc.attached hc.table hc.owner hc.framed hc.inv hpa
    obtain ⟨htop, hv, hnum⟩ := hleaf hne
    have hk := hc.touched htouch
    have hpage := page_write (D := D) hk.inv htop hv hnum (c.dstva % PGSIZE) bytes
    refine hk.touched ⟨hk.inv, rfl, fun r' hr' => ?_, fun v' _ hn => ?_⟩
    · rw [hpage, Function.update_of_ne hr']
    · rw [hpage, Function.update_self]
      exact Space.write_eq_none.mpr hn

/-- A round of `copyout` that returns honours permissions exactly if it does not bring in a page
with `PTE_W` that the user may not access. -/
theorem CopyOut.honours_iff {c : CopyOut σ} (hc : CopyState D p r c.kernel)
    {o : Option (CopyOut σ)} (hround : c.round D p r = .ok (o, k)) :
    c.Honours D p r ↔ ¬c.Unchecked r := by
  rcases round_eq_ok hround with ⟨rfl, rfl, hva⟩ | ⟨pa, hpa, hcases⟩
  · -- beyond the last address there is no page
    refine iff_of_true (fun o' k1 _ hround' => ?_) ?_
    · rw [hround] at hround'
      cases hround'
      exact ⟨by simp, fun _ _ => rfl⟩
    · rintro ⟨-, hs, -⟩
      obtain ⟨-, htop, -⟩ := hc.inv.slots.swapped (r, c.dstva / PGSIZE) _ ⟨hs, rfl⟩
      have := mul_pgsize_lt_maxva htop
      dsimp only at this
      omega
  have huser := userPa_user_iff hc.inv hc.attached hc.table hc.owner hc.framed hpa
  have hperm := userPa_permissions hc.inv hc.attached hc.table hc.owner hc.framed hpa
  have hsame := userPa_faultedIn hc.inv hc.attached hc.table hc.owner hc.framed hpa
  have hk := hc.touched (userPa_spec hc.attached hc.table hc.owner hc.framed hc.inv hpa).1
  constructor
  · rintro hh ⟨hsrc, hs, hu, hw⟩
    have hne := userPa_of_swappedOut hc.inv hc.attached hc.owner hc.framed (hc.lt_of_swappedOut hs)
      hs hpa
    obtain ⟨hnv, htop, -⟩ := hc.inv.slots.swapped (r, c.dstva / PGSIZE) _ ⟨hs, rfl⟩
    rcases hcases with ⟨h0, -⟩ | ⟨-, pte, hwalk, ⟨hpw, -⟩ | ⟨-, bytes, n, -, rfl⟩⟩
    · exact hne h0
    · -- the page keeps `PTE_W` on its way back
      rw [hk.pte_of_walk hwalk, (hperm hne).2, page_of_swapped htop hnv hs] at hpw
      exact absurd (hw.symm.trans hpw) (by simp)
    · exact (huser hne).mp ((hh _ _ hsrc hround).1 rfl).1 ⟨hs, hu⟩
  · intro hcond o' k1 hsrc hround'
    rw [hround] at hround'
    cases hround'
    refine ⟨fun hsome => ?_, fun _ => hsame⟩
    rcases hcases with ⟨-, rfl⟩ | ⟨hne, pte, hwalk, ⟨-, rfl⟩ | ⟨hpw, bytes, n, -, rfl⟩⟩
    · cases hsome
    · cases hsome
    · rw [hk.pte_of_walk hwalk] at hpw
      refine ⟨(huser hne).mpr ?_, hpw⟩
      rintro ⟨hs, hu⟩
      refine hcond ⟨hsrc, hs, hu, ?_⟩
      obtain ⟨hnv, htop, -⟩ := hc.inv.slots.swapped (r, c.dstva / PGSIZE) _ ⟨hs, rfl⟩
      rw [(hperm hne).2, page_of_swapped htop hnv hs] at hpw
      exact hpw

/-! ## One round on the image that `exec` builds -/

/-- The state in which `exec` copies arguments to the image with the table `r`. Its pages are
resident, since `get_victim` looks entries up in the old table of the process. -/
structure ImageState (p : ProcId) (r : ℕ) (k : Kernel σ) : Prop where
  inv : k.core.Inv {}
  attached : k.Attached
  live : (k.proc p).pagetable ≠ 0
  owner : k.owner r = some p
  framed : k.Framed r
  unattached : k.Unattached r
  resident : k.Resident r

/-- On an image every round honours permissions, and one that transfers bytes changes only the
memory of a page. -/
theorem CopyOut.honours_image {c : CopyOut σ} (hc : ImageState p r c.kernel) :
    c.Honours D p r ∧
      ∀ c' k, c.round D p r = .ok (some c', k) → ImageState p r c'.kernel := by
  have hlookup : ∀ {pa k}, c.kernel.userPa D p r (c.dstva / PGSIZE * PGSIZE) = .ok (pa, k) →
      (c.kernel.Accessible r (c.dstva / PGSIZE) ∧ k = c.kernel) ∨
        (k.page D r = c.kernel.page D r ∧ k.owner = c.kernel.owner ∧
          (pa ≠ 0 → k.core.leaf r (c.dstva / PGSIZE) = {})) := fun hpa =>
    userPa_image hc.inv hc.attached hc.live hc.owner hc.framed hc.unattached hc.resident hpa
  -- a transfer is to a page of the image
  have htransfer : ∀ {pa k q}, c.kernel.userPa D p r (c.dstva / PGSIZE * PGSIZE) = .ok (pa, k) →
      pa ≠ 0 → k.walk r (c.dstva / PGSIZE * PGSIZE) = .ok (some q) → (k.pte q).flags.w = true →
      k = c.kernel ∧ (k.core.leaf r (c.dstva / PGSIZE)).flags.u = true ∧
        (k.core.leaf r (c.dstva / PGSIZE)).flags.w = true := by
    intro pa k q hpa hne hwalk hw
    have howner : k.owner r = some p := by
      rcases hlookup hpa with ⟨-, rfl⟩ | ⟨-, howned, -⟩
      · exact hc.owner
      · rw [howned, hc.owner]
    obtain ⟨-, href⟩ := walk_ok (by rw [howner]; rfl) hwalk
    rw [mul_pgsize_div] at href
    rw [pte_eq_leaf href] at hw
    rcases hlookup hpa with ⟨hacc, rfl⟩ | ⟨-, -, hempty⟩
    · exact ⟨rfl, hacc.2.2, hw⟩
    · rw [hempty hne] at hw
      cases hw
  constructor
  · intro o k hsrc hround
    rcases round_eq_ok hround with ⟨rfl, rfl, -⟩ | ⟨pa, hpa, hcases⟩
    · exact ⟨by simp, fun _ _ => rfl⟩
    · refine ⟨fun hsome => ?_, fun _ v => ?_⟩
      · rcases hcases with ⟨-, rfl⟩ | ⟨hne, pte, hwalk, ⟨-, rfl⟩ | ⟨hw, -⟩⟩
        · cases hsome
        · cases hsome
        · exact (htransfer hpa hne hwalk hw).2
      · rcases hlookup hpa with ⟨-, rfl⟩ | ⟨hpage, -⟩
        · rfl
        · rw [hpage]
  · intro c' k hround
    rcases round_eq_ok hround with ⟨hnone, -⟩ | ⟨pa, hpa, ⟨-, hnone⟩ |
      ⟨hne, pte, hwalk, ⟨-, hnone⟩ | ⟨hw, bytes, n, -, hc'⟩⟩⟩
    · cases hnone
    · cases hnone
    · cases hnone
    · cases hc'
      obtain ⟨rfl, -⟩ := htransfer hpa hne hwalk hw
      exact ⟨hc.inv, hc.attached, hc.live, hc.owner, hc.framed, hc.unattached, hc.resident⟩

/-! ## Whole calls -/

/-- **Copies honour permissions exactly as far as they check them.** Take a process in any state
between two operations, and any call of `copyin` or `copyout` on its table. If no round comes to a
page that is swapped out, without `PTE_U` (and for `copyout` with `PTE_W`), then every round honours
permissions; and if the call returns, it does so only then. The copies of `exec` to the image that
it builds always do. -/
theorem copies_honour_permissions_iff (hk : Idle D m k) (hp : (k.proc p).state ≠ .unused) :
    (∀ srcva len, let S := copyinRounds D p (k.proc p).pagetable ⟨k, srcva, len, []⟩
      ((∀ c, S.Reachable c → ¬c.Unchecked (k.proc p).pagetable) →
        ∀ c, S.Reachable c → c.Honours D p (k.proc p).pagetable) ∧
      ∀ res, k.copyin D p (k.proc p).pagetable srcva len = .ok res →
        ((∀ c, S.Reachable c → c.Honours D p (k.proc p).pagetable) ↔
          ∀ c, S.Reachable c → ¬c.Unchecked (k.proc p).pagetable)) ∧
    (∀ dstva src, let S := copyoutRounds D p (k.proc p).pagetable ⟨k, dstva, src⟩
      ((∀ c, S.Reachable c → ¬c.Unchecked (k.proc p).pagetable) →
        ∀ c, S.Reachable c → c.Honours D p (k.proc p).pagetable) ∧
      ∀ res, k.copyout D p (k.proc p).pagetable dstva src = .ok res →
        ((∀ c, S.Reachable c → c.Honours D p (k.proc p).pagetable) ↔
          ∀ c, S.Reachable c → ¬c.Unchecked (k.proc p).pagetable)) ∧
    ∀ k1 r dstva src, ImageState p r k1 →
      ∀ c, (copyoutRounds D p r ⟨k1, dstva, src⟩).Reachable c → c.Honours D p r := by
  have hstart := CopyState.of_idle hk hp
  refine ⟨fun srcva len => ?_, fun dstva src => ?_, fun k1 r dstva src himage c hc => ?_⟩
  · intro S
    have hstate : ∀ c, S.Reachable c → CopyState D p (k.proc p).pagetable c.kernel := by
      refine fun c hc => hc.invariant (I := fun c => CopyState D p _ c.kernel) ?_ ?_
      · rintro c rfl
        exact hstart
      · rintro c _ c' - hc ⟨-, k1, hround⟩
        exact CopyIn.state_of_round hc hround
    have hmp : (∀ c, S.Reachable c → ¬c.Unchecked (k.proc p).pagetable) →
        ∀ c, S.Reachable c → c.Honours D p (k.proc p).pagetable := by
      intro hcond c hc o k1 hlen hround
      exact (CopyIn.honours_iff (hstate c hc) hround).mpr (hcond c hc) o k1 hlen hround
    refine ⟨hmp, fun res hrun => ⟨fun hh c hc hun => ?_, hmp⟩⟩
    obtain ⟨o, k1, hround⟩ := CopyIn.round_returns hrun rfl hc hun.1
    exact (CopyIn.honours_iff (hstate c hc) hround).mp (hh c hc) hun
  · intro S
    have hstate : ∀ c, S.Reachable c → CopyState D p (k.proc p).pagetable c.kernel := by
      refine fun c hc => hc.invariant (I := fun c => CopyState D p _ c.kernel) ?_ ?_
      · rintro c rfl
        exact hstart
      · rintro c _ c' - hc ⟨-, k1, hround⟩
        exact state_of_round hc hround
    have hmp : (∀ c, S.Reachable c → ¬c.Unchecked (k.proc p).pagetable) →
        ∀ c, S.Reachable c → c.Honours D p (k.proc p).pagetable := by
      intro hcond c hc o k1 hsrc hround
      exact (honours_iff (hstate c hc) hround).mpr (hcond c hc) o k1 hsrc hround
    refine ⟨hmp, fun res hrun => ⟨fun hh c hc hun => ?_, hmp⟩⟩
    obtain ⟨o, k1, hround⟩ := round_returns hrun hc hun.1
    exact (honours_iff (hstate c hc) hround).mp (hh c hc) hun
  · have hstate : ImageState p r c.kernel := by
      refine hc.invariant (I := fun c => ImageState p r c.kernel) ?_ ?_
      · rintro c rfl
        exact himage
      · rintro c _ c' - hc ⟨-, k1, hround⟩
        exact (honours_image hc).2 c' k1 hround
    exact (honours_image hstate).1

/-! ## An evicted guard page -/

/-- A program without segments. -/
def emptyProgram : File := ⟨64, fun i => [0x7F, 0x45, 0x4C, 0x46].getD i 0⟩

/-- The second child of `init` starts a program, whose guard page is page 0, fills all frames and
touches one more page, so that the guard page is evicted. -/
def guardRun : List Event :=
  let p0 : ProcId := ⟨0, nproc_pos⟩
  let p1 : ProcId := ⟨1, one_lt_nproc⟩
  let p2 : ProcId := ⟨2, two_lt_nproc⟩
  [.schedule p0 .running 0, .fork p0 (some p1), .fork p0 (some p2), .schedule p2 .running 0,
    .exec p2 emptyProgram [] true, .sbrk p2 (62 * 4096) false true, .sbrk p2 4096 true true,
    .fault p2 (64 * 4096) true]

lemma exists_guardRun : ∃ (p : ProcId) (k : Kernel (ℕ → Page)),
    (memorySystem arrayDev 0x80000).Reachable k ∧ (k.proc p).state ≠ .unused ∧
    k.SwappedOut (k.proc p).pagetable 0 ∧
    (k.core.leaf (k.proc p).pagetable 0).flags.u = false ∧
    (∃ k', k.copyin arrayDev p (k.proc p).pagetable 0 1 = .ok (some [0], k')) ∧
    ∃ k', k.copyout arrayDev p (k.proc p).pagetable 0 [1] = .ok (true, k') := by
  let p2 : ProcId := ⟨2, by decide⟩
  have heval : (bootRun arrayDev (fun _ => 0) 0x80000 200 guardRun).any (fun k =>
      decide ((k.proc p2).state ≠ .unused ∧ k.SwappedOut (k.proc p2).pagetable 0 ∧
        (k.core.leaf (k.proc p2).pagetable 0).flags.u = false) &&
      (returning (k.copyin arrayDev p2 (k.proc p2).pagetable 0 1) (· = some [0])).isSome &&
      (returning (k.copyout arrayDev p2 (k.proc p2).pagetable 0 [1]) id).isSome) = true := by
    decide +kernel
  obtain ⟨k, hk, heval⟩ := Option.any_eq_true _ _ |>.mp heval
  simp only [Bool.and_eq_true, decide_eq_true_eq] at heval
  obtain ⟨⟨⟨hlive, hs, hu⟩, hin⟩, hout⟩ := heval
  obtain ⟨k0, hinit, hrun⟩ := run_of_bootRun hk
  refine ⟨p2, k, hrun.reachable (.init hinit), hlive, hs, hu, ?_, ?_⟩
  · obtain ⟨k', hk'⟩ := Option.isSome_iff_exists.mp hin
    obtain ⟨bytes, hcopy, hbytes⟩ := returning_eq_some hk'
    exact ⟨k', by rw [hcopy, of_decide_eq_true hbytes]⟩
  · obtain ⟨k', hk'⟩ := Option.isSome_iff_exists.mp hout
    obtain ⟨b, hcopy, hb⟩ := returning_eq_some hk'
    exact ⟨k', by rw [hcopy, show b = true from hb]⟩

/-- **A guard page on the swap device is copied.** `copyin` reads it and `copyout` writes it, both
without `PTE_U`. -/
theorem evicted_guard_page_copied : ∃ (p : ProcId) (k : Kernel (ℕ → Page)),
    (memorySystem arrayDev 0x80000).Reachable k ∧
    (k.core.leaf (k.proc p).pagetable 0).flags.u = false ∧
    (∃ k', k.copyin arrayDev p (k.proc p).pagetable 0 1 = .ok (some [0], k')) ∧
    (∃ k', k.copyout arrayDev p (k.proc p).pagetable 0 [1] = .ok (true, k')) ∧
    ¬(⟨k, 0, 1, []⟩ : CopyIn (ℕ → Page)).Honours arrayDev p (k.proc p).pagetable := by
  obtain ⟨p, k, hreach, hlive, hs, hu, ⟨k1, hin⟩, hout⟩ := exists_guardRun
  refine ⟨p, k, hreach, hu, ⟨k1, hin⟩, hout, fun hh => ?_⟩
  have hstate := CopyState.of_idle (idle_of_reachable hreach) hlive
  have hstart : (copyinRounds arrayDev p (k.proc p).pagetable ⟨k, 0, 1, []⟩).Reachable
      ⟨k, 0, 1, []⟩ := .init rfl
  obtain ⟨o, k2, hround⟩ := CopyIn.round_returns hin rfl hstart (by simp)
  exact (CopyIn.honours_iff hstate hround).mp hh ⟨by simp, by simpa using hs, by simpa using hu⟩

/-- In that state a `copyin` from the guard page honours permissions exactly if its rounds do not
come to the page while it is swapped out. -/
theorem copies_honour_permissions_guard : ∃ (p : ProcId) (k : Kernel (ℕ → Page)),
    (memorySystem arrayDev 0x80000).Reachable k ∧
    let S := copyinRounds arrayDev p (k.proc p).pagetable ⟨k, 0, 1, []⟩
    ((∀ c, S.Reachable c → c.Honours arrayDev p (k.proc p).pagetable) ↔
      ∀ c, S.Reachable c → ¬c.Unchecked (k.proc p).pagetable) := by
  obtain ⟨p, k, hreach, hlive, -, -, ⟨k1, hin⟩, -⟩ := exists_guardRun
  exact ⟨p, k, hreach,
    ((copies_honour_permissions_iff (idle_of_reachable hreach) hlive).1 0 1).2 _ hin⟩

end Xv6.VM
