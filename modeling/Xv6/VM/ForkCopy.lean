import Xv6.VM.System

/-!
# Fork duplicates memory or leaves nothing behind

`uvmcopy` is called with the table of the parent and the empty table of a new process
(`Kernel.ForkReady`). Whatever pages are evicted meanwhile, the page being copied and pages already
given to the child included, it either makes the child's pages equal to the parent's, in frames and
slots of their own, or fails and has given back every frame and slot it took
(`uvmcopy_duplicates_or_undoes`).
-/

namespace Xv6.VM

open Kernel

namespace Kernel

variable {σ : Type} {D : SwapDev σ} {k k' : Kernel σ} {p q np : ProcId} {v : ℕ}

/-- No user page of `p` is resident or swapped out. -/
def NoPages (k : Kernel σ) (p : ProcId) : Prop :=
  ∀ v < USER_TOP, (k.userEntry p v).flags.v = false ∧ (k.userEntry p v).flags.s = false

/-- No frame and no slot in use is that of `p`. -/
def OwnsNothing (k : Kernel σ) (p : ProcId) : Prop :=
  (∀ i, (k.frametable i).inUse ≠ .free → (k.frametable i).p ≠ some p) ∧
    ∀ j, (k.swaptable j).inUse = true → (k.swaptable j).p ≠ some p

/-- The user pages of `p` and `q` are in different frames and slots. -/
def Apart (k : Kernel σ) (p q : ProcId) : Prop :=
  ∀ v v', v < USER_TOP → v' < USER_TOP →
    ((k.userEntry p v).flags.v = true → (k.userEntry q v').flags.v = true →
      (k.userEntry p v).num ≠ (k.userEntry q v').num) ∧
    ((k.userEntry p v).flags.s = true → (k.userEntry q v').flags.s = true →
      (k.userEntry p v).num ≠ (k.userEntry q v').num)

/-- The state in which `kfork` of `p` copies its memory to the new process `np`. -/
structure ForkReady (k : Kernel σ) (p np : ProcId) : Prop where
  consistent : k.Consistent
  ne : p ≠ np
  parent : (k.proc p).pagetable ≠ 0
  child : (k.proc np).pagetable ≠ 0
  /-- The child has no other table. -/
  only : ∀ r, k.owner r = some np → r = (k.proc np).pagetable
  framed : k.Framed (k.proc np).pagetable
  empty : k.NoPages np
  top : pageCount (k.proc p).sz ≤ USER_TOP
  /-- The parent has no pages above its size. -/
  above : ∀ v, pageCount (k.proc p).sz ≤ v → v < USER_TOP →
    (k.userEntry p v).flags.v = false ∧ (k.userEntry p v).flags.s = false

namespace Consistent

section

variable (hk : k.Consistent)

include hk

lemma userEntry_eq (hp : (k.proc p).pagetable ≠ 0) (hv : v < USER_TOP) :
    k.userEntry p v = k.core.leaf (k.proc p).pagetable v :=
  Kernel.userEntry_eq (by rw [hk.attached p hp]; rfl) (mul_pgsize_lt_maxva hv)

lemma userPage_eq (hD : D.Lawful) (hp : (k.proc p).pagetable ≠ 0) (hv : v < USER_TOP) :
    k.userPage D p v = (k.page D (k.proc p).pagetable v).getD (.zeros {}) :=
  Kernel.userPage_eq hD hk.inv (by rw [hk.attached p hp]; rfl) hv

/-- An entry without `PTE_V` and `PTE_S` is that of a page that has not been allocated. -/
theorem page_eq_none_iff (hp : (k.proc p).pagetable ≠ 0) (hv : v < USER_TOP) :
    k.page D (k.proc p).pagetable v = none ↔
      (k.userEntry p v).flags.v = false ∧ (k.userEntry p v).flags.s = false := by
  rw [Kernel.page_eq_none_iff hk.inv hv, hk.userEntry_eq hp hv]
  constructor
  · intro hempty
    rw [hempty]
    exact ⟨rfl, rfl⟩
  · rintro ⟨hvalid, hswap⟩
    exact hk.inv.shape _ v hvalid hswap

lemma pagetable_ne (hp : (k.proc p).pagetable ≠ 0) (hne : p ≠ q) :
    (k.proc p).pagetable ≠ (k.proc q).pagetable := by
  intro heq
  have hpo := hk.attached p hp
  have hqo := hk.attached q (by rw [← heq]; exact hp)
  rw [← heq, hpo] at hqo
  exact hne (Option.some.inj hqo)

/-- Different processes share no frame and no slot. -/
theorem apart (hp : (k.proc p).pagetable ≠ 0) (hq : (k.proc q).pagetable ≠ 0) (hne : p ≠ q) :
    k.Apart p q := by
  intro v v' hv hv'
  have htables := hk.pagetable_ne hp hne
  rw [hk.userEntry_eq hp hv, hk.userEntry_eq hq hv']
  constructor
  · intro hvalid hvalid' hnum
    obtain ⟨i, hres⟩ := hk.inv.frames.resident _ v hv hvalid
    have hres' : Resides k.frametable k.core.leaf ((k.proc q).pagetable, v') i :=
      ⟨hv', hvalid', hnum.symm.trans hres.2.2.1, hres.2.2.2⟩
    have heq := hk.inv.frames.cells.ref_inj _ _ i hres hres'
    exact htables (congrArg Prod.fst heq)
  · intro hswap hswap' hnum
    have hslot : Swapped k.core.leaf ((k.proc p).pagetable, v) (k.core.leaf _ v).num :=
      ⟨hswap, rfl⟩
    have hslot' : Swapped k.core.leaf ((k.proc q).pagetable, v') (k.core.leaf _ v).num :=
      ⟨hswap', hnum.symm⟩
    have heq := hk.inv.slots.cells.ref_inj _ _ _ hslot hslot'
    exact htables (congrArg Prod.fst heq)

/-- A process whose only table is empty owns no frame and no slot. -/
theorem ownsNothing (hp : (k.proc p).pagetable ≠ 0)
    (honly : ∀ r, k.owner r = some p → r = (k.proc p).pagetable) (hempty : k.NoPages p) :
    k.OwnsNothing p := by
  constructor
  · intro i hi hip
    rcases hk.inv.frames.cells.covered i hi with hheld | ⟨⟨r, v⟩, hres⟩
    · cases hheld
    have howner : k.owner r = some p := (hk.inv.frames.owned _ i hres).1.symm.trans hip
    obtain rfl := honly r howner
    have hv : v < USER_TOP := hres.1
    have hvalid := (hempty v hv).1
    rw [hk.userEntry_eq hp hv] at hvalid
    exact absurd hres.2.1 (by simp [hvalid])
  · intro j hj hjp
    rcases hk.inv.slots.cells.covered j hj with hheld | ⟨⟨r, v⟩, hslot⟩
    · cases hheld
    have howner : k.owner r = some p := (hk.inv.slots.owned _ j hslot).symm.trans hjp
    obtain rfl := honly r howner
    have hv : v < USER_TOP := (hk.inv.slots.swapped _ j hslot).2.1
    have hswap := (hempty v hv).2
    rw [hk.userEntry_eq hp hv] at hswap
    exact absurd hslot.1 (by simp [hswap])

end

end Consistent

/-- After `allocproc` the state is ready for the copy. -/
theorem ForkReady.of_allocproc {m : List ℕ} {k0 : Kernel σ} {trampoline : ℕ} (hk0 : Idle D m k0)
    (hp : (k0.proc p).state ≠ .unused) (hrun : k0.allocproc trampoline = .ok (some np, k)) :
    k.ForkReady p np := by
  obtain ⟨hk, hcases⟩ := hk0.allocproc hrun
  rcases hcases with ⟨hnone, -⟩ | ⟨np', heq, hunused, hlive, hother, hempty, -⟩
  · cases hnone
  cases heq
  have hne : p ≠ np := by
    rintro rfl
    exact hp hunused
  have hpl : (k.proc p).state ≠ .unused := by rw [hother p hne]; exact hp
  have hpt : (k.proc p).pagetable ≠ 0 := hk.settled.live p hpl
  have hnpt : (k.proc np).pagetable ≠ 0 := hk.settled.live np hlive
  refine ⟨hk.consistent, hne, hpt, hnpt, fun r hr => ?_, hk.framed hlive, fun v hv => ?_, hk.top p,
    fun v hge hv => ?_⟩
  · exact ((hk.settled.owner r np).mp hr).1.symm
  · exact (hk.consistent.page_eq_none_iff hnpt hv).mp (hempty v)
  · exact (hk.consistent.page_eq_none_iff hpt hv).mp (hk.above hge)

end Kernel

variable {σ : Type} {D : SwapDev σ} {k k' : Kernel σ} {p np : ProcId} {b : Bool}

/-- `uvmcopy` for a fork, from any consistent state and with any evictions on the way, changes no
page of another process. If it returns 0, the child has the parent's pages, in frames and slots of
its own. If it returns -1, the child has no page, and no frame or slot is left to it. -/
theorem uvmcopy_duplicates_or_undoes (hD : D.Lawful) (hk : k.ForkReady p np)
    (hrun : k.uvmcopy D (k.proc p).pagetable (k.proc np).pagetable (k.proc p).sz np =
      .ok (b, k')) :
    (∀ q v, q ≠ np → (k.proc q).pagetable ≠ 0 → v < USER_TOP →
      k'.userPage D q v = k.userPage D q v) ∧
    (b = true → (∀ v, v * PGSIZE < (k.proc p).sz → k'.userPage D np v = k.userPage D p v ∧
      k'.userPage D np v = k'.userPage D p v) ∧ k'.Apart np p) ∧
    (b = false → k'.NoPages np ∧ k'.OwnsNothing np) := by
  have hc := hk.consistent
  have hpo := hc.attached p hk.parent
  have hno := hc.attached np hk.child
  have habove : ∀ v, pageCount (k.proc p).sz ≤ v → k.page D (k.proc p).pagetable v = none := by
    intro v hv
    by_cases htop : v < USER_TOP
    · exact (hc.page_eq_none_iff hk.parent htop).mpr (hk.above v hv htop)
    · exact page_of_top (Nat.le_of_not_lt htop)
  have hempty : ∀ v, k.page D (k.proc np).pagetable v = none := by
    intro v
    by_cases htop : v < USER_TOP
    · exact (hc.page_eq_none_iff hk.child htop).mpr (hk.empty v htop)
    · exact page_of_top (Nat.le_of_not_lt htop)
  obtain ⟨hI', hsame, hres⟩ := uvmcopy_spec hc.inv hc.attached (by rw [hpo]; rfl) hno hk.framed
    (hc.pagetable_ne hk.parent hk.ne) hk.top habove hempty hrun
  have hc' : k'.Consistent := ⟨hI', hsame.attached hc.attached⟩
  -- the page of a process after the copy, in terms of the abstract pages
  have hpage' : ∀ q v, (k.proc q).pagetable ≠ 0 → v < USER_TOP →
      k'.userPage D q v = (k'.page D (k.proc q).pagetable v).getD (.zeros {}) := by
    intro q v hq hv
    rw [hc'.userPage_eq hD (by rw [hsame.proc]; exact hq) hv, hsame.proc]
  -- tables other than the child's keep their pages
  have hkeep : ∀ r v, r ≠ (k.proc np).pagetable → k'.page D r v = k.page D r v := by
    intro r v hr
    rcases hres with ⟨-, hcopy⟩ | ⟨-, hfail⟩
    · rw [hcopy, if_neg hr]
    · rw [hfail]
  have hothers : ∀ q v, q ≠ np → (k.proc q).pagetable ≠ 0 → v < USER_TOP →
      k'.userPage D q v = k.userPage D q v := by
    intro q v hqn hq hv
    rw [hpage' q v hq hv, hc.userPage_eq hD hq hv, hkeep _ v (hc.pagetable_ne hq hqn)]
  refine ⟨hothers, fun hb => ?_, fun hb => ?_⟩
  · rcases hres with ⟨-, hcopy⟩ | ⟨hfalse, -⟩
    · refine ⟨fun v hv => ?_, ?_⟩
      · have htop : v < USER_TOP := Nat.lt_of_lt_of_le (lt_pageCount.mpr hv) hk.top
        have hdup : k'.userPage D np v = k.userPage D p v := by
          rw [hpage' np v hk.child htop, hc.userPage_eq hD hk.parent htop, hcopy, if_pos rfl]
        exact ⟨hdup, hdup.trans (hothers p v hk.ne hk.parent htop).symm⟩
      · refine hc'.apart ?_ ?_ hk.ne.symm
        · rw [hsame.proc]
          exact hk.child
        · rw [hsame.proc]
          exact hk.parent
    · rw [hb] at hfalse
      cases hfalse
  · rcases hres with ⟨htrue, -⟩ | ⟨-, hfail⟩
    · rw [hb] at htrue
      cases htrue
    · have hchild : (k'.proc np).pagetable ≠ 0 := by
        rw [hsame.proc]
        exact hk.child
      have hnone : k'.NoPages np := by
        intro v hv
        rw [← hc'.page_eq_none_iff (D := D) hchild hv, hfail, hsame.proc]
        exact hempty v
      refine ⟨hnone, hc'.ownsNothing hchild (fun r hr => ?_) hnone⟩
      rw [hsame.owner] at hr
      rw [hsame.proc]
      exact hk.only r hr

/-- A fork of `p` up to the end of `uvmcopy`: the child, the states before and after the copy, and
what `uvmcopy` returns. -/
def forkCopies (D : SwapDev σ) (trampoline : ℕ) (k : Kernel σ) (p : ProcId) :
    Option (ProcId × Kernel σ × Bool × Kernel σ) :=
  match k.allocproc trampoline with
  | .ok (some np, k1) =>
    match k1.uvmcopy D (k1.proc p).pagetable (k1.proc np).pagetable (k1.proc p).sz np with
    | .ok (b, k2) => some (np, k1, b, k2)
    | .error _ => none
  | _ => none

lemma forkCopies_eq_some {trampoline : ℕ} {k1 : Kernel σ}
    (h : forkCopies D trampoline k p = some (np, k1, b, k')) :
    k.allocproc trampoline = .ok (some np, k1) ∧
      k1.uvmcopy D (k1.proc p).pagetable (k1.proc np).pagetable (k1.proc p).sz np =
        .ok (b, k') := by
  unfold forkCopies at h
  split at h
  · rename_i halloc
    split at h
    · rename_i hcopy
      cases h
      exact ⟨halloc, hcopy⟩
    · cases h
  · cases h

/-- The second child of `init` gets two pages. The first one fills the other frames and asks for one
more page, for which a page of the second child is evicted. -/
def evictedParent : List Event :=
  let p0 : ProcId := ⟨0, nproc_pos⟩
  let p1 : ProcId := ⟨1, one_lt_nproc⟩
  let p2 : ProcId := ⟨2, two_lt_nproc⟩
  [.schedule p0 .running 0, .fork p0 (some p1), .fork p0 (some p2), .schedule p1 .running 0,
    .schedule p2 .running 0, .sbrk p2 (2 * 4096) false true, .store p2 5 7,
    .sbrk p1 (63 * 4096) false true]

/-- A process with a page that is swapped out and a resident one is copied while all frames are in
use. The only page that may be evicted for the copy of the resident page is that page itself. -/
theorem uvmcopy_duplicates_swapped : ∃ (k k' : Kernel (ℕ → Page)) (p np : ProcId),
    k.ForkReady p np ∧ (k.userEntry p 0).flags.s = true ∧ (k.userEntry p 1).flags.v = true ∧
    (∀ i, (k.frametable i).inUse ≠ .free) ∧
    k.uvmcopy arrayDev (k.proc p).pagetable (k.proc np).pagetable (k.proc p).sz np =
      .ok (true, k') ∧
    ∀ v, v * PGSIZE < (k.proc p).sz → k'.userPage arrayDev np v = k.userPage arrayDev p v := by
  let p2 : ProcId := ⟨2, two_lt_nproc⟩
  have heval : (bootRun arrayDev (fun _ => 0) 0x80000 200 evictedParent).any (fun k =>
      decide ((k.proc p2).state = .running) &&
        (forkCopies arrayDev 0x80000 k p2).any fun x => x.2.2.1 &&
          decide ((x.2.1.userEntry p2 0).flags.s = true ∧ (x.2.1.userEntry p2 1).flags.v = true ∧
            ∀ i, (x.2.1.frametable i).inUse ≠ .free)) = true := by
    decide +kernel
  obtain ⟨k0, hk0, hfork⟩ := Option.any_eq_true _ _ |>.mp heval
  obtain ⟨hrunning, hfork⟩ := (Bool.and_eq_true _ _).mp hfork
  obtain ⟨⟨np, k, b, k'⟩, hcopies, hfacts⟩ := Option.any_eq_true _ _ |>.mp hfork
  obtain ⟨rfl, hfacts⟩ := (Bool.and_eq_true _ _).mp hfacts
  obtain ⟨hswapped, hresident, hfull⟩ := of_decide_eq_true hfacts
  -- the state in which the fork begins is one between operations
  obtain ⟨halloc, hcopy⟩ := forkCopies_eq_some hcopies
  obtain ⟨kb, hinit, hrun⟩ := run_of_bootRun hk0
  have hidle := idle_of_reachable (hrun.reachable (.init hinit))
  have hlive : (k0.proc p2).state ≠ .unused := by
    rw [of_decide_eq_true hrunning]
    simp
  have hready := ForkReady.of_allocproc hidle hlive halloc
  obtain ⟨-, hdup, -⟩ := uvmcopy_duplicates_or_undoes arrayDev_lawful hready hcopy
  exact ⟨k, k', p2, np, hready, hswapped, hresident, hfull, hcopy,
    fun v hv => ((hdup rfl).1 v hv).1⟩

end Xv6.VM
