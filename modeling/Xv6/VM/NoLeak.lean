import Xv6.VM.Releasing
import Xv6.VM.System

/-!
# No memory is leaked over the life of a process

Between operations a process has no entry at or above its size rounded up, so that `uvmfree` finds
all its pages and `freewalk` never meets one. The pages that `kinit` freed (`Kernel.managed`) are at
any time on the free list or owned by a process that exists. When `wait` has reaped a process, no
frame and no slot refers to it, and so each of those pages is on the free list or owned by another
process, whatever the process did before.
-/

namespace Xv6.VM

open Fallible Kernel

/-! ## Panics -/

/-- The operation of the event `e` panics with the message `msg`. -/
def Kernel.Panics {σ : Type} (D : SwapDev σ) (trampoline : ℕ) (k : Kernel σ) (e : Event)
    (msg : String) : Prop :=
  match e with
  | .fault p va _ => (k.proc p).state = .running ∧
      k.vmfault D p (k.proc p).pagetable va = .error msg
  | .load _ _ _ => False
  | .store _ _ _ => False
  | .sbrk p n lazy _ => (k.proc p).state = .running ∧ k.sysSbrk D p n lazy = .error msg
  | .fork p _ => (k.proc p).state = .running ∧ k.kfork D trampoline p = .error msg
  | .exec p ip argv _ => (k.proc p).state = .running ∧ (∀ arg ∈ argv, arg.length < PGSIZE) ∧
      k.kexec D trampoline p ip argv = .error msg
  | .exit p status => (k.proc p).state = .running ∧ k.kexit p status = .error msg
  | .wait p addr _ => (k.proc p).state = .running ∧ k.kwait D p addr = .error msg
  | .schedule _ _ _ => False

section Panics

variable {σ : Type} {D : SwapDev σ} {m : List ℕ} {k : Kernel σ} {trampoline : ℕ} {e : Event}
  {msg : String}

/-- The panics of the memory operations are those of the page-table code, of a failing eviction and
of an exit of `init`. -/
theorem Idle.not_panics (hk : Idle D m k) (hT : msg ∉ tableMessages) (hE : msg ∉ evictMessages)
    (hinit : msg ≠ "init exiting") (hD : D.Avoids msg) : ¬ k.Panics D trampoline e msg := by
  intro hpanic
  cases e with
  | fault p va ok => exact ((stable_of_avoids hT hE hD _).vmfault rfl).avoids hpanic.2
  | load | store => exact hpanic
  | sbrk p n lazy ok => exact ((stable_of_avoids hT hE hD _).sysSbrk rfl).avoids hpanic.2
  | fork p child => exact hk.kfork_avoids hT hE hD (ne_unused hpanic.1) hpanic.2
  | exec p ip argv ok => exact hk.kexec_avoids hT hE hD (ne_unused hpanic.1) hpanic.2.1 hpanic.2.2
  | exit p status =>
    have herr := hpanic.2
    unfold Kernel.kexit at herr
    split_ifs at herr
    cases herr
    exact hinit rfl
  | wait p addr child => exact hk.kwait_avoids hT hE hD (ne_unused hpanic.1) hpanic.2
  | schedule p state level => exact hpanic

end Panics

/-! ## Where the pages are -/

namespace Kernel

variable {σ : Type}

/-- The process `p` owns the physical page `pg`: it is a page of its page table, its trapframe or
the frame of a user page. -/
def Owns (k : Kernel σ) (p : ProcId) (pg : ℕ) : Prop :=
  (k.proc p).state ≠ .unused ∧ (pg = (k.proc p).pagetable ∨
    (∃ i, k.core.dir1 (k.proc p).pagetable i = some pg) ∨
    (∃ j, k.core.dir0 (k.proc p).pagetable j = some pg) ∨
    ((k.proc p).trapframe = pg ∧ pg ≠ 0) ∨
    ∃ i, (k.frametable i).inUse ≠ .free ∧ (k.frametable i).p = some p ∧ (k.frametable i).pa = pg)

/-- No entry of `p` at or above its size, and below the trapframe, is valid or swapped out. -/
def NothingAbove (k : Kernel σ) (p : ProcId) : Prop :=
  ∀ v, pgroundup (k.proc p).sz ≤ v * PGSIZE → v * PGSIZE < TRAPFRAME →
    (k.userEntry p v).flags.v = false ∧ (k.userEntry p v).flags.s = false

/-- Nothing is left of `p`: no frame or slot in use refers to it, and every page is free or owned by
another process. -/
structure Gone (k : Kernel σ) (p : ProcId) : Prop where
  frames : ∀ i, (k.frametable i).p ≠ some p
  slots : ∀ j, (k.swaptable j).inUse = true → (k.swaptable j).p ≠ some p
  pages : ∀ pg ∈ k.managed, pg ∈ k.freelist ∨ ∃ q, q ≠ p ∧ k.Owns q pg

end Kernel

namespace Idle

variable {σ : Type} {D : SwapDev σ} {m : List ℕ} {k k' : Kernel σ} {p pp : ProcId} {pg : ℕ}

section

variable (hk : Idle D m k)

include hk

lemma nothingAbove (hp : (k.proc p).state ≠ .unused) : k.NothingAbove p := by
  intro v hv htop
  rw [pgroundup_eq] at hv
  rw [trapframe_eq] at htop
  have hlt : v < USER_TOP := Nat.lt_of_mul_lt_mul_right htop
  have hle : pageCount (k.proc p).sz ≤ v := Nat.le_of_mul_le_mul_right hv (by decide)
  rw [hk.userEntry_eq hp (mul_pgsize_lt_maxva hlt), (page_eq_none_iff hk.inv hlt).mp (hk.above hle)]
  exact ⟨rfl, rfl⟩

lemma live_of_frame {i : Fin NUM_FRAMES} (hi : (k.frametable i).inUse ≠ .free) :
    ∃ q, (k.frametable i).p = some q ∧ (k.proc q).state ≠ .unused := by
  rcases hk.inv.frames.cells.covered i hi with hheld | ⟨⟨r, v⟩, hres⟩
  · cases hheld
  · have hp := (hk.inv.frames.owned _ i hres).1
    have hr : (k.owner r).isSome := by
      by_contra hnone
      have hempty := leaf_of_unowned (k := k) (r := r) (by simpa using hnone) v
      have hv : (k.core.leaf r v).flags.v = true := hres.2.1
      rw [hempty] at hv
      cases hv
    obtain ⟨q, hq, hlive, -⟩ := hk.exists_proc hr
    exact ⟨q, hp.trans hq, hlive⟩

lemma live_of_slot {j : ℕ} (hj : (k.swaptable j).inUse = true) :
    ∃ q, (k.swaptable j).p = some q ∧ (k.proc q).state ≠ .unused := by
  rcases hk.inv.slots.cells.covered j hj with hheld | ⟨⟨r, v⟩, hswap⟩
  · cases hheld
  · have hp := hk.inv.slots.owned _ j hswap
    have hr : (k.owner r).isSome := by
      by_contra hnone
      have hempty := leaf_of_unowned (k := k) (r := r) (by simpa using hnone) v
      have hs : (k.core.leaf r v).flags.s = true := hswap.1
      rw [hempty] at hs
      cases hs
    obtain ⟨q, hq, hlive, -⟩ := hk.exists_proc hr
    exact ⟨q, hp.trans hq, hlive⟩

/-- A page that `kinit` freed is on the free list or owned by a process that exists. -/
theorem free_or_owned (hpg : pg ∈ k.managed) : pg ∈ k.freelist ∨ ∃ q, k.Owns q pg := by
  have hdir : ∀ {r : ℕ}, (k.owner r).isSome → ∃ q, (k.proc q).state ≠ .unused ∧
      (k.proc q).pagetable = r := by
    intro r hr
    obtain ⟨q, -, hq⟩ := hk.exists_proc hr
    exact ⟨q, hq⟩
  obtain ⟨u, hu⟩ := (hk.inv.pages.managed pg).mp hpg
  cases u with
  | free => exact .inl hu
  | held => cases hu
  | frame i =>
    obtain ⟨q, hq, hlive⟩ := hk.live_of_frame hu.1
    exact .inr ⟨q, hlive, .inr (.inr (.inr (.inr ⟨i, hu.1, hq, hu.2⟩)))⟩
  | root =>
    obtain ⟨q, hlive, htable⟩ := hdir hu
    exact .inr ⟨q, hlive, .inl htable.symm⟩
  | dir1 r i =>
    obtain ⟨q, hlive, rfl⟩ := hdir (Core.dir1_eq_some.mp hu).1
    exact .inr ⟨q, hlive, .inr (.inl ⟨i, hu⟩)⟩
  | dir0 r j =>
    obtain ⟨l1, hl1, -⟩ := Core.dir0_eq_some.mp hu
    obtain ⟨q, hlive, rfl⟩ := hdir (Core.dir1_eq_some.mp hl1).1
    exact .inr ⟨q, hlive, .inr (.inr (.inl ⟨j, hu⟩))⟩
  | trapframe q =>
    obtain ⟨htf, hne⟩ := hu
    refine .inr ⟨q, fun hunused => hne ?_, .inr (.inr (.inr (.inl ⟨htf, hne⟩)))⟩
    change (k.proc q).trapframe = pg at htf
    rw [← htf, (hk.unused hunused).1]

lemma managed_of_owns (hown : k.Owns p pg) : pg ∈ k.managed := by
  obtain ⟨hlive, hown⟩ := hown
  refine (hk.inv.pages.managed pg).mpr ?_
  rcases hown with rfl | ⟨i, hi⟩ | ⟨j, hj⟩ | htf | ⟨i, hused, -, hpa⟩
  · refine ⟨.root, ?_⟩
    change (k.owner _).isSome = true
    rw [hk.owner hlive]
    rfl
  · exact ⟨.dir1 _ i, hi⟩
  · exact ⟨.dir0 _ j, hj⟩
  · exact ⟨.trapframe p, htf⟩
  · exact ⟨.frame i, hused, hpa⟩

/-- Nothing is left of an entry of the process table that is unused. -/
theorem gone (hp : (k.proc p).state = .unused) : k.Gone p where
  frames i hi := by
    by_cases hfree : (k.frametable i).inUse = .free
    · have hnone : (k.frametable i).p = none := hk.inv.frames.blank i hfree
      rw [hnone] at hi
      cases hi
    · obtain ⟨q, hq, hlive⟩ := hk.live_of_frame hfree
      rw [hi] at hq
      cases hq
      exact hlive hp
  slots j hj hjp := by
    obtain ⟨q, hq, hlive⟩ := hk.live_of_slot hj
    rw [hjp] at hq
    cases hq
    exact hlive hp
  pages pg hpg := by
    refine (hk.free_or_owned hpg).imp_right ?_
    rintro ⟨q, hown⟩
    refine ⟨q, ?_, hown⟩
    rintro rfl
    exact hown.1 hp

end

end Idle

/-! ## Reaping -/

section Reaping

variable {σ : Type} {D : SwapDev σ} {m : List ℕ} {k k' : Kernel σ} {p q : ProcId}

lemma Kernel.freeproc_proc (hrun : k.freeproc p = .ok k') : k'.proc p = {} := by
  unfold Kernel.freeproc at hrun
  obtain ⟨k1, -, hrun⟩ := bind_eq_ok.mp hrun
  obtain ⟨k2, -, hrun⟩ := bind_eq_ok.mp hrun
  cases hrun
  exact Function.update_self _ _ _

/-- The exited child that `wait` finds is no process any more when `wait` returns its process id. -/
theorem Kernel.kwait_unused {addr pid : ℕ} (hchild : k.zombieChild q = some p)
    (hrun : k.kwait D q addr = .ok (some pid, k')) : (k'.proc p).state = .unused := by
  unfold Kernel.kwait at hrun
  rw [hchild] at hrun
  obtain ⟨⟨copied, k1⟩, -, hrun⟩ := bind_eq_ok.mp hrun
  cases copied with
  | false => cases hrun
  | true =>
    obtain ⟨k2, hfree, hrun⟩ := bind_eq_ok.mp hrun
    cases hrun
    change (k2.proc p).state = .unused
    rw [freeproc_proc hfree]

/-- `wait` leaves nothing of the process that it reaps. -/
theorem Idle.reap {trampoline addr : ℕ} (hk : Idle D m k)
    (hstep : k.Step D trampoline (.wait q addr (some p)) k') : k'.Gone p := by
  have hk' := (hk.step hstep).1
  obtain ⟨-, pid, hrun, hchild⟩ := hstep
  cases pid with
  | none => cases hchild
  | some pid => exact hk'.gone (kwait_unused hchild.symm hrun)

/-- Along every run each page that `kinit` freed has exactly one use: it is free, in a frame, part
of one page table or one trap frame. No other page has a use, and none is on the free list twice. -/
theorem pages_partitioned {trampoline : ℕ} {k0 : Kernel σ} {es : List Event}
    (hinit : (memorySystem D trampoline).init k0)
    (hrun : (memorySystem D trampoline).Run k0 es k) :
    k.freelist.Nodup ∧ ∀ pg, pg ∈ k0.managed ↔ ∃! u, k.core.PageUses none pg u := by
  have hk := idle_of_run (idle_of_reachable (.init hinit)) hrun
  have hP := hk.inv.pages
  refine ⟨hP.nodup, fun pg => ?_⟩
  rw [← hk.managed]
  refine (hP.managed pg).trans ⟨?_, ExistsUnique.exists⟩
  rintro ⟨u, hu⟩
  exact ⟨u, hu, fun u' hu' => hP.exclusive hu' hu⟩

theorem pages_partitioned_swapping : ∃ k0 k, (memorySystem arrayDev 0x80000).Run k0 swappingRun k ∧
    k.freelist.Nodup ∧ ∀ pg, pg ∈ k0.managed ↔ ∃! u, k.core.PageUses none pg u := by
  obtain ⟨k0, k, hinit, hrun⟩ := exists_swappingRun
  exact ⟨k0, k, hrun, pages_partitioned hinit hrun⟩

end Reaping

/-- Every page that is free or owned by a process after any sequence of operations is one of those
with which the machine started. No process has an entry above its size, no operation panics in
`freewalk`, and when a process has been reaped each page of the machine is free or owned by another
process, and no frame and no slot refers to the reaped process. -/
theorem no_memory_leaked {σ : Type} {D : SwapDev σ} {trampoline : ℕ} {k0 k : Kernel σ}
    {es : List Event} (hD : D.Avoids "freewalk: leaf")
    (hinit : (memorySystem D trampoline).init k0)
    (hrun : (memorySystem D trampoline).Run k0 es k) :
    (∀ p, (k.proc p).state ≠ .unused → k.NothingAbove p) ∧
    (∀ e, ¬ k.Panics D trampoline e "freewalk: leaf") ∧
    (∀ pg, (pg ∈ k.freelist ∨ ∃ p, k.Owns p pg) → pg ∈ k0.managed) ∧
    ∀ q addr p k', k.Step D trampoline (.wait q addr (some p)) k' →
      k'.Gone p ∧ k'.managed = k0.managed := by
  have hk0 : Idle D k0.managed k0 := idle_of_reachable (.init hinit)
  have hk : Idle D k0.managed k := idle_of_run hk0 hrun
  refine ⟨fun p hp => hk.nothingAbove hp, fun e => ?_, fun pg hpg => ?_,
    fun q addr p k' hstep => ?_⟩
  · exact hk.not_panics (by decide) (by decide) (by decide) hD
  · rw [← hk.managed]
    rcases hpg with hfree | ⟨p, hown⟩
    · exact (hk.inv.pages.managed pg).mpr ⟨.free, hfree⟩
    · exact hk.managed_of_owns hown
  · exact ⟨hk.reap hstep, (hk.step hstep).1.managed⟩

/-- A child grows, touches a lazily allocated page, shrinks, exits and is reaped. -/
def reapingRun : List Event :=
  let p0 : ProcId := ⟨0, nproc_pos⟩
  let p1 : ProcId := ⟨1, one_lt_nproc⟩
  [.schedule p0 .running 0, .fork p0 (some p1), .schedule p1 .running 0,
    .sbrk p1 (3 * 4096) false true, .sbrk p1 10000 true true, .fault p1 (4 * 4096) true,
    .sbrk p1 (-5000) false true, .exit p1 0]

theorem no_memory_leaked_reaping : ∃ k0 k k', (memorySystem arrayDev 0x80000).init k0 ∧
    (memorySystem arrayDev 0x80000).Run k0 reapingRun k ∧
    k.Step arrayDev 0x80000 (.wait ⟨0, by decide⟩ 0 (some ⟨1, by decide⟩)) k' ∧
    k'.Gone ⟨1, by decide⟩ := by
  have heval : ((bootRun arrayDev (fun _ => 0) 0x80000 20 reapingRun).bind fun k =>
      k.perform arrayDev 0x80000 (.wait ⟨0, by decide⟩ 0 (some ⟨1, by decide⟩))).isSome = true := by
    decide +kernel
  obtain ⟨k', hk'⟩ := Option.isSome_iff_exists.mp heval
  obtain ⟨k, hk, hwait⟩ := Option.bind_eq_some_iff.mp hk'
  obtain ⟨k0, hinit, hrun⟩ := run_of_bootRun hk
  have hD : arrayDev.Avoids "freewalk: leaf" := ⟨fun _ _ _ _ => .ok _, fun _ _ _ _ => .ok _⟩
  exact ⟨k0, k, k', hinit, hrun, step_of_perform hwait,
    ((no_memory_leaked hD hinit hrun).2.2.2 _ _ _ _ (step_of_perform hwait)).1⟩

end Xv6.VM
