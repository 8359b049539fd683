import Xv6.VM.Residents

/-!
# `resident_pages` is exact

The operations of the memory system keep `resident_pages` of every process equal to the number of
its frames. `allocproc` and `freeproc` set the counter to zero; between operations a process that
does not exist has no frames, by the ownership invariant.
-/

namespace Xv6.VM

open Fallible Kernel Function

namespace Kernel

variable {σ : Type} {D : SwapDev σ} {k k' : Kernel σ} {p : ProcId} {r va pa : ℕ}

lemma resetStats_accounted (hk : k.Accounted) (hframes : k'.frametable = k.frametable)
    (hstats : k'.stats = update k.stats p {}) (hnone : k'.residents p = 0) :
    k'.Accounted := by
  intro q
  by_cases hq : q = p
  · subst hq
    rw [hstats, update_self, hnone]
    rfl
  · have hres : k'.residents q = k.residents q := by
      rw [residents, hframes]
      rfl
    rw [hstats, update_of_ne hq, hres]
    exact hk q

/-- `freeproc` of a process that has no frames at the end. -/
theorem freeproc_accounted (hk : k.Accounted) (hrun : k.freeproc p = .ok k')
    (hnone : k'.residents p = 0) : k'.Accounted := by
  unfold freeproc at hrun
  obtain ⟨k1, hrun1, hrun⟩ := bind_eq_ok.mp hrun
  obtain ⟨k2, hrun2, hrun⟩ := bind_eq_ok.mp hrun
  have hk1 : k1.Accounted := by
    split_ifs at hrun1
    · exact (kfree_accounted hk).result _ hrun1
    · cases hrun1
      exact hk
  have hk2 : k2.Accounted := by
    dsimp only at hrun2
    split_ifs at hrun2
    · exact ((stable_accounted idleDev).procFreepagetable (fun _ _ => trivial) (k := k1.setProc p _)
        hk1).result _ hrun2
    · cases hrun2
      exact hk1
  cases hrun
  exact resetStats_accounted hk2 rfl rfl hnone

/-! ## User code -/

lemma userLoad_accounted {byte : UInt8} (hk : k.Accounted)
    (hrun : k.userLoad p va = some (byte, k')) : k'.Accounted := by
  unfold userLoad at hrun
  split at hrun
  · cases hrun
  · split_ifs at hrun
    cases hrun
    exact hk

lemma userStore_accounted {byte : UInt8} (hk : k.Accounted)
    (hrun : k.userStore p va byte = some k') : k'.Accounted := by
  unfold userStore at hrun
  split at hrun
  · cases hrun
  · dsimp only at hrun
    split_ifs at hrun
    cases hrun
    exact hk

end Kernel

/-! ## Creation and reaping -/

namespace Idle

variable {σ : Type} {D : SwapDev σ} {m : List ℕ} {k k' : Kernel σ} {p : ProcId} {trampoline : ℕ}

/-- A process without pages has no frames. -/
theorem residents_of_empty (hk : Idle D m k)
    (hempty : (k.proc p).state ≠ .unused → ∀ v, k.page D (k.proc p).pagetable v = none) :
    k.residents p = 0 := by
  rw [residents, Finset.card_eq_zero, Finset.filter_eq_empty_iff]
  rintro i - ⟨hused, howner⟩
  obtain ⟨q, v, pa, ⟨hq, hsz, hv, -⟩, -, howner', -⟩ :=
    hk.page_of_frame (i := i) (by rw [hused]; simp)
  obtain rfl : q = p := Option.some.inj (howner'.symm.trans howner)
  have hlt := hk.lt_top hsz
  rw [hk.userEntry_eq hq (mul_pgsize_lt_maxva hlt)] at hv
  have hpage := hempty hq v
  rw [page_of_valid hlt hv] at hpage
  cases hpage

lemma residents_of_unused (hk : Idle D m k) (hp : (k.proc p).state = .unused) :
    k.residents p = 0 :=
  hk.residents_of_empty fun hlive => absurd hp hlive

/-- A process has an entry in the view if it is in use. -/
theorem unused_of_view (h : k.view D p = none) : (k.proc p).state = .unused := by
  by_contra hlive
  rw [view_eq hlive] at h
  cases h

lemma allocproc_accounted {o : Option ProcId} (hk : Idle D m k) (ha : k.Accounted)
    (hrun : k.allocproc trampoline = .ok (o, k')) :
    k'.Accounted ∧ ∀ np ∈ o, (k'.stats np).residentPages = 0 := by
  obtain ⟨hk', hcases⟩ := hk.allocproc hrun
  have hzero : k'.Accounted → ∀ np ∈ o, (k'.stats np).residentPages = 0 := by
    intro ha' np hnp
    rcases hcases with ⟨rfl, -⟩ | ⟨np', rfl, -, -, -, hempty, -⟩
    · cases hnp
    · cases hnp
      rw [ha', hk'.residents_of_empty fun _ => hempty]
      rfl
  refine (fun ha' => ⟨ha', hzero ha'⟩) ?_
  unfold Kernel.allocproc at hrun
  split at hrun
  · cases hrun
    exact ha
  · rename_i p hfind
    have hp : (k.proc p).state = .unused := by simpa using List.find?_some hfind
    have htake : (k.takeProc p).Accounted :=
      resetStats_accounted ha rfl rfl (hk.residents_of_unused hp)
    -- if `allocproc` gives up, the entry is unused again
    have hgive : o = none → k'.residents p = 0 := by
      rintro rfl
      rcases hcases with ⟨-, hview⟩ | ⟨np', hnp, -⟩
      · refine hk'.residents_of_unused (unused_of_view (D := D) ?_)
        rw [hview]
        exact view_unused hp
      · cases hnp
    dsimp only at hrun
    generalize k.takeProc p = k1 at htake hrun
    have hkalloc := (onlyTables_kalloc k1).alike.sameBooks.accounted htake
    cases hcreate : k1.kalloc with
    | mk opg k2 =>
      rw [hcreate] at hkalloc hrun
      cases opg with
      | none =>
        obtain ⟨k3, hfree, hrun⟩ := bind_eq_ok.mp hrun
        cases hrun
        have ha3 : k3.Accounted :=
          Kernel.freeproc_accounted (k := k2.setProc p _) hkalloc hfree (hgive rfl)
        exact ha3
      | some pg =>
        obtain ⟨⟨opt, k3⟩, htable, hrun⟩ := bind_eq_ok.mp hrun
        have hk3 : k3.Accounted := ((stable_accounted D).procPagetable (fun _ _ => trivial)
          (k := k2.setProc p _) hkalloc).result _ htable
        cases opt with
        | none =>
          obtain ⟨k4, hfree, hrun⟩ := bind_eq_ok.mp hrun
          cases hrun
          have ha4 : k4.Accounted := Kernel.freeproc_accounted hk3 hfree (hgive rfl)
          exact ha4
        | some pagetable =>
          cases hrun
          exact hk3

lemma freeproc_accounted (hk : Idle D m k) (ha : k.Accounted) (hrun : k.freeproc p = .ok k') :
    k'.Accounted := by
  obtain ⟨hk', hview⟩ := hk.freeproc hrun
  refine Kernel.freeproc_accounted ha hrun (hk'.residents_of_unused (unused_of_view (D := D) ?_))
  rw [hview, update_self]

lemma kfork_accounted {o : Option ProcId} (hk : Idle D m k) (hp : (k.proc p).state ≠ .unused)
    (ha : k.Accounted) (hrun : k.kfork D trampoline p = .ok (o, k')) : k'.Accounted := by
  unfold Kernel.kfork at hrun
  obtain ⟨⟨o1, k1⟩, halloc, hrun⟩ := bind_eq_ok.mp hrun
  obtain ⟨ha1, -⟩ := hk.allocproc_accounted ha halloc
  obtain ⟨hk1, hcases⟩ := hk.allocproc halloc
  rcases hcases with ⟨rfl, -⟩ | ⟨np, rfl, hnp, hnp1, hother, hempty, -⟩
  · cases hrun
    exact ha1
  · obtain ⟨⟨copied, k2⟩, hcopy, hrun⟩ := bind_eq_ok.mp hrun
    have ha2 : k2.Accounted := ((stable_accounted D).uvmcopy ha1).result _ hcopy
    have hne : p ≠ np := by
      rintro rfl
      exact hp hnp
    have hlive1 : (k1.proc p).state ≠ .unused := by
      rw [hother p hne]
      exact hp
    obtain ⟨hI2, hsame2, hres⟩ := hk1.uvmcopy hlive1 hnp1 hne hempty hcopy
    rcases hres with ⟨rfl, -⟩ | ⟨rfl, hpage2⟩
    · cases hrun
      exact ha2
    · obtain ⟨k3, hfree, hrun⟩ := bind_eq_ok.mp hrun
      cases hrun
      obtain ⟨hk2, -⟩ := hk1.of_page_eq hI2 hsame2 hpage2
      have ha3 : k3.Accounted := hk2.freeproc_accounted ha2 hfree
      exact ha3

lemma kwait_accounted {addr : ℕ} {o : Option ℕ} (hk : Idle D m k)
    (hp : (k.proc p).state ≠ .unused) (ha : k.Accounted) (hrun : k.kwait D p addr = .ok (o, k')) :
    k'.Accounted := by
  unfold Kernel.kwait at hrun
  split at hrun
  · cases hrun
    exact ha
  · obtain ⟨hk1, -⟩ := hk.acquire
    obtain ⟨hk2, -⟩ := hk1.acquire
    obtain ⟨⟨copied, k3⟩, hcopy, hrun⟩ := bind_eq_ok.mp hrun
    have hk3 : Idle D m k3 := hk2.copyStatus hp hcopy
    have ha3 : k3.Accounted := by
      split_ifs at hcopy
      · exact ((stable_accounted D).copyout (k := k.acquire.acquire) ha).result _ hcopy
      · cases hcopy
        exact ha
    dsimp only at hrun
    split_ifs at hrun
    · obtain ⟨k4, hfree, hrun⟩ := bind_eq_ok.mp hrun
      cases hrun
      have ha4 : k4.Accounted := hk3.freeproc_accounted ha3 hfree
      exact ha4
    · cases hrun
      exact ha3

lemma step_accounted {e : Event} (hk : Idle D m k) (ha : k.Accounted)
    (hstep : k.Step D trampoline e k') : k'.Accounted := by
  cases e with
  | fault p va ok =>
    obtain ⟨-, pa, hrun, -⟩ := hstep
    exact ((stable_accounted D).vmfault ha).result _ hrun
  | load p va byte => exact userLoad_accounted ha hstep.2
  | store p va byte => exact userStore_accounted ha hstep.2
  | sbrk p n lazy ok => exact ((stable_accounted D).sysSbrk ha).result _ hstep.2
  | fork p child => exact hk.kfork_accounted (ne_unused hstep.1) ha hstep.2
  | exec p ip argv ok =>
    exact ((stable_accounted D).kexec (fun _ _ => trivial) ha).result _ hstep.2.2
  | exit p status =>
    obtain ⟨-, hrun⟩ := hstep
    unfold Kernel.kexit at hrun
    split_ifs at hrun
    cases hrun
    exact ha
  | wait p addr child =>
    obtain ⟨hp, pid, hrun, -⟩ := hstep
    exact hk.kwait_accounted (ne_unused hp) ha hrun
  | schedule p state level =>
    obtain ⟨-, -, rfl⟩ := hstep
    exact ha

end Idle

/-! ## Results -/

/-- At boot no process has frames, and `userinit` gives none to the first. -/
theorem Booted.userinit_accounted {σ : Type} {D : SwapDev σ} {k k' : Kernel σ} {trampoline : ℕ}
    (hk : Booted k) (hstats : ∀ p, (k.stats p).residentPages = 0)
    (hrun : k.userinit trampoline = .ok k') : k'.Accounted := by
  have ha : k.Accounted := fun p => by
    rw [hstats, (hk.idle (D := D)).residents_of_unused (by rw [hk.proc p])]
    rfl
  unfold Kernel.userinit at hrun
  obtain ⟨⟨o, k1⟩, halloc, hrun⟩ := bind_eq_ok.mp hrun
  obtain ⟨ha1, -⟩ := (hk.idle (D := D)).allocproc_accounted ha halloc
  cases o with
  | none => cases hrun
  | some p =>
    cases hrun
    exact ha1

/-- The memory system from a boot with all counters zero. -/
def countedSystem {σ : Type} (D : SwapDev σ) (trampoline : ℕ) :
    TransitionSystem (Kernel σ) Event where
  init k := ∃ k0, Booted k0 ∧ (∀ p, (k0.stats p).residentPages = 0) ∧
    k0.userinit trampoline = .ok k
  step k e k' := k.Step D trampoline e k'

/-- The functions that change frames, called with any arguments. -/
inductive FrameCall where
  | kallocUser (va : ℕ) (p : ProcId)
  | kfreeUser (pa : ℕ)
  | vmfault (p : ProcId) (pagetable va : ℕ)
  | swapIn (p : ProcId) (va newPa : ℕ)
  | uvmalloc (p : ProcId) (pagetable oldsz newsz : ℕ) (xperm : Flags)
  | uvmdealloc (pagetable oldsz newsz : ℕ)
  | uvmcopy (old new sz : ℕ) (np : ProcId)

/-- The state after a call. -/
def FrameCall.run {σ : Type} (D : SwapDev σ) (k : Kernel σ) : FrameCall → Except String (Kernel σ)
  | .kallocUser va p => (k.kallocUser D va p).map Prod.snd
  | .kfreeUser pa => k.kfreeUser pa
  | .vmfault p pagetable va => (k.vmfault D p pagetable va).map Prod.snd
  | .swapIn p va newPa => k.swapIn D p va newPa
  | .uvmalloc p pagetable oldsz newsz xperm =>
    (k.uvmalloc D p pagetable oldsz newsz xperm).map Prod.snd
  | .uvmdealloc pagetable oldsz newsz => (k.uvmdealloc pagetable oldsz newsz).map Prod.snd
  | .uvmcopy old new sz np => (k.uvmcopy D old new sz np).map Prod.snd

section Results

variable {σ : Type} {D : SwapDev σ} {trampoline : ℕ} {k k' : Kernel σ}

lemma FrameCall.run_accounted (hk : k.Accounted) (c : FrameCall) :
    Returns (c.run D k) Accounted := by
  cases c with
  | kallocUser va p => exact .map ((stable_accounted D).kallocUser _ _ hk)
  | kfreeUser pa => exact (stable_accounted D).kfreeUser _ hk
  | vmfault p pagetable va => exact .map ((stable_accounted D).vmfault hk)
  | swapIn p va newPa => exact (stable_accounted D).swapIn hk
  | uvmalloc p pagetable oldsz newsz xperm => exact .map ((stable_accounted D).uvmalloc hk)
  | uvmdealloc pagetable oldsz newsz => exact .map ((stable_accounted D).uvmdealloc hk)
  | uvmcopy old new sz np => exact .map ((stable_accounted D).uvmcopy hk)

lemma calls_accounted (calls : List FrameCall) (hk : k.Accounted) :
    Returns (calls.foldlM (FrameCall.run D) k) Accounted :=
  Within.foldlM (fun _ c ht => c.run_accounted ht) calls k hk

/-- Between operations the invariant holds and the counters are exact. -/
theorem accounted_of_reachable (hk : (countedSystem D trampoline).Reachable k) :
    Idle D k.managed k ∧ k.Accounted := by
  refine hk.invariant (I := fun k => Idle D k.managed k ∧ k.Accounted) ?_ ?_
  · rintro k ⟨k0, hk0, hstats, hrun⟩
    obtain ⟨hidle, -⟩ := hk0.userinit (D := D) hrun
    rw [hidle.managed]
    exact ⟨hidle, hk0.userinit_accounted (D := D) hstats hrun⟩
  · rintro k e k' - ⟨hk, ha⟩ hstep
    obtain ⟨hidle, -⟩ := hk.step hstep
    rw [hidle.managed]
    exact ⟨hidle, hk.step_accounted ha hstep⟩

/-- In every state that completed operations reach, and after any further calls of the functions
that change frames, `resident_pages` of every process is the number of its frames. It is zero for a
process that `allocproc` has just made, and stays exact from there. -/
theorem resident_pages_exact (hk : (countedSystem D trampoline).Reachable k) :
    (∀ (calls : List FrameCall) k', calls.foldlM (FrameCall.run D) k = .ok k' →
      ∀ p, (k'.stats p).residentPages = k'.residents p) ∧
    ∀ np k1, k.allocproc trampoline = .ok (some np, k1) → (k1.stats np).residentPages = 0 ∧
      ∀ (calls : List FrameCall) k', calls.foldlM (FrameCall.run D) k1 = .ok k' →
        ∀ p, (k'.stats p).residentPages = k'.residents p := by
  obtain ⟨hidle, ha⟩ := accounted_of_reachable hk
  refine ⟨fun calls k' hrun => (calls_accounted calls ha).result k' hrun, fun np k1 halloc => ?_⟩
  obtain ⟨ha1, hzero⟩ := hidle.allocproc_accounted ha halloc
  exact ⟨hzero np rfl, fun calls k' hrun => (calls_accounted calls ha1).result k' hrun⟩

end Results

/-- The counters along a run in which pages are evicted and brought back, and after a further
`kalloc_user`. -/
theorem resident_pages_exact_swapping : ∃ k, (countedSystem arrayDev 0x80000).Reachable k ∧
    ∀ (calls : List FrameCall) k', calls.foldlM (FrameCall.run arrayDev) k = .ok k' →
      ∀ p, (k'.stats p).residentPages = k'.residents p := by
  have heval : (bootRun arrayDev (fun _ => 0) 0x80000 200 swappingRun).isSome = true := by
    decide +kernel
  obtain ⟨k, hk⟩ := Option.isSome_iff_exists.mp heval
  obtain ⟨k0, hinit, hrun⟩ := Option.bind_eq_some_iff.mp hk
  have hreach : (countedSystem arrayDev 0x80000).Reachable k := by
    have hrun' : (countedSystem arrayDev 0x80000).Run k0 swappingRun k :=
      .of_foldlM (fun _ _ _ => step_of_perform) hrun
    exact hrun'.reachable
      (.init ⟨_, booted_bootState _ 200, fun _ => rfl, toOption_eq_some.mp hinit⟩)
  exact ⟨k, hreach, (resident_pages_exact hreach).1⟩

end Xv6.VM
