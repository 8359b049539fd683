import Xv6.VM.System

/-!
# Demand paging is transparent

User code cannot tell the kernel, which evicts pages to swap slots and brings them back, from a
machine with unlimited memory. `demand_paging_transparent` compares the two on every run: the
processes that exist, their sizes and the contents and permissions of their pages are those of
`Unlimited.step` on the same events. It also says that `kalloc_user`, which may evict any page, and
`swap_in` change no page of any process, from every state in which the kernel calls them.
-/

namespace Xv6.VM

namespace Kernel

variable {σ : Type} {D : SwapDev σ} {k k' : Kernel σ} {p : ProcId} {v va pa : ℕ}

/-- An allocation changes no page, whatever it evicts. -/
theorem Consistent.samePages_kallocUser (hk : k.Consistent) (hD : D.Lawful)
    (hrun : k.kallocUser D va p = .ok (pa, k')) : k.SamePages D k' := by
  obtain ⟨i, hal⟩ := kallocUser_spec hk.inv hk.attached hrun
  exact samePages_of_page_eq hD hk.attached hk.inv hal.inv hal.same hal.page

/-- Bringing a page back into the frame that was allocated for it changes no page. -/
theorem Consistent.samePages_swapIn {k1 : Kernel σ} (hk : k.Consistent) (hD : D.Lawful)
    (hp : (k.proc p).pagetable ≠ 0) (hv : v < USER_TOP)
    (halloc : k.kallocUser D (v * PGSIZE) p = .ok (pa, k1))
    (hs : (k1.userEntry p v).flags.s = true)
    (hrun : k1.swapIn D p (v * PGSIZE) pa = .ok k') : k1.SamePages D k' := by
  obtain ⟨i, hal⟩ := kallocUser_spec hk.inv hk.attached halloc
  have ha1 : k1.Attached := hal.same.attached hk.attached
  have howner : k1.owner (k1.proc p).pagetable = some p := ha1 p (by rw [hal.same.proc]; exact hp)
  rw [Kernel.userEntry_eq (by rw [howner]; rfl) (mul_pgsize_lt_maxva hv)] at hs
  have hframe : k1.frametable i = userFrame (v * PGSIZE) p pa := hal.frame
  obtain ⟨hI', hpage, hsame, -⟩ := swapIn_spec hal.inv rfl howner hframe hs hrun
  exact samePages_of_page_eq hD ha1 hal.inv hI' hsame hpage

end Kernel

section Transparency

variable {σ : Type} {D : SwapDev σ} {m : List ℕ} {trampoline : ℕ} {k : Kernel σ}

/-- The memory of the processes is what the address spaces of the view say. -/
theorem Idle.userPage_eq {p : ProcId} {a : AddressSpace} (hk : Idle D m k) (hD : D.Lawful)
    (hp : k.view D p = some a) :
    a.sz = (k.proc p).sz ∧ ∀ v, v * PGSIZE < a.sz → k.userPage D p v = a.userPage v := by
  have hlive := live_of_view hp
  rw [view_eq hlive] at hp
  cases hp
  refine ⟨rfl, fun v hv => ?_⟩
  exact Kernel.userPage_eq hD hk.inv (by rw [hk.owner hlive]; rfl) (hk.lt_top hv)

/-- Runs of the kernel do to the address spaces what the machine with unlimited memory does. -/
theorem view_of_run {k0 : Kernel σ} {es : List Event} (hD : D.Lawful)
    (hinit : (memorySystem D trampoline).init k0) (hrun : (memorySystem D trampoline).Run k0 es k)
    (hes : ∀ e ∈ es, e.NoStatus) : es.foldlM Unlimited.step (k0.view D) = some (k.view D) := by
  refine hrun.foldlM_eq (f := Kernel.view D) (fun k e k' hk he hstep => ?_) (.init hinit) hes
  exact ((idle_of_reachable hk).step hstep).2 hD he

/-- Take any run of the kernel on a swap device that returns what was last written to a slot. The
machine with unlimited memory can take the same events, and then both have the same processes, with
the same sizes and with the same content and permissions in every page below the size. No eviction
and no swap-in changes a page of any process. -/
theorem demand_paging_transparent {k0 : Kernel σ} {es : List Event} (hD : D.Lawful)
    (hinit : (memorySystem D trampoline).init k0) (hrun : (memorySystem D trampoline).Run k0 es k)
    (hes : ∀ e ∈ es, e.NoStatus) :
    (∃ p0 m, k0.initproc = some p0 ∧ es.foldlM Unlimited.step (.boot p0) = some m ∧
      (∀ p, (m p).isSome ↔ (k.proc p).state ≠ .unused) ∧
      ∀ p a, m p = some a → a.sz = (k.proc p).sz ∧
        ∀ v, v * PGSIZE < a.sz → k.userPage D p v = a.userPage v) ∧
    k.Consistent ∧
    ∀ k1 : Kernel σ, k1.Consistent → ∀ va p pa k2, k1.kallocUser D va p = .ok (pa, k2) →
      k1.SamePages D k2 ∧ ∀ v k3, va = v * PGSIZE → v < USER_TOP → (k1.proc p).pagetable ≠ 0 →
        (k2.userEntry p v).flags.s = true → k2.swapIn D p va pa = .ok k3 → k2.SamePages D k3 := by
  have hk := idle_of_reachable (hrun.reachable (.init hinit))
  have hview := view_of_run hD hinit hrun hes
  -- the first process of the kernel is that of the machine
  obtain ⟨kb, hkb, hboot⟩ := hinit
  obtain ⟨-, p0, hp0, hview0⟩ := hkb.userinit (D := D) hboot
  rw [hview0] at hview
  refine ⟨⟨p0, k.view D, hp0, hview, fun p => ?_, fun p a hp => hk.userPage_eq hD hp⟩,
    hk.consistent, ?_⟩
  · by_cases hp : (k.proc p).state = .unused
    · rw [Idle.view_unused hp]
      simp [hp]
    · rw [Idle.view_eq hp]
      simp [hp]
  · intro k1 hk1 va p pa k2 halloc
    refine ⟨hk1.samePages_kallocUser hD halloc, ?_⟩
    rintro v k3 rfl hv hp hs hswap
    exact hk1.samePages_swapIn hD hp hv halloc hs hswap

theorem demand_paging_transparent_swapping :
    ∃ k0 k, (memorySystem arrayDev 0x80000).init k0 ∧
      (memorySystem arrayDev 0x80000).Run k0 swappingRun k ∧
      ∃ p0 m, k0.initproc = some p0 ∧ swappingRun.foldlM Unlimited.step (.boot p0) = some m ∧
        ∀ p a, m p = some a → ∀ v, v * PGSIZE < a.sz → k.userPage arrayDev p v = a.userPage v := by
  obtain ⟨k0, k, hinit, hrun⟩ := exists_swappingRun
  have hes : ∀ e ∈ swappingRun, e.NoStatus := by
    simp [swappingRun, Event.NoStatus]
  obtain ⟨⟨p0, m, hp0, hm, -, hpages⟩, -⟩ :=
    demand_paging_transparent arrayDev_lawful hinit hrun hes
  exact ⟨k0, k, hinit, hrun, p0, m, hp0, hm, fun p a hp => (hpages p a hp).2⟩

end Transparency

end Xv6.VM
