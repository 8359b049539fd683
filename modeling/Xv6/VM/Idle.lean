import Xv6.VM.UserSpec

/-!
# The invariant between operations

`Idle` is the invariant of the states between memory operations: every resource has one use, and the
page tables that exist are those of the processes (`Settled`). `Kernel.view` is what user code sees
of such a state, an address space for each process. The lemmas `Idle.fault`, `Idle.kfork` and so on
say that the operations keep the invariant and what they do to the address spaces.
-/

namespace Xv6.VM

open Fallible Kernel Function

/-! ## Processes and their tables between operations -/

/-- The tables that exist are those of the processes, with the trapframe and the trampoline mapped
and with pages only below the size of the process. -/
structure Settled (rest : Rest) (page : ℕ → Space) : Prop where
  owner : ∀ r p, rest.owner r = some p ↔ (rest.proc p).pagetable = r ∧ r ≠ 0
  upper : ∀ p, (rest.proc p).pagetable ≠ 0 → rest.upper (rest.proc p).pagetable = framedUpper
  top : ∀ p, pageCount (rest.proc p).sz ≤ USER_TOP
  above : ∀ p v, pageCount (rest.proc p).sz ≤ v → page (rest.proc p).pagetable v = none
  unused : ∀ p, (rest.proc p).state = .unused → rest.proc p = {}
  live : ∀ p, (rest.proc p).state ≠ .unused → (rest.proc p).pagetable ≠ 0

/-- The address spaces of the processes that exist. -/
def spaces (rest : Rest) (page : ℕ → Space) : Unlimited := fun p =>
  if (rest.proc p).state = .unused then none
  else some ⟨(rest.proc p).sz, page (rest.proc p).pagetable⟩

/-- The entries of the process table differ in nothing that concerns memory. -/
structure Proc.SameMemory (pr pr' : Proc) : Prop where
  pagetable : pr'.pagetable = pr.pagetable
  trapframe : pr'.trapframe = pr.trapframe
  sz : pr'.sz = pr.sz
  unused_iff : pr'.state = .unused ↔ pr.state = .unused
  unused : pr.state = .unused → pr' = pr

lemma Proc.SameMemory.trans {a b c : Proc} (h : a.SameMemory b) (h' : b.SameMemory c) :
    a.SameMemory c where
  pagetable := h'.pagetable.trans h.pagetable
  trapframe := h'.trapframe.trans h.trapframe
  sz := h'.sz.trans h.sz
  unused_iff := h'.unused_iff.trans h.unused_iff
  unused ha := (h'.unused (h.unused_iff.mpr ha)).trans (h.unused ha)

namespace Settled

variable {rest rest' : Rest} {page : ℕ → Space} {p np : ProcId} {pr : Proc} {s : Space} {r : ℕ}

section

variable (hS : Settled rest page)

include hS

lemma pagetable_inj (hne : (rest.proc p).pagetable ≠ 0)
    (heq : (rest.proc np).pagetable = (rest.proc p).pagetable) : np = p := by
  have h1 := (hS.owner _ p).mpr ⟨rfl, hne⟩
  rw [(hS.owner _ np).mpr ⟨heq, hne⟩] at h1
  exact Option.some.inj h1

lemma pagetable_of_unused (hp : (rest.proc p).state = .unused) : (rest.proc p).pagetable = 0 := by
  rw [hS.unused p hp]

/-- An entry of the process table changes, and no table of another process. -/
theorem set (page' : ℕ → Space) (hproc : rest'.proc = update rest.proc p pr)
    (howner : ∀ r p', rest'.owner r = some p' ↔ (rest'.proc p').pagetable = r ∧ r ≠ 0)
    (hupper : ∀ p', p' ≠ p → (rest.proc p').pagetable ≠ 0 →
      rest'.upper (rest.proc p').pagetable = rest.upper (rest.proc p').pagetable)
    (hpage : ∀ p', p' ≠ p → page' (rest.proc p').pagetable = page (rest.proc p').pagetable)
    (hself : pr.pagetable ≠ 0 → rest'.upper pr.pagetable = framedUpper)
    (htop : pageCount pr.sz ≤ USER_TOP)
    (habove : ∀ v, pageCount pr.sz ≤ v → page' pr.pagetable v = none)
    (hunused : pr.state = .unused → pr = {}) (hlive : pr.state ≠ .unused → pr.pagetable ≠ 0) :
    Settled rest' page' ∧ spaces rest' page' = update (spaces rest page) p
      (if pr.state = .unused then none else some ⟨pr.sz, page' pr.pagetable⟩) := by
  unfold spaces
  refine ⟨⟨howner, ?_, ?_, ?_, ?_, ?_⟩, funext fun p' => ?_⟩ <;> rw [hproc]
  · refine (forall_update_iff rest.proc fun _ pr =>
      pr.pagetable ≠ 0 → rest'.upper pr.pagetable = framedUpper).mpr ⟨hself, fun p' hp' h0 => ?_⟩
    rw [hupper p' hp' h0]
    exact hS.upper p' h0
  · exact (forall_update_iff rest.proc fun _ pr => pageCount pr.sz ≤ USER_TOP).mpr
      ⟨htop, fun p' _ => hS.top p'⟩
  · refine (forall_update_iff rest.proc fun _ pr =>
      ∀ v, pageCount pr.sz ≤ v → page' pr.pagetable v = none).mpr ⟨habove, fun p' hp' v hv => ?_⟩
    rw [hpage p' hp']
    exact hS.above p' v hv
  · exact (forall_update_iff rest.proc fun _ pr => pr.state = .unused → pr = {}).mpr
      ⟨hunused, fun p' _ => hS.unused p'⟩
  · exact (forall_update_iff rest.proc fun _ pr => pr.state ≠ .unused → pr.pagetable ≠ 0).mpr
      ⟨hlive, fun p' _ => hS.live p'⟩
  · by_cases hp' : p' = p
    · rw [hp', update_self, update_self]
    · rw [update_of_ne hp', update_of_ne hp', hpage p' hp']

/-- A process changes its pages, its size and what does not concern memory. -/
theorem replace (hlive : (rest.proc p).state ≠ .unused) (hproc : rest'.proc = update rest.proc p pr)
    (howner : rest'.owner = rest.owner) (hupper : rest'.upper = rest.upper)
    (hpt : pr.pagetable = (rest.proc p).pagetable) (hpr : pr.state ≠ .unused)
    (htop : pageCount pr.sz ≤ USER_TOP) (habove : ∀ v, pageCount pr.sz ≤ v → s v = none) :
    Settled rest' (update page (rest.proc p).pagetable s) ∧
      spaces rest' (update page (rest.proc p).pagetable s) =
        update (spaces rest page) p (some ⟨pr.sz, s⟩) := by
  have hne := hS.live p hlive
  have hpt' : ∀ p', (rest'.proc p').pagetable = (rest.proc p').pagetable := by
    rw [hproc]
    exact (forall_update_iff rest.proc fun p' pr => pr.pagetable = (rest.proc p').pagetable).mpr
      ⟨hpt, fun _ _ => rfl⟩
  have hset := hS.set (update page (rest.proc p).pagetable s) hproc
    (fun r p' => by rw [howner, hpt']; exact hS.owner r p') (fun _ _ _ => by rw [hupper])
    (fun p' hp' => update_of_ne (fun heq => hp' (hS.pagetable_inj hne heq)) _ _)
    (fun _ => by rw [hupper, hpt]; exact hS.upper p hne) htop
    (by rwa [hpt, update_self]) (fun hst => absurd hst hpr) fun _ => hpt.trans_ne hne
  rwa [if_neg hpr, hpt, update_self] at hset

lemma of_procs (howner : rest'.owner = rest.owner) (hupper : rest'.upper = rest.upper)
    (hproc : ∀ p, (rest.proc p).SameMemory (rest'.proc p)) :
    Settled rest' page ∧ spaces rest' page = spaces rest page := by
  refine ⟨⟨fun r p => ?_, fun p hp => ?_, fun p => ?_, fun p v hv => ?_, fun p hst => ?_,
    fun p hst => ?_⟩, ?_⟩
  · rw [howner, (hproc p).pagetable]
    exact hS.owner r p
  · rw [hupper, (hproc p).pagetable]
    rw [(hproc p).pagetable] at hp
    exact hS.upper p hp
  · rw [(hproc p).sz]
    exact hS.top p
  · rw [(hproc p).pagetable]
    rw [(hproc p).sz] at hv
    exact hS.above p v hv
  · have hst' := (hproc p).unused_iff.mp hst
    rw [(hproc p).unused hst']
    exact hS.unused p hst'
  · rw [(hproc p).pagetable]
    exact hS.live p fun hc => hst ((hproc p).unused_iff.mpr hc)
  · funext p
    unfold spaces
    rw [(hproc p).pagetable, (hproc p).sz]
    by_cases hst : (rest.proc p).state = .unused
    · rw [if_pos hst, if_pos ((hproc p).unused_iff.mpr hst)]
    · rw [if_neg hst, if_neg fun hc => hst ((hproc p).unused_iff.mp hc)]

lemma add (hunused : (rest.proc np).state = .unused) (hfresh : rest.owner r = none) (hr : r ≠ 0)
    (hproc : rest'.proc = update rest.proc np pr)
    (howner : rest'.owner = update rest.owner r (some np))
    (hupper : rest'.upper = update rest.upper r framedUpper) (hpt : pr.pagetable = r)
    (hpr : pr.state ≠ .unused) (htop : pageCount pr.sz ≤ USER_TOP)
    (habove : ∀ v, pageCount pr.sz ≤ v → s v = none) :
    Settled rest' (update page r s) ∧
      spaces rest' (update page r s) =
        update (spaces rest page) np (some ⟨pr.sz, s⟩) := by
  have hself : rest'.proc np = pr := by rw [hproc, update_self]
  have hother : ∀ p', p' ≠ np → rest'.proc p' = rest.proc p' := by
    intro p' hp'
    rw [hproc, update_of_ne hp']
  have hne : ∀ p', (rest.proc p').pagetable ≠ r := by
    intro p' heq
    rw [(hS.owner r p').mpr ⟨heq, hr⟩] at hfresh
    cases hfresh
  have hset := hS.set (update page r s) hproc (fun r' p' => ?_)
    (fun p' _ _ => by rw [hupper, update_of_ne (hne p')]) (fun p' _ => update_of_ne (hne p') _ _)
    (fun _ => by rw [hupper, hpt, update_self]) htop (by rwa [hpt, update_self])
    (fun hst => absurd hst hpr) fun _ => hpt.trans_ne hr
  · rwa [if_neg hpr, hpt, update_self] at hset
  · rw [howner]
    by_cases hr' : r' = r
    · subst hr'
      rw [update_self]
      by_cases hp' : p' = np
      · rw [hp', hself, hpt]
        simp [hr]
      · rw [hother p' hp']
        exact iff_of_false (fun hc => hp' (Option.some.inj hc).symm) fun hc => hne p' hc.1
    · rw [update_of_ne hr', hS.owner r' p']
      by_cases hp' : p' = np
      · rw [hp', hself, hpt, hS.pagetable_of_unused hunused]
        exact iff_of_false (fun hc => hc.2 hc.1.symm) fun hc => hr' hc.1.symm
      · rw [hother p' hp']

lemma remove (hnull : ∀ v, page 0 v = none) (hproc : rest'.proc = update rest.proc p {})
    (howner : rest'.owner = update rest.owner (rest.proc p).pagetable none)
    (hupper : rest'.upper = update rest.upper (rest.proc p).pagetable fun _ => (false, false)) :
    Settled rest' (update page (rest.proc p).pagetable fun _ => none) ∧
      spaces rest' (update page (rest.proc p).pagetable fun _ => none) =
        update (spaces rest page) p none := by
  have hself : rest'.proc p = {} := by rw [hproc, update_self]
  have hother : ∀ p', p' ≠ p → rest'.proc p' = rest.proc p' := by
    intro p' hp'
    rw [hproc, update_of_ne hp']
  have hne : ∀ p', p' ≠ p → (rest.proc p').pagetable ≠ 0 →
      (rest.proc p').pagetable ≠ (rest.proc p).pagetable := by
    intro p' hp' h0 heq
    exact hp' (hS.pagetable_inj h0 heq.symm).symm
  have hnull' : page 0 = fun _ => none := funext hnull
  refine hS.set _ hproc (fun r' p' => ?_) (fun p' hp' h0 => ?_) (fun p' hp' => ?_)
    (fun h0 => absurd rfl h0) (by decide) (fun v _ => ?_) (fun _ => rfl) fun hst => absurd rfl hst
  · rw [howner]
    by_cases hr' : r' = (rest.proc p).pagetable
    · subst hr'
      rw [update_self]
      refine iff_of_false (by simp) ?_
      rintro ⟨heq, h0⟩
      by_cases hp' : p' = p
      · rw [hp', hself] at heq
        exact h0 heq.symm
      · rw [hother p' hp'] at heq
        exact hne p' hp' (by rw [heq]; exact h0) heq
    · rw [update_of_ne hr', hS.owner r' p']
      by_cases hp' : p' = p
      · rw [hp', hself]
        exact iff_of_false (fun hc => hr' hc.1.symm) fun hc => hc.2 hc.1.symm
      · rw [hother p' hp']
  · rw [hupper, update_of_ne (hne p' hp' h0)]
  · by_cases h0 : (rest.proc p').pagetable = 0
    · rw [h0, update_apply, hnull', ite_self]
    · exact update_of_ne (hne p' hp' h0) _ _
  · change update page _ _ 0 v = none
    rw [update_apply, hnull', ite_self]

/-- A process exchanges its table for the one rooted at `r`. -/
theorem exchange (hnull : ∀ v, page 0 v = none) (hfresh : rest.owner r = none) (hr : r ≠ 0)
    (hproc : rest'.proc = update rest.proc p pr)
    (howner : rest'.owner = update (update rest.owner r (some p)) (rest.proc p).pagetable none)
    (hupper : rest'.upper =
      update (update rest.upper r framedUpper) (rest.proc p).pagetable fun _ => (false, false))
    (hpt : pr.pagetable = r) (hpr : pr.state ≠ .unused) (htop : pageCount pr.sz ≤ USER_TOP)
    (habove : ∀ v, pageCount pr.sz ≤ v → s v = none) :
    let page' := update (update page r s) (rest.proc p).pagetable fun _ => none
    Settled rest' page' ∧
      spaces rest' page' = update (spaces rest page) p (some ⟨pr.sz, s⟩) := by
  have hne : r ≠ (rest.proc p).pagetable := by
    rintro rfl
    rw [(hS.owner _ p).mpr ⟨rfl, hr⟩] at hfresh
    cases hfresh
  -- the process gives its table up and starts again with the new one
  obtain ⟨rest1, hrest1⟩ : ∃ rest1 : Rest, rest1 = { rest with
    proc := update rest.proc p {}
    owner := update rest.owner (rest.proc p).pagetable none
    upper := update rest.upper (rest.proc p).pagetable fun _ => (false, false) } := ⟨_, rfl⟩
  have hproc1 : rest1.proc = update rest.proc p {} := by rw [hrest1]
  have howner1 : rest1.owner = update rest.owner (rest.proc p).pagetable none := by
    rw [hrest1]
  have hupper1 : rest1.upper =
      update rest.upper (rest.proc p).pagetable fun _ => (false, false) := by rw [hrest1]
  obtain ⟨hS1, hsp1⟩ := hS.remove hnull hproc1 howner1 hupper1
  have hproc2 : rest'.proc = update rest1.proc p pr := by
    rw [hproc, hproc1, update_idem]
  have howner2 : rest'.owner = update rest1.owner r (some p) := by
    rw [howner, howner1, update_comm hne]
  have hupper2 : rest'.upper = update rest1.upper r framedUpper := by
    rw [hupper, hupper1, update_comm hne]
  have hadd := hS1.add (by rw [hproc1, update_self])
    (by rw [howner1, update_of_ne hne, hfresh]) hr hproc2 howner2 hupper2 hpt hpr htop habove
  rw [hsp1, update_idem, update_comm hne.symm] at hadd
  exact hadd

end

end Settled

/-- The states between operations, in a machine with the physical pages `m`. -/
structure Idle {σ : Type} (D : SwapDev σ) (m : List ℕ) (k : Kernel σ) : Prop where
  inv : k.core.Inv {}
  settled : Settled k.rest (k.page D)
  managed : k.managed = m

namespace Kernel

/-- The address spaces of the processes, as user code sees them. -/
noncomputable def view {σ : Type} (D : SwapDev σ) (k : Kernel σ) : Unlimited :=
  spaces k.rest (k.page D)

end Kernel

namespace Idle

variable {σ : Type} {D : SwapDev σ} {m : List ℕ} {k k' : Kernel σ} {p : ProcId} {va addr : ℕ}
  {b : Bool}

section

variable (hk : Idle D m k)

include hk

lemma attached : k.Attached := fun p hp =>
  (hk.settled.owner _ p).mpr ⟨rfl, hp⟩

lemma consistent : k.Consistent := ⟨hk.inv, hk.attached⟩

lemma owner (hp : (k.proc p).state ≠ .unused) : k.owner (k.proc p).pagetable = some p :=
  hk.attached p (hk.settled.live p hp)

lemma framed (hp : (k.proc p).state ≠ .unused) : k.Framed (k.proc p).pagetable :=
  framed_of_upper (hk.settled.upper p (hk.settled.live p hp))

lemma top (p : ProcId) : pageCount (k.proc p).sz ≤ USER_TOP := hk.settled.top p

lemma above {v : ℕ} (hv : pageCount (k.proc p).sz ≤ v) : k.page D (k.proc p).pagetable v = none :=
  hk.settled.above p v hv

lemma null (v : ℕ) : k.page D 0 v = none :=
  page_of_unowned (owner_zero hk.inv) v

lemma lt_top {v : ℕ} (hv : v * PGSIZE < (k.proc p).sz) : v < USER_TOP := by
  have htop : pageCount (k.proc p).sz ≤ USER_TOP := hk.top p
  have hlt : v < pageCount (k.proc p).sz := by
    change v * 4096 < _ at hv
    change v < (_ + 4096 - 1) / 4096
    omega
  omega

lemma exists_proc {r : ℕ} (hr : (k.owner r).isSome) :
    ∃ p, k.owner r = some p ∧ (k.proc p).state ≠ .unused ∧ (k.proc p).pagetable = r := by
  obtain ⟨p, hp⟩ := Option.isSome_iff_exists.mp hr
  obtain ⟨htable, hr0⟩ := (hk.settled.owner r p).mp hp
  refine ⟨p, hp, fun hunused => hr0 ?_, htable⟩
  have hempty : k.proc p = {} := hk.settled.unused p hunused
  change (k.proc p).pagetable = r at htable
  rw [← htable, hempty]

lemma userEntry_eq {v : ℕ} (hp : (k.proc p).state ≠ .unused) (hva : v * PGSIZE < MAXVA) :
    k.userEntry p v = k.core.leaf (k.proc p).pagetable v :=
  Kernel.userEntry_eq (by rw [hk.owner hp]; rfl) hva

end

lemma view_eq (hp : (k.proc p).state ≠ .unused) :
    k.view D p = some ⟨(k.proc p).sz, k.page D (k.proc p).pagetable⟩ := if_neg hp

section

variable (hk : Idle D m k)

include hk

/-- The process changes its pages, its size and what does not concern memory. -/
theorem replace {k1 : Kernel σ} {s : Space} (pr : Proc) (hp : (k.proc p).state ≠ .unused)
    (hI : k1.core.Inv {}) (hsame : k.Same k1)
    (hpage : k1.page D = update (k.page D) (k.proc p).pagetable s)
    (hpt : pr.pagetable = (k.proc p).pagetable) (htf : pr.trapframe = (k.proc p).trapframe)
    (hpr : pr.state ≠ .unused) (htop : pageCount pr.sz ≤ USER_TOP)
    (habove : ∀ v, pageCount pr.sz ≤ v → s v = none) :
    Idle D m (k1.setProc p pr) ∧
      (k1.setProc p pr).view D = update (k.view D) p (some ⟨pr.sz, s⟩) := by
  have hproc : (k1.setProc p pr).rest.proc = update k.rest.proc p pr := by
    change update k1.rest.proc p pr = _
    rw [show k1.rest = k.rest from hsame]
  have howner : (k1.setProc p pr).rest.owner = k.rest.owner := hsame.owner
  have hupper : k1.rest.upper = k.rest.upper := congrArg Rest.upper hsame
  have hrep := hk.settled.replace hp hproc howner hupper hpt hpr htop habove
  change Settled _ (update (k.page D) (k.proc p).pagetable s) ∧ _ at hrep
  rw [show (k.rest.proc p).pagetable = (k.proc p).pagetable from rfl, ← hpage] at hrep
  exact ⟨⟨inv_setProc hI (by rw [hsame.proc, htf]), hrep.1, hsame.managed.trans hk.managed⟩,
    hrep.2⟩

/-- An operation that changes at most pages of `p`. -/
theorem of_same (hp : (k.proc p).state ≠ .unused) (hI : k'.core.Inv {}) (hsame : k.Same k')
    {s : Space} (hpage : k'.page D = update (k.page D) (k.proc p).pagetable s)
    (habove : ∀ v, pageCount (k.proc p).sz ≤ v → s v = none) :
    Idle D m k' ∧ k'.view D = update (k.view D) p (some ⟨(k.proc p).sz, s⟩) := by
  have hrep := hk.replace _ hp hI hsame hpage rfl rfl hp (hk.top p) habove
  rw [← hsame.proc] at hrep ⊢
  rwa [setProc, update_eq_self] at hrep

/-- Only the processes, the tables and the pages matter. -/
theorem of_eq (hI : k'.core.Inv {}) (hpage : k'.page D = k.page D)
    (hproc : k'.rest.proc = k.rest.proc) (howner : k'.rest.owner = k.rest.owner)
    (hupper : k'.rest.upper = k.rest.upper) (hmanaged : k'.rest.managed = k.rest.managed) :
    Idle D m k' ∧ k'.view D = k.view D := by
  obtain ⟨hS, hview⟩ := hk.settled.of_procs howner hupper fun p => by
    rw [hproc]
    exact ⟨rfl, rfl, rfl, Iff.rfl, fun _ => rfl⟩
  rw [← hpage] at hS
  unfold Kernel.view
  rw [← hview, ← hpage]
  exact ⟨⟨hI, hS, Eq.trans hmanaged hk.managed⟩, rfl⟩

/-- An operation that changes no abstract page. -/
theorem of_page_eq (hI : k'.core.Inv {}) (hsame : k.Same k') (hpage : k'.page D = k.page D) :
    Idle D m k' ∧ k'.view D = k.view D := by
  have hrest : k'.rest = k.rest := hsame
  exact hk.of_eq hI hpage (by rw [hrest]) (by rw [hrest]) (by rw [hrest]) (by rw [hrest])

/-! ## Faults, loads and stores -/

lemma fault {pa : ℕ} (hp : (k.proc p).state ≠ .unused)
    (hrun : k.vmfault D p (k.proc p).pagetable va = .ok (pa, k')) :
    Idle D m k' ∧ (k.view D).step (.fault p va (pa ≠ 0)) = some (k'.view D) := by
  obtain ⟨hfault, hlt⟩ := vmfault_spec hk.inv hk.attached rfl (hk.owner hp) (hk.framed hp) hrun
  rcases hfault.outcome with ⟨hpa, hpage⟩ | ⟨hpa, -, -, -, -, hpage⟩
  · obtain ⟨hk', hview⟩ := hk.of_page_eq hfault.inv hfault.same hpage
    refine ⟨hk', ?_⟩
    rw [hview]
    simp [Unlimited.step, hpa]
  · rw [setAt_eq_update] at hpage
    have hbelow := lt_pageCount.mpr ((Nat.div_mul_le_self va PGSIZE).trans_lt (hlt hpa))
    obtain ⟨hk', hview⟩ := hk.of_same hp hfault.inv hfault.same hpage fun v hv => by
      rw [update_of_ne (by omega)]
      exact hk.above hv
    refine ⟨hk', ?_⟩
    rw [hview]
    simp [Unlimited.step, Unlimited.modify, hpa, view_eq hp, AddressSpace.fault, hlt hpa]

lemma load {byte : UInt8} (hp : (k.proc p).state ≠ .unused)
    (hrun : k.userLoad p va = some (byte, k')) :
    Idle D m k' ∧ (D.Lawful → (k.view D).step (.load p va byte) = some (k'.view D)) := by
  obtain ⟨hI, hpage, hsame, x, pg, hx, hu, hr, hbytes, hbyte⟩ :=
    userLoad_spec (D := D) hk.inv (hk.owner hp) (hk.framed hp) hrun
  obtain ⟨hk', hview⟩ := hk.of_page_eq hI hsame hpage
  refine ⟨hk', fun hD => ?_⟩
  rw [SwapDev.seen_of_lawful hD, id] at hbytes
  rw [hview]
  simp [Unlimited.step, view_eq hp, AddressSpace.load, hx, hu, hr, hbytes, hbyte]

lemma store {byte : UInt8} (hp : (k.proc p).state ≠ .unused)
    (hrun : k.userStore p va byte = some k') :
    Idle D m k' ∧ (D.Lawful → (k.view D).step (.store p va byte) = some (k'.view D)) := by
  obtain ⟨hI, hsame, hpage, x, hx, hu, hw⟩ :=
    userStore_spec (D := D) hk.inv (hk.owner hp) (hk.framed hp) hrun
  obtain ⟨hk', hview⟩ := hk.of_same hp hI hsame hpage fun v hv =>
    Space.write_eq_none.mpr (hk.above hv)
  refine ⟨hk', fun hD => ?_⟩
  rw [SwapDev.seen_of_lawful hD] at hview
  rw [hview]
  simp [Unlimited.step, Unlimited.modify, view_eq hp, AddressSpace.store, hx, hu, hw]

/-! ## `sbrk` -/

lemma resize {k1 : Kernel σ} {sz : ℕ} {s : Space} (hp : (k.proc p).state ≠ .unused)
    (hI : k1.core.Inv {}) (hsame : k.Same k1)
    (hpage : k1.page D = update (k.page D) (k.proc p).pagetable s) (htop : pageCount sz ≤ USER_TOP)
    (habove : ∀ v, pageCount sz ≤ v → s v = none) :
    let k' := k1.setProc p { k1.proc p with sz := sz }
    Idle D m k' ∧ k'.view D = update (k.view D) p (some ⟨sz, s⟩) := by
  rw [hsame.proc]
  exact hk.replace _ hp hI hsame hpage rfl rfl hp htop habove

lemma growproc {n : ℤ} (hp : (k.proc p).state ≠ .unused) (hrun : k.growproc D p n = .ok (b, k')) :
    Idle D m k' ∧ (k.view D).step (.sbrk p n false b) = some (k'.view D) := by
  have hfail : b = false → k'.view D = k.view D →
      (k.view D).step (.sbrk p n false b) = some (k'.view D) := by
    rintro rfl hview
    rw [hview]
    rfl
  unfold Kernel.growproc at hrun
  dsimp only at hrun
  split_ifs at hrun with hpos htop hneg
  · cases hrun
    exact ⟨hk, hfail rfl rfl⟩
  · -- growing
    obtain ⟨⟨sz, k1⟩, halloc, hrun⟩ := bind_eq_ok.mp hrun
    obtain ⟨hI1, hsame1, hcases⟩ := uvmalloc_spec (D := D) rfl hk.inv hk.attached (hk.owner hp)
      (hk.framed hp) (hk.top p) (fun v hv => hk.above hv) halloc
    rcases hcases with ⟨hsz, hle, hpage, -⟩ | ⟨hsz, hpage⟩
    · dsimp only at hrun
      have hsz' : sz = (k.proc p).sz + n.toNat := by omega
      rw [if_neg (by omega)] at hrun
      cases hrun
      rw [setRange_eq_update] at hpage
      obtain ⟨hk', hview⟩ := hk.resize hp hI1 hsame1 hpage hle fun v hv => by
        rw [hsz'] at hv
        have hmono := pageCount_mono (Nat.le_add_right (k.proc p).sz n.toNat)
        change (if _ ∧ _ then _ else _) = _
        rw [if_neg (by omega)]
        exact hk.above (by omega)
      refine ⟨hk', ?_⟩
      rw [hview, hsz']
      simp [Unlimited.step, Unlimited.modify, view_eq hp, AddressSpace.sbrk, hpos, htop,
        Space.alloc, lazyPerm]
    · dsimp only at hrun
      rw [if_pos hsz] at hrun
      cases hrun
      obtain ⟨hk', hview⟩ := hk.of_page_eq hI1 hsame1 hpage
      exact ⟨hk', hfail rfl hview⟩
  · -- shrinking
    obtain ⟨⟨sz, k1⟩, hdealloc, hrun⟩ := bind_eq_ok.mp hrun
    cases hrun
    obtain ⟨hsz, hI1, hsame1, hpage⟩ := uvmdealloc_spec (D := D) hk.inv
      (by rw [hk.owner hp]; rfl) (hk.top p) hdealloc
    rw [setRange_eq_update] at hpage
    have hle : sz ≤ (k.proc p).sz := by omega
    obtain ⟨hk', hview⟩ := hk.resize hp hI1 hsame1 hpage
      ((pageCount_mono hle).trans (hk.top p)) fun v hv => by
        change (if _ ∧ _ then _ else _) = _
        split_ifs with hin
        · rfl
        · exact hk.above (by omega)
    refine ⟨hk', ?_⟩
    rw [hview, hsz]
    simp [Unlimited.step, Unlimited.modify, view_eq hp, AddressSpace.sbrk, hpos, hneg,
      Space.dealloc]
  · cases hrun
    refine ⟨hk, ?_⟩
    have hsbrk : (fun a : AddressSpace => a.sbrk n false) = some := by
      funext a
      simp [AddressSpace.sbrk, hpos, hneg]
    rw [Unlimited.step, if_pos rfl, hsbrk, Unlimited.modify_eq (view_eq hp) rfl, ← view_eq hp,
      update_eq_self]

lemma sbrk {n : ℤ} {lazy : Bool} (hp : (k.proc p).state ≠ .unused)
    (hrun : k.sysSbrk D p n lazy = .ok (b, k')) :
    Idle D m k' ∧ (k.view D).step (.sbrk p n lazy b) = some (k'.view D) := by
  unfold sysSbrk at hrun
  dsimp only at hrun
  split_ifs at hrun with heager hwrap htop
  · obtain ⟨hk', hstep⟩ := hk.growproc hp hrun
    refine ⟨hk', ?_⟩
    rw [← hstep]
    rcases heager with rfl | hneg
    · rfl
    · have hpos : ¬ 0 < n := by omega
      simp [Unlimited.step, AddressSpace.sbrk, hpos, hneg]
  · cases hrun
    exact ⟨hk, rfl⟩
  · cases hrun
    exact ⟨hk, rfl⟩
  · cases hrun
    simp only [not_or, Bool.not_eq_false] at heager
    have hpage : k.page D = update (k.page D) (k.proc p).pagetable
        (k.page D (k.proc p).pagetable) := (update_eq_self _ _).symm
    obtain ⟨hk', hview⟩ := hk.resize hp hk.inv rfl hpage (pageCount_le_top (Nat.le_of_not_lt htop))
      fun v hv => hk.above ((pageCount_mono (Nat.le_add_right _ _)).trans hv)
    refine ⟨hk', ?_⟩
    rw [hview, Unlimited.step, if_pos rfl]
    refine Unlimited.modify_eq (view_eq hp) ?_
    rcases Int.lt_or_eq_of_le (Int.not_lt.mp heager.2) with hpos | hzero
    · simp [AddressSpace.sbrk, hpos, htop, heager.1]
    · simp [AddressSpace.sbrk, ← hzero]

/-! ## Processes -/

lemma of_procs {proc' : ProcId → Proc} (hproc : ∀ p, (k.proc p).SameMemory (proc' p)) :
    Idle D m { k with proc := proc' } ∧ Kernel.view D { k with proc := proc' } = k.view D := by
  have howner : (Kernel.rest { k with proc := proc' }).owner = k.rest.owner := rfl
  obtain ⟨hS, hview⟩ := hk.settled.of_procs howner rfl hproc
  exact ⟨⟨inv_of_procs hk.inv fun p => (hproc p).trapframe, hS, hk.managed⟩, hview⟩

end

/-- An entry of the process table changes in a way that does not concern memory. -/
theorem sameMemory_update {proc : ProcId → Proc} {pr : Proc} (h : (proc p).SameMemory pr)
    (p' : ProcId) : (proc p').SameMemory (update proc p pr p') := by
  by_cases hp : p' = p
  · rw [hp, update_self]
    exact h
  · rw [update_of_ne hp]
    exact ⟨rfl, rfl, rfl, Iff.rfl, fun _ => rfl⟩

lemma schedule {state : ProcState} (hk : Idle D m k) (level : ℤ)
    (hp : (k.proc p).state ≠ .unused) (hstate : state ≠ .unused) :
    let k' := k.setProc p { k.proc p with state := state, level := level }
    Idle D m k' ∧ k'.view D = k.view D :=
  hk.of_procs (sameMemory_update
    ⟨rfl, rfl, rfl, iff_of_false hstate hp, fun hst => absurd hst hp⟩)

lemma kexit {status : ℤ} (hk : Idle D m k) (hp : (k.proc p).state ≠ .unused)
    (hrun : k.kexit p status = .ok k') : Idle D m k' ∧ k'.view D = k.view D := by
  unfold Kernel.kexit at hrun
  split_ifs at hrun
  cases hrun
  have hreparent : ∀ p', (k.proc p').SameMemory ((k.reparent p).proc p') := by
    intro p'
    unfold reparent
    dsimp only
    split_ifs with hpar
    · refine ⟨rfl, rfl, rfl, Iff.rfl, fun hst => ?_⟩
      rw [show k.proc p' = {} from hk.settled.unused p' hst] at hpar
      cases hpar
    · exact ⟨rfl, rfl, rfl, Iff.rfl, fun _ => rfl⟩
  refine hk.of_procs fun p' => (hreparent p').trans (sameMemory_update ?_ p')
  have hst : ((k.reparent p).proc p).state ≠ .unused := fun hc =>
    hp ((hreparent p).unused_iff.mp hc)
  exact ⟨rfl, rfl, rfl, iff_of_false (by simp) hst, fun hc => absurd hc hst⟩

lemma unused (hk : Idle D m k) (hp : (k.proc p).state = .unused) :
    k.proc p = {} ∧ ∀ r, k.owner r ≠ some p := by
  have hproc : k.proc p = {} := hk.settled.unused p hp
  refine ⟨hproc, fun r hr => ?_⟩
  have hpt : (k.proc p).pagetable = r ∧ r ≠ 0 := (hk.settled.owner r p).mp hr
  rw [hproc] at hpt
  exact hpt.2 hpt.1.symm

lemma view_unused (hp : (k.proc p).state = .unused) : k.view D p = none := if_pos hp

lemma live_of_view {a : AddressSpace} (hp : k.view D p = some a) :
    (k.proc p).state ≠ .unused := by
  intro hunused
  rw [view_unused hunused] at hp
  cases hp

section

variable (hk : Idle D m k)

include hk

lemma freeproc (hrun : k.freeproc p = .ok k') :
    Idle D m k' ∧ k'.view D = update (k.view D) p none := by
  obtain ⟨hI, hpage, hrest⟩ := freeproc_spec (D := D) hk.inv (fun r => hk.settled.owner r p)
    (hk.top p) (fun v hv => hk.above hv) hrun
  have hproc : k'.rest.proc = update k.rest.proc p {} := by
    rw [hrest]
    rfl
  obtain ⟨hS, hview⟩ := hk.settled.remove hk.null hproc (by rw [hrest]; rfl)
    (by rw [hrest, ← dropTable_eq]; rfl)
  rw [dropTable_eq] at hpage
  rw [show (k.rest.proc p).pagetable = (k.proc p).pagetable from rfl, ← hpage] at hS hview
  have hmanaged : k'.rest.managed = k.managed := by
    rw [hrest]
    rfl
  exact ⟨⟨hI, hS, hmanaged.trans hk.managed⟩, hview⟩

lemma release : Idle D m k.release ∧ k.release.view D = k.view D :=
  hk.of_eq hk.inv rfl rfl rfl rfl rfl

lemma acquire : Idle D m k.acquire ∧ k.acquire.view D = k.view D :=
  hk.of_eq hk.inv rfl rfl rfl rfl rfl

/-- `allocproc` gives a new process an empty address space, or changes nothing. -/
theorem allocproc {trampoline : ℕ} {o : Option ProcId}
    (hrun : k.allocproc trampoline = .ok (o, k')) :
    Idle D m k' ∧ ((o = none ∧ k'.view D = k.view D) ∨
      ∃ np, o = some np ∧ (k.proc np).state = .unused ∧ (k'.proc np).state ≠ .unused ∧
        (∀ p, p ≠ np → k'.proc p = k.proc p) ∧ (∀ v, k'.page D (k'.proc np).pagetable v = none) ∧
        k'.view D = update (k.view D) np (some ⟨0, fun _ => none⟩)) := by
  obtain ⟨hI, hpage, hcases⟩ := allocproc_spec (D := D) hk.inv (fun p => hk.unused) hrun
  rcases hcases with ⟨rfl, pid, hrest⟩ | ⟨np, r, tf, rfl, hnp, hfresh, hr, hrest⟩
  · obtain ⟨hk', hview⟩ := hk.of_eq hI hpage (by rw [hrest]) (by rw [hrest]) (by rw [hrest])
      (by rw [hrest])
    exact ⟨hk', .inl ⟨rfl, hview⟩⟩
  · have hproc : k'.rest.proc = update k.rest.proc np (newProc k.nextpid tf r) := by
      rw [hrest]
      rfl
    have hempty : k.page D r = fun _ => none := funext fun v => page_of_unowned hfresh v
    obtain ⟨hS, hview⟩ := hk.settled.add (s := fun _ => none) hnp hfresh hr hproc
      (by rw [hrest]; rfl) (by rw [hrest]; rfl) rfl (by simp [newProc])
      (by change pageCount 0 ≤ USER_TOP; decide) fun _ _ => rfl
    rw [← hempty, update_eq_self] at hS hview
    have hself : k'.proc np = newProc k.nextpid tf r :=
      (congrFun hproc np).trans (update_self _ _ _)
    have hmanaged : k'.rest.managed = k.managed := by
      rw [hrest]
      rfl
    refine ⟨⟨hI, by rw [hpage]; exact hS, hmanaged.trans hk.managed⟩,
      .inr ⟨np, rfl, hnp, ?_, fun p hp => ?_, fun v => ?_, ?_⟩⟩
    · rw [hself]
      simp [newProc]
    · exact (congrFun hproc p).trans (update_of_ne hp _ _)
    · rw [hself, hpage]
      exact page_of_unowned hfresh v
    · rw [← hempty, Kernel.view, hpage]
      exact hview

/-- Copying the memory of `p` for a new process `np`. -/
theorem uvmcopy {np : ProcId} (hp : (k.proc p).state ≠ .unused) (hnp : (k.proc np).state ≠ .unused)
    (hne : p ≠ np) (hempty : ∀ v, k.page D (k.proc np).pagetable v = none)
    (hrun : k.uvmcopy D (k.proc p).pagetable (k.proc np).pagetable (k.proc p).sz np = .ok (b, k')) :
    k'.core.Inv {} ∧ k.Same k' ∧
      ((b = true ∧ k'.page D = update (k.page D) (k.proc np).pagetable
        (k.page D (k.proc p).pagetable)) ∨ (b = false ∧ k'.page D = k.page D)) := by
  have htables : (k.proc p).pagetable ≠ (k.proc np).pagetable := fun heq =>
    hne (hk.settled.pagetable_inj (hk.settled.live np hnp) heq)
  obtain ⟨hI, hsame, hres⟩ := uvmcopy_spec hk.inv hk.attached (by rw [hk.owner hp]; rfl)
    (hk.owner hnp) (hk.framed hnp) htables (hk.top p) (fun v hv => hk.above hv) hempty hrun
  refine ⟨hI, hsame, hres.imp_left fun ⟨hb, hpage⟩ => ⟨hb, ?_⟩⟩
  funext r v
  rw [hpage]
  by_cases hr : r = (k.proc np).pagetable
  · rw [if_pos hr, hr, update_self]
  · rw [if_neg hr, update_of_ne hr]

lemma kfork {trampoline : ℕ} {o : Option ProcId} (hp : (k.proc p).state ≠ .unused)
    (hrun : k.kfork D trampoline p = .ok (o, k')) :
    Idle D m k' ∧ (k.view D).step (.fork p o) = some (k'.view D) := by
  unfold Kernel.kfork at hrun
  obtain ⟨⟨o1, k1⟩, halloc, hrun⟩ := bind_eq_ok.mp hrun
  obtain ⟨hk1, hcases⟩ := hk.allocproc halloc
  rcases hcases with ⟨rfl, hview1⟩ | ⟨np, rfl, hnp, hnp1, hother, hempty, hview1⟩
  · cases hrun
    exact ⟨hk1, congrArg some hview1.symm⟩
  · obtain ⟨⟨copied, k2⟩, hcopy, hrun⟩ := bind_eq_ok.mp hrun
    have hne : p ≠ np := by
      rintro rfl
      exact hp hnp
    have hp1 : k1.proc p = k.proc p := hother p hne
    have hlive1 : (k1.proc p).state ≠ .unused := by rw [hp1]; exact hp
    obtain ⟨hI2, hsame2, hres⟩ := hk1.uvmcopy hlive1 hnp1 hne hempty hcopy
    rcases hres with ⟨rfl, hpage⟩ | ⟨rfl, hpage2⟩
    · injection hrun with hrun
      injection hrun with ho hk'
      subst ho
      obtain ⟨hk3, hview3⟩ := hk1.replace { k1.proc np with
        sz := (k1.proc p).sz, regs := { (k1.proc p).regs with a0 := 0 }, parent := some p,
        state := .runnable } hnp1 hI2 hsame2 hpage rfl rfl (by simp) (hk1.top p)
        (fun v hv => hk1.above hv)
      obtain ⟨hk4, hview4⟩ := hk3.release
      have heq : k' = (k2.setProc np { k1.proc np with
          sz := (k1.proc p).sz, regs := { (k1.proc p).regs with a0 := 0 }, parent := some p,
          state := .runnable }).release := by
        rw [← hk']
        simp [setProc, Kernel.release, hsame2.proc]
      rw [heq]
      refine ⟨hk4, ?_⟩
      rw [hview4, hview3, hview1, update_idem, Unlimited.step,
        if_pos (by rw [view_unused hnp]; rfl), view_eq hp, hp1]
      have hpage1 : k1.view D p = k.view D p := by
        rw [hview1, update_of_ne hne]
      rw [view_eq hp, view_eq hlive1, hp1] at hpage1
      injection hpage1 with hpage1
      rw [← hpage1]
      rfl
    · -- the child is given up
      obtain ⟨k3, hfree, hrun⟩ := bind_eq_ok.mp hrun
      cases hrun
      obtain ⟨hk2, hview2⟩ := hk1.of_page_eq hI2 hsame2 hpage2
      obtain ⟨hk3, hview3⟩ := hk2.freeproc hfree
      obtain ⟨hk4, hview4⟩ := hk3.release
      refine ⟨hk4, congrArg some ?_⟩
      rw [hview4, hview3, hview2, hview1, update_idem]
      exact (update_eq_self_iff.mpr (view_unused hnp).symm).symm

lemma kexec {trampoline : ℕ} {ip : File} {argv : List (List UInt8)}
    (hp : (k.proc p).state ≠ .unused) (hargs : ∀ arg ∈ argv, arg.length < PGSIZE)
    (hrun : k.kexec D trampoline p ip argv = .ok (b, k')) :
    Idle D m k' ∧ (D.Lawful → (k.view D).step (.exec p ip argv b) = some (k'.view D)) := by
  obtain ⟨hI, hcases⟩ := kexec_spec hk.inv hk.attached (hk.owner hp) (hk.top p)
    (fun v hv => hk.above hv) hargs hrun
  rcases hcases with ⟨rfl, hpage, hsame, -⟩ |
    ⟨rfl, a, r, regs, hexec, -, hfresh, hr, htop, habove, hpage, hrest⟩
  · obtain ⟨hk', hview⟩ := hk.of_page_eq hI hsame hpage
    exact ⟨hk', fun _ => congrArg some hview.symm⟩
  · have hproc : k'.rest.proc = update k.rest.proc p
        { k.proc p with pagetable := r, sz := a.sz, regs := regs } := by
      rw [hrest]
      rfl
    obtain ⟨hS, hview⟩ := hk.settled.exchange hk.null hfresh hr hproc (by rw [hrest]; rfl)
      (by rw [hrest, ← dropTable_eq]; rfl) rfl hp htop habove
    rw [dropTable_eq] at hpage
    rw [show (k.rest.proc p).pagetable = (k.proc p).pagetable from rfl, ← hpage] at hS hview
    have hmanaged : k'.rest.managed = k.managed := by
      rw [hrest]
      rfl
    refine ⟨⟨hI, hS, hmanaged.trans hk.managed⟩, fun hD => ?_⟩
    rw [SwapDev.seen_of_lawful hD] at hexec
    rw [Unlimited.step, if_pos rfl, Unlimited.modify_eq (view_eq hp) hexec]
    exact congrArg some hview.symm

/-- An access to the memory of `p` that may have brought pages in. -/
theorem of_touched (hp : (k.proc p).state ≠ .unused)
    (htouch : Touched D k (k.proc p).pagetable (k.proc p).sz k') : Idle D m k' :=
  (hk.of_same hp htouch.inv htouch.same htouch.page
    fun v hv => htouch.above v hv (hk.above hv)).1

lemma copyStatus {bytes : List UInt8} (hp : (k.proc p).state ≠ .unused)
    (hrun : (if addr ≠ 0 then k.copyout D p (k.proc p).pagetable addr bytes else pure (true, k)) =
      .ok (b, k')) :
    Idle D m k' := by
  split_ifs at hrun
  · exact hk.of_touched hp
      (copyout_spec hk.attached rfl (hk.owner hp) (hk.framed hp) hk.inv hrun)
  · cases hrun
    exact hk

lemma kwait {o : Option ℕ} (hp : (k.proc p).state ≠ .unused)
    (hrun : k.kwait D p addr = .ok (o, k')) :
    Idle D m k' ∧ (addr = 0 →
      (k.view D).step (.wait p addr (if o.isSome then k.zombieChild p else none)) =
        some (k'.view D)) := by
  unfold Kernel.kwait at hrun
  split at hrun
  · cases hrun
    exact ⟨hk, fun _ => rfl⟩
  · rename_i pp hfind
    have hzombie : (k.proc pp).state = .zombie := by
      have := List.find?_some hfind
      simp only [decide_eq_true_eq] at this
      exact this.2
    obtain ⟨hk1, hview1⟩ := hk.acquire
    obtain ⟨hk2, hview2⟩ := hk1.acquire
    obtain ⟨⟨copied, k3⟩, hcopy, hrun⟩ := bind_eq_ok.mp hrun
    have hk3 : Idle D m k3 := hk2.copyStatus hp hcopy
    have hview3 : addr = 0 → copied = true ∧ k3.view D = k.view D := by
      intro h0
      rw [if_neg (not_not.mpr h0)] at hcopy
      cases hcopy
      exact ⟨rfl, hview2.trans hview1⟩
    dsimp only at hrun
    split_ifs at hrun with hcopied
    · obtain ⟨k4, hfree, hrun⟩ := bind_eq_ok.mp hrun
      cases hrun
      obtain ⟨hk4, hview4⟩ := hk3.freeproc hfree
      obtain ⟨hk5, hview5⟩ := hk4.release
      obtain ⟨hk6, hview6⟩ := hk5.release
      refine ⟨hk6, fun h0 => ?_⟩
      rw [hview6, hview5, hview4, (hview3 h0).2, Option.isSome_some, if_pos rfl, hfind,
        Unlimited.step, if_pos]
      rw [view_eq (by rw [hzombie]; simp)]
      rfl
    · cases hrun
      obtain ⟨hk5, hview5⟩ := hk3.release
      obtain ⟨hk6, hview6⟩ := hk5.release
      exact ⟨hk6, fun h0 => absurd (hview3 h0).1 hcopied⟩

end

end Idle

end Xv6.VM
