import Xv6.VM.OwnershipBijection
import Xv6.VM.Pressure

/-!
# A copy to or from user memory that interleaves with evictions

`copyout` and `copyin` look up the physical page of a user page, with a fault if it is not resident,
and then `memmove` to or from that page. Nothing keeps the page in its frame in between: a timer
interrupt may yield, and a fault of another process may evict the page and take its frame. Then the
`memmove` is on a page of the other process.

`copy_stale_after_eviction` is a run in which that happens. `copy_uses_live_mapping` says that it
needs an eviction of that very frame: as long as `get_victim` chooses other frames, the entry of the
user page still maps the physical page when the `memmove` executes, and the frame is recorded as
that of the user page.

The copies of `exec` into the image that it builds are left out: the table of the process does not
map the frames of the image yet, so that `get_victim` does not choose them.
-/

namespace Xv6.VM

open Kernel

/-! ## The interleaving -/

/-- What is copied: bytes to the offset `off` of the user page, or `n` bytes from there. -/
inductive Transfer where
  | out (off : ℕ) (src : List UInt8)
  | into (off n : ℕ)

/-- Where the copy is. -/
inductive CopyPhase where
  | before
  /-- The lookup has returned the physical page `pa0`, and the `memmove` is next. -/
  | found (pa0 : ℕ)
  /-- The copy has returned; `dst` has the bytes that were copied in. -/
  | returned (ok : Bool) (dst : List UInt8)
  deriving DecidableEq

/-- The kernel in the middle of a copy. -/
structure Copying (σ : Type) where
  kernel : Kernel σ
  phase : CopyPhase

/-- What may happen. -/
inductive CopyAct where
  | lookup
  | memmove
  /-- A fault of another process. -/
  | fault (q : ProcId) (va : ℕ)
  /-- A decision of the scheduler, about any process. -/
  | schedule (q : ProcId) (state : ProcState) (level : ℤ)

section Steps

variable {σ : Type} (D : SwapDev σ) (trampoline : ℕ) (p : ProcId) (v : ℕ) (t : Transfer)

/-- `copyout` refuses to write to a page without `PTE_W`. -/
def Transfer.Allowed (k : Kernel σ) : Transfer → Prop
  | .out _ _ => (k.userEntry p v).flags.w = true
  | .into _ _ => True

instance (k : Kernel σ) : DecidablePred (Transfer.Allowed p v k)
  | .out _ _ => inferInstanceAs (Decidable (_ = true))
  | .into _ _ => isTrue trivial

/-- The lookup by `p` of its page `v`. -/
def lookupStep (c : Copying σ) : Option (Copying σ) :=
  if c.phase = .before ∧ (c.kernel.proc p).state = .running then
    match c.kernel.userPa D p (c.kernel.proc p).pagetable (v * PGSIZE) with
    | .error _ => none
    | .ok (pa0, k) =>
      if pa0 ≠ 0 ∧ t.Allowed p v k then some { kernel := k, phase := .found pa0 }
      else some { kernel := k, phase := .returned false [] }
  else none

/-- The `memmove`. -/
def memmoveStep (c : Copying σ) : Option (Copying σ) :=
  match c.phase, t with
  | .found pa0, .out off src =>
    some {
      kernel := c.kernel.setMem pa0 ((c.kernel.mem pa0).write off src)
      phase := .returned true [] }
  | .found pa0, .into off n =>
    some { c with phase := .returned true ((c.kernel.mem pa0).read off n) }
  | _, _ => none

/-- One step. -/
def copyStep (c : Copying σ) : CopyAct → Option (Copying σ)
  | .lookup => lookupStep D p v t c
  | .memmove => memmoveStep t c
  | .fault q va =>
    if q ≠ p ∧ (c.kernel.proc q).state = .running then
      (returning (c.kernel.vmfault D q (c.kernel.proc q).pagetable va) fun _ => true).map
        fun k => { c with kernel := k }
    else none
  | .schedule q state level =>
    if (c.kernel.proc q).state.Active ∧ state.Active then
      some { c with
        kernel := c.kernel.setProc q { c.kernel.proc q with state := state, level := level } }
    else none

/-- The copy, by `p` and on its page `v`, interleaved with faults of other processes and with the
scheduler, from any state that the memory operations reach. -/
def copySystem : TransitionSystem (Copying σ) CopyAct where
  init c := (memorySystem D trampoline).Reachable c.kernel ∧ c.phase = .before
  step c act c' := copyStep D p v t c act = some c'

/-- The frame that a fault of `q` at `va` takes from its page, if it has to evict one. -/
def Kernel.faultVictim (k : Kernel σ) (q : ProcId) (va : ℕ) : Option (Fin NUM_FRAMES) :=
  if va < (k.proc q).sz ∧ (k.userEntry q (va / PGSIZE)).flags.v = false ∧ k.NeedsVictim then
    k.acquire.getVictim.toOption.map Prod.fst
  else none

/-- The condition on a step: between the lookup and the `memmove`, no fault evicts the page that was
looked up. -/
def CopySafe (c : Copying σ) : CopyAct → Prop
  | .fault q va => ∀ i ∈ c.kernel.faultVictim q va, c.phase ≠ .found (c.kernel.frametable i).pa
  | .lookup | .memmove | .schedule _ _ _ => True

instance (c : Copying σ) : DecidablePred (CopySafe c)
  | .fault q va => inferInstanceAs (Decidable (∀ i ∈ c.kernel.faultVictim q va, _))
  | .lookup | .memmove | .schedule _ _ _ => isTrue trivial

end Steps

/-! ## Frames and mappings -/

section Safety

variable {σ : Type} {D : SwapDev σ} {trampoline : ℕ} {p q : ProcId} {v va pa pa0 : ℕ}
  {t : Transfer} {m : List ℕ} {k k' : Kernel σ} {i : Fin NUM_FRAMES} {c c' : Copying σ}

/-- What the frame table records is mapped. -/
theorem Idle.maps_of_records (hk : Idle D m k) (hrec : k.Records i p v pa) : k.Maps p v pa := by
  obtain ⟨p', v', pa', hmaps, hrec'⟩ := hk.page_of_frame (i := i) (by rw [hrec.1]; simp)
  obtain rfl : p' = p := Option.some.inj (hrec'.2.1.symm.trans hrec.2.1)
  obtain rfl : v' = v :=
    Nat.eq_of_mul_eq_mul_right (by decide) (hrec'.2.2.1.symm.trans hrec.2.2.1)
  obtain rfl : pa' = pa := hrec'.2.2.2.symm.trans hrec.2.2.2
  exact hmaps

/-- A frame in use that holds a mapped page is recorded as that of the page. -/
theorem Idle.records_of_maps (hk : Idle D m k) (hmaps : k.Maps p v pa)
    (hi : (k.frametable i).inUse ≠ .free) (hpa : (k.frametable i).pa = pa) :
    k.Records i p v pa := by
  obtain ⟨j, hrec, -⟩ := hk.frame_of_page hmaps
  obtain rfl : i = j := hk.pa_inj hi (by rw [hrec.1]; simp) (hpa.trans hrec.2.2.2.symm)
  exact hrec

/-- A fault that does not evict the page in a frame leaves the record of the frame alone. -/
theorem Idle.records_fault (hk : Idle D m k) (hq : (k.proc q).state ≠ .unused)
    (hrun : k.vmfault D q (k.proc q).pagetable va = .ok (pa, k')) (hrec : k.Records i p v pa0)
    (hsafe : ∀ j ∈ k.faultVictim q va, (k.frametable j).pa ≠ pa0) : k'.Records i p v pa0 := by
  rcases vmfault_frame hk.inv hk.attached (hk.owner hq) hrun with hsame | ⟨j, htaken⟩
  · unfold Records
    rw [hsame]
    exact hrec
  · have hne : i ≠ j := by
      rintro rfl
      rcases htaken.choice with hfree | ⟨hneed, k1, hvictim⟩
      · -- the frame of the page is in use
        exact absurd (hrec.1.symm.trans hfree) (by decide)
      · have hlt : va / PGSIZE * PGSIZE < (k.proc q).sz :=
          (Nat.div_mul_le_self va PGSIZE).trans_lt htaken.lt_sz
        have hentry := hk.userEntry_eq hq (mul_pgsize_lt_maxva (hk.lt_top hlt))
        have hv : (k.userEntry q (va / PGSIZE)).flags.v = false := by
          rw [hentry]
          exact htaken.invalid
        refine hsafe i ?_ hrec.2.2.2
        unfold Kernel.faultVictim
        rw [if_pos ⟨htaken.lt_sz, hv, hneed⟩, hvictim]
        rfl
    obtain ⟨huse, hp, hva, hpa⟩ := htaken.other i hne
    exact ⟨huse.trans hrec.1, hp.trans hrec.2.1, hva.trans hrec.2.2.1, hpa.trans hrec.2.2.2⟩

/-! ## Copies that are not interrupted -/

lemma Idle.walk_userPa (hk : Idle D m k) (hp : (k.proc p).state ≠ .unused)
    (hrun : k.userPa D p (k.proc p).pagetable (v * PGSIZE) = .ok (pa0, k')) (hpa0 : pa0 ≠ 0) :
    ∃ pte, k'.walk (k.proc p).pagetable (v * PGSIZE) = .ok (some pte) ∧
      k'.userEntry p v = k'.pte pte := by
  obtain ⟨htouch, hmapped⟩ :=
    userPa_spec hk.attached rfl (hk.owner hp) (hk.framed hp) hk.inv hrun
  obtain ⟨hlt, hv, -⟩ := hmapped hpa0
  have hr : (k'.owner (k.proc p).pagetable).isSome := by
    rw [htouch.same.owner, hk.owner hp]
    rfl
  have hwalk := walk_eq hr (mul_pgsize_lt_maxva hlt)
  rw [mul_pgsize_div] at hwalk
  cases href : k'.core.leafRef (k.proc p).pagetable v with
  | none =>
    rw [Core.leaf_eq_of_none href] at hv
    cases hv
  | some pte =>
    rw [href] at hwalk
    refine ⟨pte, hwalk, ?_⟩
    unfold userEntry
    rw [htouch.same.proc, hwalk]

section Uninterrupted

variable {off : ℕ} {src : List UInt8} (hk : Idle D m k) (hsrc : src ≠ [])
  (hoff : off + src.length ≤ PGSIZE) (hva : v * PGSIZE < MAXVA)
include hk hsrc hoff hva

lemma Idle.copyout_within_page (hp : (k.proc p).state ≠ .unused)
    (hrun : k.userPa D p (k.proc p).pagetable (v * PGSIZE) = .ok (pa0, k')) :
    k.copyout D p (k.proc p).pagetable (v * PGSIZE + off) src = .ok
      (if pa0 ≠ 0 ∧ (k'.userEntry p v).flags.w = true then
        (true, k'.setMem pa0 ((k'.mem pa0).write off src)) else (false, k')) := by
  obtain ⟨n, hn⟩ := Nat.exists_eq_succ_of_ne_zero (mt List.length_eq_zero_iff.mp hsrc)
  have hround : pgrounddown (v * PGSIZE + off) = v * PGSIZE := by
    change (v * 4096 + off) / 4096 * 4096 = v * 4096
    change off + src.length ≤ 4096 at hoff
    omega
  have hlen : src.length ≤ PGSIZE - off := by omega
  rw [copyout, hn]
  unfold copyoutLoop
  dsimp only
  rw [if_neg hsrc, hround, if_neg (Nat.not_le.mpr hva), Nat.add_sub_cancel_left, hrun]
  by_cases hpa0 : pa0 = 0
  · rw [if_neg fun h => h.1 hpa0]
    exact if_pos hpa0
  · obtain ⟨pte, hwalk, hentry⟩ := hk.walk_userPa hp hrun hpa0
    refine (if_neg hpa0).trans ?_
    dsimp only
    rw [hwalk, hentry, List.take_of_length_le hlen, List.drop_of_length_le hlen]
    dsimp only [bind, Except.bind]
    cases hw : (k'.pte pte).flags.w <;> cases n <;> simp [hpa0, copyoutLoop, pure, Except.pure]

/-- Without steps of others in between, the lookup and the `memmove` are `copyout` within a page. -/
theorem copyout_of_steps (hlookup : lookupStep D p v (.out off src) ⟨k, .before⟩ = some c) :
    (c.phase = .returned false [] ∧
      k.copyout D p (k.proc p).pagetable (v * PGSIZE + off) src = .ok (false, c.kernel)) ∨
    ∃ c', memmoveStep (.out off src) c = some c' ∧
      k.copyout D p (k.proc p).pagetable (v * PGSIZE + off) src = .ok (true, c'.kernel) := by
  unfold lookupStep at hlookup
  split_ifs at hlookup with hcond
  have hp : (k.proc p).state ≠ .unused := fun hc => absurd (hc.symm.trans hcond.2) (by decide)
  split at hlookup
  · cases hlookup
  · rename_i pa0 k' hrun
    rw [hk.copyout_within_page hsrc hoff hva hp hrun]
    split_ifs at hlookup with hgood <;> cases hlookup
    · exact .inr ⟨_, rfl, congrArg _ (if_pos hgood)⟩
    · exact .inl ⟨rfl, congrArg _ (if_neg hgood)⟩

end Uninterrupted

/-! ## The invariant of the copy -/

/-- Until the copy has returned, the kernel is consistent, and the frame of the page that was looked
up is recorded as that of the user page. -/
def CopyInv (D : SwapDev σ) (p : ProcId) (v : ℕ) (c : Copying σ) : Prop :=
  match c.phase with
  | .before => Idle D c.kernel.managed c.kernel
  | .found pa0 => Idle D c.kernel.managed c.kernel ∧ ∃ i, c.kernel.Records i p v pa0
  | .returned _ _ => True

lemma CopyInv.idle (h : CopyInv D p v c) (hphase : ∀ ok dst, c.phase ≠ .returned ok dst) :
    Idle D c.kernel.managed c.kernel := by
  unfold CopyInv at h
  split at h
  · exact h
  · exact h.1
  · exact absurd ‹_› (hphase _ _)

lemma copyInv_lookupStep (h : CopyInv D p v c) (hstep : lookupStep D p v t c = some c') :
    CopyInv D p v c' := by
  unfold lookupStep at hstep
  split_ifs at hstep with hcond
  obtain ⟨hphase, hrunning⟩ := hcond
  split at hstep
  · cases hstep
  · rename_i pa0 k' hlookup
    have hk : Idle D c.kernel.managed c.kernel := h.idle (by simp [hphase])
    have hp : (c.kernel.proc p).state ≠ .unused := by simp [hrunning]
    obtain ⟨htouch, hmapped⟩ :=
      userPa_spec hk.attached rfl (hk.owner hp) (hk.framed hp) hk.inv hlookup
    split_ifs at hstep with hgood <;> cases hstep
    · have hk' := hk.of_touched hp htouch
      obtain ⟨hlt, hv, hnum⟩ := hmapped hgood.1
      have hp' : (k'.proc p).state ≠ .unused := by rw [htouch.same.proc]; exact hp
      have htable : (k'.proc p).pagetable = (c.kernel.proc p).pagetable := by
        rw [htouch.same.proc]
      have hentry := hk'.userEntry_eq hp' (mul_pgsize_lt_maxva hlt)
      rw [htable] at hentry
      have hmaps : k'.Maps p v pa0 := by
        refine ⟨hp', hk'.lt_sz_of_valid hlt ?_, ?_, ?_⟩
        · rw [htable]
          exact hv
        · rw [hentry]
          exact hv
        · rw [hentry]
          exact hnum
      obtain ⟨i, hrec, -⟩ := hk'.frame_of_page hmaps
      have hmanaged : k'.managed = c.kernel.managed := htouch.same.managed
      exact ⟨by rw [hmanaged]; exact hk', i, hrec⟩
    · trivial

/-- A step of another process that keeps the kernel consistent and the records of the frame of the
page keeps the invariant. -/
theorem CopyInv.of_records (h : CopyInv D p v c) (hk' : ∀ {m}, Idle D m c.kernel → Idle D m k')
    (hrec : Idle D c.kernel.managed c.kernel → ∀ pa0 i, c.phase = .found pa0 →
      c.kernel.Records i p v pa0 → k'.Records i p v pa0) :
    CopyInv D p v { c with kernel := k' } := by
  have hmanaged : ∀ {m}, Idle D m c.kernel → Idle D k'.managed k' := by
    intro m hk
    rw [(hk' hk).managed]
    exact hk' hk
  obtain ⟨k, phase⟩ := c
  cases phase with
  | before => exact hmanaged h
  | found pa0 =>
    obtain ⟨hk, i, hi⟩ := h
    exact ⟨hmanaged hk, i, hrec hk pa0 i rfl hi⟩
  | returned ok dst => trivial

lemma copyInv_step {act : CopyAct} (h : CopyInv D p v c) (hsafe : CopySafe c act)
    (hstep : copyStep D p v t c act = some c') : CopyInv D p v c' := by
  cases act with
  | lookup => exact copyInv_lookupStep h hstep
  | memmove =>
    change memmoveStep t c = some c' at hstep
    unfold memmoveStep at hstep
    split at hstep <;> cases hstep <;> trivial
  | fault q va =>
    simp only [copyStep] at hstep
    split_ifs at hstep with hcond
    obtain ⟨k', hreturn, rfl⟩ := Option.map_eq_some_iff.mp hstep
    obtain ⟨pa, hrun, -⟩ := returning_eq_some hreturn
    have hq : (c.kernel.proc q).state ≠ .unused := by simp [hcond.2]
    refine h.of_records (fun hk => (hk.fault hq hrun).1) fun hk pa0 i hphase hrec => ?_
    refine hk.records_fault hq hrun hrec fun j hj hpa => hsafe j hj ?_
    rw [hphase, hpa]
  | schedule q state level =>
    simp only [copyStep] at hstep
    split_ifs at hstep with hcond
    cases hstep
    have hne : ∀ {s : ProcState}, s.Active → s ≠ .unused := by
      rintro s (rfl | rfl | rfl) <;> simp
    exact h.of_records (fun hk => (hk.schedule level (hne hcond.1) (hne hcond.2)).1)
      fun _ _ _ _ hrec => hrec

/-- **A copy uses a live mapping unless its page is evicted.** Take any run of a `copyout` or
`copyin` with faults of other processes and decisions of the scheduler in between, in which no fault
evicts the page that the copy has looked up. Whenever the `memmove` is next, the entry of the user
page is valid and maps the physical page that was looked up, and the only frame with that page is
recorded as the one of the user page. -/
theorem copy_uses_live_mapping
    (h : ((copySystem D trampoline p v t).restrict CopySafe).Reachable c)
    (hfound : c.phase = .found pa0) :
    c.kernel.Maps p v pa0 ∧ ∀ i, (c.kernel.frametable i).inUse ≠ .free →
      (c.kernel.frametable i).pa = pa0 → c.kernel.Records i p v pa0 := by
  have hinv : CopyInv D p v c := by
    refine h.invariant (I := CopyInv D p v) ?_ ?_
    · rintro ⟨k, phase⟩ ⟨hreach, rfl⟩
      exact idle_of_reachable hreach
    · rintro c act c' - hI ⟨hsafe, hstep⟩
      exact copyInv_step hI hsafe hstep
  unfold CopyInv at hinv
  rw [hfound] at hinv
  obtain ⟨hk, i, hrec⟩ := hinv
  have hmaps := hk.maps_of_records hrec
  exact ⟨hmaps, fun j hj hpa => hk.records_of_maps hmaps hj hpa⟩

end Safety

/-! ## Runs -/

/-- `init` forks twice; the second child fills all frames, and the first one has a page that it has
not touched yet. -/
def fullRun : List Event :=
  let p0 : ProcId := ⟨0, nproc_pos⟩
  let p1 : ProcId := ⟨1, one_lt_nproc⟩
  let p2 : ProcId := ⟨2, two_lt_nproc⟩
  [.schedule p0 .running 0, .fork p0 (some p1), .fork p0 (some p2), .schedule p2 .running 0,
    .sbrk p2 (64 * 4096) false true, .schedule p1 .running 0, .sbrk p1 4096 true true]

/-- The system in which the second child copies the byte 7 to its page `v`. -/
abbrev fullCopySystem (v : ℕ) : TransitionSystem (Copying (ℕ → Page)) CopyAct :=
  copySystem arrayDev 0x80000 ⟨2, two_lt_nproc⟩ v (.out 0 [7])

/-- A run from the state after `fullRun`, of steps that meet the decidable condition `cond`, that
ends in a state with the decidable property `P`. -/
private theorem fullCopy_reachable (v : ℕ) (cond : Copying (ℕ → Page) → CopyAct → Prop)
    [∀ c, DecidablePred (cond c)] {P : Copying (ℕ → Page) → Prop} [DecidablePred P]
    (acts : List CopyAct)
    (h : ((bootRun arrayDev (fun _ => 0) 0x80000 200 fullRun).bind fun k =>
      acts.foldlM (fun c act => if cond c act then
        copyStep arrayDev ⟨2, by decide⟩ v (.out 0 [7]) c act else none)
        { kernel := k, phase := .before }).any (fun c => decide (P c)) = true) :
    ∃ c, ((fullCopySystem v).restrict cond).Reachable c ∧ P c := by
  obtain ⟨k, hk, hacts⟩ := Option.any_eq_true _ _ |>.mp (Option.any_bind ▸ h)
  obtain ⟨k0, hinit, hrun⟩ := run_of_bootRun hk
  have hstart : ((fullCopySystem v).restrict cond).Reachable { kernel := k, phase := .before } :=
    .init ⟨hrun.reachable (.init hinit), rfl⟩
  exact hstart.exists_of_foldlM (TransitionSystem.restrict_step_of_ite fun _ _ _ => id) hacts

/-- **The page may be evicted under the copy.** The second child looks up its first page; the first
child faults, and the clock hand is on the frame of that page. When the `memmove` executes, the
entry is not valid any more and the frame belongs to the first child, who then finds the byte 7 in
its page. -/
theorem copy_stale_after_eviction :
    (∃ c, (fullCopySystem 0).Reachable c ∧ ∃ pa0, c.phase = .found pa0 ∧
      (c.kernel.userEntry ⟨2, by decide⟩ 0).flags.v = false ∧
      c.kernel.Records 0 ⟨1, by decide⟩ 0 pa0) ∧
    ∃ c, (fullCopySystem 0).Reachable c ∧ c.phase = .returned true [] ∧
      (c.kernel.userPage arrayDev ⟨1, by decide⟩ 0).bytes ⟨0, by decide⟩ = 7 := by
  constructor
  · have heval : ∃ c, ((fullCopySystem 0).restrict fun _ _ => True).Reachable c ∧
        c.phase = .found (c.kernel.frametable 0).pa ∧
        (c.kernel.userEntry ⟨2, by decide⟩ 0).flags.v = false ∧
        (c.kernel.frametable 0).inUse = .used ∧ (c.kernel.frametable 0).p = some ⟨1, by decide⟩ ∧
        (c.kernel.frametable 0).va = 0 :=
      fullCopy_reachable 0 _ [.lookup, .fault ⟨1, by decide⟩ 0] (by decide +kernel)
    obtain ⟨c, hc, hphase, hv, huse, hp, hva⟩ := heval
    exact ⟨c, hc.of_restrict, _, hphase, hv, huse, hp, by rw [hva, Nat.zero_mul], rfl⟩
  · have heval : ∃ c, ((fullCopySystem 0).restrict fun _ _ => True).Reachable c ∧
        c.phase = .returned true [] ∧
        (c.kernel.userPage arrayDev ⟨1, by decide⟩ 0).bytes ⟨0, by decide⟩ = 7 :=
      fullCopy_reachable 0 _ [.lookup, .fault ⟨1, by decide⟩ 0, .memmove] (by decide +kernel)
    obtain ⟨c, hc, hphase, hbyte⟩ := heval
    exact ⟨c, hc.of_restrict, hphase, hbyte⟩

/-- If the second child copies to its second page, the fault evicts another page, and the mapping is
live. -/
theorem copy_uses_live_mapping_second : ∃ c pa0,
    ((fullCopySystem 1).restrict CopySafe).Reachable c ∧ c.phase = .found pa0 ∧
      (c.kernel.frametable 0).p = some ⟨1, by decide⟩ ∧ c.kernel.Maps ⟨2, by decide⟩ 1 pa0 := by
  have heval : ∃ c, ((fullCopySystem 1).restrict CopySafe).Reachable c ∧
      c.phase = .found (c.kernel.frametable 1).pa ∧
      (c.kernel.frametable 0).p = some ⟨1, by decide⟩ :=
    fullCopy_reachable 1 _ [.lookup, .fault ⟨1, by decide⟩ 0] (by decide +kernel)
  obtain ⟨c, hc, hphase, hp⟩ := heval
  exact ⟨c, _, hc, hphase, hp, (copy_uses_live_mapping hc hphase).1⟩

end Xv6.VM
