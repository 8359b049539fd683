import Xv6.VM.Idle

/-!
# The memory system

`memorySystem` is the transition system of the memory operations, each run to completion: page
faults, loads and stores, `sbrk`, `fork`, `exec`, `exit` and `wait`, and the decisions of the
scheduler, on which the choice of a victim depends. Every step keeps the invariant `Idle` and, on a
device that keeps its pages, does to the address spaces what the machine with unlimited memory does
(`Idle.step`).

`Kernel.perform` executes an event. With it and the device `arrayDev` concrete runs can be
evaluated.
-/

namespace Xv6.VM

open Fallible Kernel

/-! ## The transition system -/

/-- The state when `main` calls `userinit`: the free list has been made, and no frame, slot, process
or table is in use. -/
structure Booted {σ : Type} (k : Kernel σ) : Prop where
  frametable : ∀ i, k.frametable i = {}
  swaptable : ∀ j, (k.swaptable j).inUse = false
  freelist : k.freelist.Nodup
  null : 0 ∉ k.freelist
  managed : k.managed = k.freelist
  proc : ∀ p, k.proc p = {}
  owner : ∀ r, k.owner r = none
  noff : k.noff = 0

section Boot

variable {σ : Type} {D : SwapDev σ} {k k' : Kernel σ}

lemma Booted.inv (hk : Booted k) : k.core.Inv {} := by
  have hdir1 : ∀ r i, k.core.dir1 r i = none := fun r i => if_neg (by simp [core, hk.owner])
  have hdir0 : ∀ r j, k.core.dir0 r j = none := fun r j => by simp [Core.dir0, hdir1]
  have hleaf : ∀ r v, k.core.leaf r v = {} := fun r v => Core.leaf_of_dir1_none (hdir1 r) v
  have huse : ∀ pg u, k.core.PageUses none pg u → u = .free ∧ pg ∈ k.freelist := by
    intro pg u hu
    cases u with
    | free => exact ⟨rfl, hu⟩
    | held => cases hu
    | frame i =>
      change (k.frametable i).inUse ≠ .free ∧ _ at hu
      rw [hk.frametable i] at hu
      exact absurd rfl hu.1
    | root =>
      change (k.owner pg).isSome = true at hu
      simp [hk.owner] at hu
    | dir1 r i =>
      change k.core.dir1 r i = some pg at hu
      simp [hdir1] at hu
    | dir0 r j =>
      change k.core.dir0 r j = some pg at hu
      simp [hdir0] at hu
    | trapframe p =>
      change (k.proc p).trapframe = pg ∧ pg ≠ 0 at hu
      rw [hk.proc p] at hu
      exact absurd hu.1.symm hu.2
  refine ⟨⟨fun pg u u' hu hu' => by rw [(huse pg u hu).1, (huse pg u' hu').1],
    fun u hu => hk.null (huse 0 u hu).2, hk.freelist, fun pg => ?_, ⟨?_, ?_⟩⟩,
    ⟨⟨?_, ?_, by simp, by simp, ?_⟩, ?_, ?_, ?_, ?_⟩,
    ⟨⟨?_, ?_, by simp, by simp, ?_⟩, ?_, ?_⟩, fun r v _ _ => hleaf r v⟩
  · change pg ∈ k.managed ↔ _
    rw [hk.managed]
    refine ⟨fun hpg => ⟨.free, hpg⟩, ?_⟩
    rintro ⟨u, hu⟩
    exact (huse pg u hu).2
  · intro r i hr
    change (k.owner r).isSome = true at hr
    simp [hk.owner] at hr
  · intro r i l1 b hl
    simp [hdir1] at hl
  · exact fun a i h => h.2.2.2
  · rintro a b i ⟨-, hv, -⟩
    simp [hleaf] at hv
  · exact fun i hi => absurd (by simp [core, hk.frametable]) hi
  · exact fun i hi => by simp [core, hk.frametable] at hi
  · rintro a i ⟨-, hv, -⟩
    simp [hleaf] at hv
  · exact fun r v _ hv => by simp [hleaf] at hv
  · exact fun i _ => by simp [core, hk.frametable]
  · rintro a j ⟨hs, -⟩
    simp [hleaf] at hs
  · rintro a b j ⟨hs, -⟩
    simp [hleaf] at hs
  · exact fun j hj => by simp [core, hk.swaptable] at hj
  · rintro a j ⟨hs, -⟩
    simp [hleaf] at hs
  · rintro a j ⟨hs, -⟩
    simp [hleaf] at hs

lemma Booted.idle (hk : Booted k) : Idle D k.managed k := by
  have hproc : ∀ p, k.rest.proc p = {} := hk.proc
  have hpage : ∀ r v, k.page D r v = none := fun r v => page_of_unowned (hk.owner r) v
  refine ⟨hk.inv, ⟨fun r p => ?_, fun p hp => ?_, fun p => ?_, fun p v _ => hpage _ v,
    fun p _ => hproc p, fun p hp => ?_⟩, rfl⟩
  · change k.owner r = some p ↔ _
    rw [hk.owner, hproc]
    exact iff_of_false (by simp) fun hc => hc.2 hc.1.symm
  · rw [hproc] at hp
    exact absurd rfl hp
  · rw [hproc]
    change pageCount 0 ≤ USER_TOP
    decide
  · rw [hproc] at hp
    exact absurd rfl hp

/-- `userinit` makes the first process, with an empty address space. -/
theorem Booted.userinit {trampoline : ℕ} (hk : Booted k)
    (hrun : k.userinit trampoline = .ok k') :
    Idle D k.managed k' ∧ ∃ p, k'.initproc = some p ∧ k'.view D = .boot p := by
  unfold Kernel.userinit at hrun
  obtain ⟨⟨o, k1⟩, halloc, hrun⟩ := bind_eq_ok.mp hrun
  obtain ⟨hk1, hcases⟩ := hk.idle (D := D) |>.allocproc halloc
  rcases hcases with ⟨rfl, -⟩ | ⟨p, rfl, -, hp, -, -, hview1⟩
  · cases hrun
  · cases hrun
    have hI2 : (Kernel.core { k1 with initproc := some p }).Inv {} := hk1.inv
    obtain ⟨hk2, hview2⟩ := hk1.of_eq hI2 rfl rfl rfl rfl rfl
    have hsame : (k1.proc p).SameMemory { k1.proc p with state := .runnable } :=
      ⟨rfl, rfl, rfl, iff_of_false (by simp) hp, fun hc => absurd hc hp⟩
    obtain ⟨hk3, hview3⟩ := hk2.of_procs (Idle.sameMemory_update hsame)
    obtain ⟨hk4, hview4⟩ := hk3.release
    refine ⟨hk4, p, rfl, ?_⟩
    have hempty : k.view D = fun _ => none := funext fun q =>
      Idle.view_unused (by rw [hk.proc q])
    exact hview4.trans (hview3.trans (hview2.trans (hview1.trans (by rw [hempty]; rfl))))

end Boot

namespace Kernel

variable {σ : Type}

/-- The kernel executes the event `e`. The arguments of `exec` are strings that `sys_exec` has
fetched into pages. -/
def Step (D : SwapDev σ) (trampoline : ℕ) (k : Kernel σ) (e : Event) (k' : Kernel σ) : Prop :=
  match e with
  | .fault p va ok => (k.proc p).state = .running ∧
      ∃ pa, k.vmfault D p (k.proc p).pagetable va = .ok (pa, k') ∧ ok = decide (pa ≠ 0)
  | .load p va byte => (k.proc p).state = .running ∧ k.userLoad p va = some (byte, k')
  | .store p va byte => (k.proc p).state = .running ∧ k.userStore p va byte = some k'
  | .sbrk p n lazy ok => (k.proc p).state = .running ∧ k.sysSbrk D p n lazy = .ok (ok, k')
  | .fork p child => (k.proc p).state = .running ∧ k.kfork D trampoline p = .ok (child, k')
  | .exec p ip argv ok => (k.proc p).state = .running ∧ (∀ arg ∈ argv, arg.length < PGSIZE) ∧
      k.kexec D trampoline p ip argv = .ok (ok, k')
  | .exit p status => (k.proc p).state = .running ∧ k.kexit p status = .ok k'
  | .wait p addr child => (k.proc p).state = .running ∧ ∃ pid,
      k.kwait D p addr = .ok (pid, k') ∧ child = if pid.isSome then k.zombieChild p else none
  | .schedule p state level => (k.proc p).state.Active ∧ state.Active ∧
      k' = k.setProc p { k.proc p with state := state, level := level }

end Kernel

/-- The memory operations, each run to completion. -/
def memorySystem {σ : Type} (D : SwapDev σ) (trampoline : ℕ) :
    TransitionSystem (Kernel σ) Event where
  init k := ∃ k0, Booted k0 ∧ k0.userinit trampoline = .ok k
  step k e k' := k.Step D trampoline e k'

/-- `wait` does not ask for the exit status. -/
def Event.NoStatus : Event → Prop
  | .wait _ addr _ => addr = 0
  | _ => True

section Step

variable {σ : Type} {D : SwapDev σ} {m : List ℕ} {k k' : Kernel σ} {trampoline : ℕ} {e : Event}

/-- Every operation leads from an idle state to an idle state. On a device that keeps its pages it
does what the machine with unlimited memory does. -/
theorem Idle.step (hk : Idle D m k) (hstep : k.Step D trampoline e k') :
    Idle D m k' ∧ (D.Lawful → e.NoStatus → (k.view D).step e = some (k'.view D)) := by
  cases e with
  | fault p va ok =>
    obtain ⟨hp, pa, hrun, rfl⟩ := hstep
    obtain ⟨hk', hview⟩ := hk.fault (ne_unused hp) hrun
    exact ⟨hk', fun _ _ => hview⟩
  | load p va byte =>
    obtain ⟨hk', hview⟩ := hk.load (ne_unused hstep.1) hstep.2
    exact ⟨hk', fun hD _ => hview hD⟩
  | store p va byte =>
    obtain ⟨hk', hview⟩ := hk.store (ne_unused hstep.1) hstep.2
    exact ⟨hk', fun hD _ => hview hD⟩
  | sbrk p n lazy ok =>
    obtain ⟨hk', hview⟩ := hk.sbrk (ne_unused hstep.1) hstep.2
    exact ⟨hk', fun _ _ => hview⟩
  | fork p child =>
    obtain ⟨hk', hview⟩ := hk.kfork (ne_unused hstep.1) hstep.2
    exact ⟨hk', fun _ _ => hview⟩
  | exec p ip argv ok =>
    obtain ⟨hk', hview⟩ := hk.kexec (ne_unused hstep.1) hstep.2.1 hstep.2.2
    exact ⟨hk', fun hD _ => hview hD⟩
  | exit p status =>
    obtain ⟨hk', hview⟩ := hk.kexit (ne_unused hstep.1) hstep.2
    exact ⟨hk', fun _ _ => congrArg some hview.symm⟩
  | wait p addr child =>
    obtain ⟨hp, pid, hrun, rfl⟩ := hstep
    obtain ⟨hk', hview⟩ := hk.kwait (ne_unused hp) hrun
    exact ⟨hk', fun _ haddr => hview haddr⟩
  | schedule p state level =>
    obtain ⟨hp, hstate, rfl⟩ := hstep
    have hne : ∀ {s : ProcState}, s.Active → s ≠ .unused := by
      rintro s (rfl | rfl | rfl) <;> simp
    obtain ⟨hk', hview⟩ := hk.schedule level (hne hp) (hne hstate)
    exact ⟨hk', fun _ _ => congrArg some hview.symm⟩

lemma idle_of_reachable (hk : (memorySystem D trampoline).Reachable k) :
    Idle D k.managed k := by
  refine hk.invariant (I := fun k => Idle D k.managed k) ?_ ?_
  · rintro k ⟨k0, hk0, hrun⟩
    obtain ⟨hidle, -⟩ := hk0.userinit (D := D) hrun
    rw [hidle.managed]
    exact hidle
  · intro k e k' _ hk hstep
    obtain ⟨hidle, -⟩ := hk.step hstep
    rw [hidle.managed]
    exact hidle

lemma idle_of_run {es : List Event} (hk : Idle D m k)
    (hrun : (memorySystem D trampoline).Run k es k') : Idle D m k' := by
  induction hrun with
  | nil => exact hk
  | snoc _ hstep ih => exact (ih.step hstep).1

end Step

/-! ## Executing runs -/

namespace Kernel

variable {σ : Type} {D : SwapDev σ} {trampoline : ℕ} {k k' : Kernel σ}

/-- The state after a call that returned a `good` result. -/
def returning {α : Type} (r : Except String (α × Kernel σ)) (good : α → Bool) :
    Option (Kernel σ) :=
  match r with
  | .ok (a, k) => if good a then some k else none
  | .error _ => none

lemma returning_eq_some {α : Type} {r : Except String (α × Kernel σ)} {good : α → Bool}
    (h : returning r good = some k') : ∃ a, r = .ok (a, k') ∧ good a = true := by
  unfold returning at h
  split at h
  · rename_i a k1
    split_ifs at h with ha
    cases h
    exact ⟨a, rfl, ha⟩
  · cases h

/-- Only a running process makes system calls. -/
def whenRunning (k : Kernel σ) (p : ProcId) (o : Option (Kernel σ)) : Option (Kernel σ) :=
  if (k.proc p).state = .running then o else none

lemma whenRunning_eq_some {p : ProcId} {o : Option (Kernel σ)}
    (h : k.whenRunning p o = some k') : (k.proc p).state = .running ∧ o = some k' := by
  unfold whenRunning at h
  split_ifs at h with hp
  exact ⟨hp, h⟩

/-- Execute an event, if it can happen with this outcome. -/
def perform (D : SwapDev σ) (trampoline : ℕ) (k : Kernel σ) : Event → Option (Kernel σ)
  | .fault p va ok => k.whenRunning p <|
      returning (k.vmfault D p (k.proc p).pagetable va) fun pa => ok = decide (pa ≠ 0)
  | .load p va byte => k.whenRunning p <|
      (k.userLoad p va).bind fun x => if x.1 = byte then some x.2 else none
  | .store p va byte => k.whenRunning p <| k.userStore p va byte
  | .sbrk p n lazy ok => k.whenRunning p <| returning (k.sysSbrk D p n lazy) (· = ok)
  | .fork p child => k.whenRunning p <| returning (k.kfork D trampoline p) (· = child)
  | .exec p ip argv ok => k.whenRunning p <|
      if ∀ arg ∈ argv, arg.length < PGSIZE then
        returning (k.kexec D trampoline p ip argv) (· = ok)
      else none
  | .exit p status => k.whenRunning p (k.kexit p status).toOption
  | .wait p addr child => k.whenRunning p <| returning (k.kwait D p addr) fun pid =>
      child = if pid.isSome then k.zombieChild p else none
  | .schedule p state level =>
      if (k.proc p).state.Active ∧ state.Active then
        some (k.setProc p { k.proc p with state := state, level := level })
      else none

lemma step_of_perform {e : Event} (h : k.perform D trampoline e = some k') :
    k.Step D trampoline e k' := by
  cases e with
  | fault p va ok =>
    obtain ⟨hp, h⟩ := whenRunning_eq_some h
    obtain ⟨pa, hrun, hok⟩ := returning_eq_some h
    exact ⟨hp, pa, hrun, of_decide_eq_true hok⟩
  | load p va byte =>
    obtain ⟨hp, h⟩ := whenRunning_eq_some h
    obtain ⟨⟨b, k1⟩, hload, h⟩ := Option.bind_eq_some_iff.mp h
    dsimp only at h
    split_ifs at h with hb
    cases h
    exact ⟨hp, by rw [hload, hb]⟩
  | store p va byte => exact whenRunning_eq_some h
  | sbrk p n lazy ok =>
    obtain ⟨hp, h⟩ := whenRunning_eq_some h
    obtain ⟨b, hrun, hb⟩ := returning_eq_some h
    rw [of_decide_eq_true hb] at hrun
    exact ⟨hp, hrun⟩
  | fork p child =>
    obtain ⟨hp, h⟩ := whenRunning_eq_some h
    obtain ⟨o, hrun, ho⟩ := returning_eq_some h
    rw [of_decide_eq_true ho] at hrun
    exact ⟨hp, hrun⟩
  | exec p ip argv ok =>
    obtain ⟨hp, h⟩ := whenRunning_eq_some h
    split_ifs at h with hargs
    obtain ⟨b, hrun, hb⟩ := returning_eq_some h
    rw [of_decide_eq_true hb] at hrun
    exact ⟨hp, hargs, hrun⟩
  | exit p status =>
    obtain ⟨hp, h⟩ := whenRunning_eq_some h
    exact ⟨hp, toOption_eq_some.mp h⟩
  | wait p addr child =>
    obtain ⟨hp, h⟩ := whenRunning_eq_some h
    obtain ⟨pid, hrun, hpid⟩ := returning_eq_some h
    exact ⟨hp, pid, hrun, of_decide_eq_true hpid⟩
  | schedule p state level =>
    rw [perform] at h
    split_ifs at h with hactive
    cases h
    exact ⟨hactive.1, hactive.2, rfl⟩

/-- Events that can be executed one after the other are a run. -/
theorem run_of_perform {es : List Event}
    (h : es.foldlM (Kernel.perform D trampoline) k = some k') :
    (memorySystem D trampoline).Run k es k' :=
  .of_foldlM (fun _ _ _ => step_of_perform) h

end Kernel

/-- A swap device that is an array of pages. -/
def arrayDev : SwapDev (ℕ → Page) where
  write _ slot pg s := .ok (Function.update s slot pg)
  read _ slot _ s := .ok (s slot, s)
  stored s := s

lemma arrayDev_lawful : arrayDev.Lawful where
  write_stored _ h := by
    cases h
    rfl
  read_eq _ h := by
    cases h
    exact ⟨rfl, rfl⟩

/-- The kernel after boot with `n` free pages. -/
def bootState {σ : Type} (dev : σ) (n : ℕ) : Kernel σ where
  frametable _ := {}
  clockHand := 0
  swaptable _ := {}
  freelist := (List.range n).map (0x80100 + ·)
  managed := (List.range n).map (0x80100 + ·)
  kernelEnd := 0x80100
  mem _ := 0
  ptes _ _ := {}
  proc _ := {}
  stats _ := {}
  nextpid := 1
  initproc := none
  owner _ := none
  noff := 0
  dev := dev

lemma booted_bootState {σ : Type} (dev : σ) (n : ℕ) : Booted (bootState dev n) where
  frametable _ := rfl
  swaptable _ := rfl
  freelist := List.nodup_range.map fun _ _ h => Nat.add_left_cancel h
  null := by simp [bootState]
  managed := rfl
  proc _ := rfl
  owner _ := rfl
  noff := rfl

/-- Boot with `n` free pages and execute events. -/
def bootRun {σ : Type} (D : SwapDev σ) (dev : σ) (trampoline n : ℕ) (es : List Event) :
    Option (Kernel σ) :=
  (Kernel.userinit trampoline (bootState dev n)).toOption.bind fun k =>
    es.foldlM (Kernel.perform D trampoline) k

lemma run_of_bootRun {σ : Type} {D : SwapDev σ} {dev : σ} {trampoline n : ℕ} {es : List Event}
    {k : Kernel σ} (h : bootRun D dev trampoline n es = some k) :
    ∃ k0, (memorySystem D trampoline).init k0 ∧ (memorySystem D trampoline).Run k0 es k := by
  obtain ⟨k0, hinit, hrun⟩ := Option.bind_eq_some_iff.mp h
  exact ⟨k0, ⟨bootState dev n, booted_bootState dev n, toOption_eq_some.mp hinit⟩,
    run_of_perform hrun⟩

/-- Two children of `init`, the second of which fills all frames, stores a byte, has the page
evicted by a fault on a lazily allocated page, and brings it back. -/
def swappingRun : List Event :=
  let p0 : ProcId := ⟨0, nproc_pos⟩
  let p1 : ProcId := ⟨1, one_lt_nproc⟩
  let p2 : ProcId := ⟨2, two_lt_nproc⟩
  [.schedule p0 .running 0, .fork p0 (some p1), .fork p0 (some p2), .schedule p2 .running 0,
    .sbrk p2 (64 * 4096) false true, .store p2 5 7, .sbrk p2 4096 true true,
    .fault p2 (64 * 4096) true, .fault p2 5 true, .load p2 5 7]

lemma exists_swappingRun : ∃ k0 k, (memorySystem arrayDev 0x80000).init k0 ∧
    (memorySystem arrayDev 0x80000).Run k0 swappingRun k := by
  have heval : (bootRun arrayDev (fun _ => 0) 0x80000 200 swappingRun).isSome = true := by
    decide +kernel
  obtain ⟨k, hk⟩ := Option.isSome_iff_exists.mp heval
  obtain ⟨k0, hinit, hrun⟩ := run_of_bootRun hk
  exact ⟨k0, k, hinit, hrun⟩

end Xv6.VM
