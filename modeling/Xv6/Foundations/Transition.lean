import Mathlib

/-!
# Labelled transition systems

A `TransitionSystem` has initial states and labelled steps. `TransitionSystem.Reachable` is the set
of states of its runs, and `TransitionSystem.restrict` keeps only the steps that meet a condition on
the label and the state before the step. A statement "in every run whose steps all meet the
condition" is a statement about the reachable states of the restricted system.

## Main results

* `TransitionSystem.Reachable.invariant`: what holds initially and is kept by every step from a
  reachable state holds in every reachable state.
* `TransitionSystem.Reachable.of_restrict`: a run of a restricted system is a run of the system.
* `TransitionSystem.Run.foldlM_eq`: what a run does to a view of the state is computed by a function
  on views, if that is so of every step.
* `TransitionSystem.Trace.invariant`: the invariant rule for statements about a state and the steps
  that led to it.
-/

/-- A labelled transition system. -/
structure TransitionSystem (σ ι : Type*) where
  /-- The initial states. -/
  init : σ → Prop
  /-- `step s l s'`: the step labelled `l` leads from `s` to `s'`. -/
  step : σ → ι → σ → Prop

namespace TransitionSystem

open List Option

variable {σ τ ι κ : Type*} {S : TransitionSystem σ ι}

/-- The states of the runs of a system. -/
inductive Reachable (S : TransitionSystem σ ι) : σ → Prop
  /-- Initial states are reachable. -/
  | init {s : σ} : S.init s → Reachable S s
  /-- Steps lead from reachable states to reachable states. -/
  | step {s s' : σ} {l : ι} : Reachable S s → S.step s l s' → Reachable S s'

/-- The system that takes only the steps meeting `cond`. -/
def restrict (S : TransitionSystem σ ι) (cond : σ → ι → Prop) : TransitionSystem σ ι where
  init := S.init
  step s l s' := cond s l ∧ S.step s l s'

namespace Reachable

/-- The invariant rule. The step hypothesis may use that the state before is reachable. -/
theorem invariant {I : σ → Prop} (hinit : ∀ s, S.init s → I s)
    (hstep : ∀ s l s', S.Reachable s → I s → S.step s l s' → I s') {s : σ}
    (h : S.Reachable s) : I s := by
  induction h with
  | init hs => exact hinit _ hs
  | step hr hs ih => exact hstep _ _ _ hr ih hs

/-- Restricting the steps reaches no new states. -/
theorem of_restrict {cond : σ → ι → Prop} {s : σ} (h : (S.restrict cond).Reachable s) :
    S.Reachable s := by
  induction h with
  | init hs => exact .init hs
  | step _ hs ih => exact .step ih hs.2

end Reachable

/-! ## Runs and views -/

/-- `Run S s ls s'`: the steps labelled `ls` lead from `s` to `s'`. -/
inductive Run (S : TransitionSystem σ ι) : σ → List ι → σ → Prop
  /-- The empty run. -/
  | nil (s : σ) : Run S s [] s
  /-- A run followed by one more step. -/
  | snoc {s s' s'' : σ} {ls : List ι} {l : ι} : Run S s ls s' → S.step s' l s'' →
      Run S s (ls ++ [l]) s''

namespace Run

variable {s s' : σ} {ls : List ι}

/-- A run from a reachable state ends in a reachable state. -/
theorem reachable (h : S.Run s ls s') (hs : S.Reachable s) : S.Reachable s' := by
  induction h with
  | nil => exact hs
  | snoc _ hstep ih => exact .step ih hstep

/-- If every step whose label meets `cond` changes the view `f` as `g` says, a run of such steps
does. -/
theorem foldlM_eq {α : Type*} {f : σ → α} {g : α → ι → Option α} {cond : ι → Prop}
    (hstep : ∀ s l s', S.Reachable s → cond l → S.step s l s' → g (f s) l = some (f s'))
    (h : S.Run s ls s') (hs : S.Reachable s) (hls : ∀ l ∈ ls, cond l) :
    ls.foldlM g (f s) = some (f s') := by
  induction h with
  | nil => rfl
  | snoc hrun hlast ih =>
    have hprefix := ih fun l hl => hls l (mem_append_left _ hl)
    rw [foldlM_append, hprefix]
    change List.foldlM g (f _) [_] = _
    rw [foldlM_cons, hstep _ _ _ (hrun.reachable hs) (hls _ (by simp)) hlast]
    rfl

/-- A function that executes steps yields runs. -/
theorem of_foldlM {g : σ → ι → Option σ} (hg : ∀ s l s', g s l = some s' → S.step s l s')
    (h : ls.foldlM g s = some s') : S.Run s ls s' := by
  induction ls using List.reverseRecOn generalizing s' with
  | nil =>
    cases h
    exact .nil s
  | append_singleton ls l ih =>
    rw [foldlM_append] at h
    obtain ⟨s1, hprefix, hlast⟩ := bind_eq_some_iff.mp h
    rw [foldlM_cons] at hlast
    obtain ⟨s2, hstep, hnil⟩ := bind_eq_some_iff.mp hlast
    cases hnil
    exact .snoc (ih hprefix) (hg _ _ _ hstep)

end Run

section Executed

/-- A run that is executed, and what is computed of its last state. The function `g` that executes
steps may know them by other names than their labels. -/
theorem Reachable.exists_of_foldlM {g : σ → κ → Option σ} {f : κ → ι} {P : σ → Prop}
    [DecidablePred P] {s : σ} {ks : List κ} (hs : S.Reachable s)
    (hg : ∀ s k s', g s k = some s' → S.step s (f k) s')
    (h : (ks.foldlM g s).any (fun s => decide (P s)) = true) : ∃ s, S.Reachable s ∧ P s := by
  induction ks generalizing s with
  | nil => exact ⟨s, hs, of_decide_eq_true h⟩
  | cons k ks ih =>
    rw [foldlM_cons] at h
    cases hk : g s k with
    | none =>
      rw [hk] at h
      cases h
    | some s' =>
      rw [hk] at h
      exact ih (.step hs (hg s k s' hk)) h

variable {g : σ → ι → Option σ}

/-- A step that is executed only if it meets a condition. -/
theorem restrict_step_of_ite {cond : σ → ι → Prop} [∀ s, DecidablePred (cond s)]
    (hg : ∀ s l s', g s l = some s' → S.step s l s') (s : σ) (l : ι) (s' : σ)
    (h : (if cond s l then g s l else none) = some s') : (S.restrict cond).step s l s' := by
  split_ifs at h with hcond
  exact ⟨hcond, hg s l s' h⟩

end Executed

/-! ## Traces -/

/-- `Trace S s h s'`: the steps of `h` lead from `s` to `s'`. A step is recorded with the state
before it, and the last step comes first. -/
inductive Trace (S : TransitionSystem σ ι) (s : σ) : List (σ × ι) → σ → Prop
  /-- The empty trace. -/
  | nil : Trace S s [] s
  /-- A trace followed by one more step. -/
  | cons {s' s'' : σ} {h : List (σ × ι)} {l : ι} : Trace S s h s' → S.step s' l s'' →
      Trace S s ((s', l) :: h) s''

namespace Trace

variable {s s' s'' : σ} {h h' : List (σ × ι)}

/-- A trace from a reachable state ends in a reachable state. -/
theorem reachable (ht : S.Trace s h s') (hs : S.Reachable s) : S.Reachable s' := by
  induction ht with
  | nil => exact hs
  | cons _ hstep ih => exact .step ih hstep

/-- The states passed through are reachable. -/
theorem reachable_of_mem (ht : S.Trace s h s') (hs : S.Reachable s) {x : σ × ι} (hx : x ∈ h) :
    S.Reachable x.1 := by
  induction ht with
  | nil => cases hx
  | cons ht _ ih =>
    obtain rfl | hx := mem_cons.mp hx
    · exact ht.reachable hs
    · exact ih hx

/-- The invariant rule for a state and the steps that led to it. -/
theorem invariant {I : List (σ × ι) → σ → Prop} (hinit : I [] s)
    (hstep : ∀ h s' l s'', S.Reachable s' → I h s' → S.step s' l s'' → I ((s', l) :: h) s'')
    (hs : S.Reachable s) (ht : S.Trace s h s') : I h s' := by
  induction ht with
  | nil => exact hinit
  | cons ht hlast ih => exact hstep _ _ _ _ (ht.reachable hs) ih hlast

/-- Execute a step and record it. -/
def record (g : σ → ι → Option σ) (x : List (σ × ι) × σ) (l : ι) : Option (List (σ × ι) × σ) :=
  (g x.2 l).map fun s' => ((x.2, l) :: x.1, s')

/-- A function that executes steps yields traces. -/
theorem of_foldlM {g : σ → ι → Option σ} (hg : ∀ s l s', g s l = some s' → S.step s l s')
    {ls : List ι} (hrun : ls.foldlM (record g) ([], s) = some (h, s')) : S.Trace s h s' := by
  induction ls using List.reverseRecOn generalizing h s' with
  | nil =>
    cases hrun
    exact .nil
  | append_singleton ls l ih =>
    rw [foldlM_append] at hrun
    obtain ⟨⟨h₁, s₁⟩, hfirst, hlast⟩ := bind_eq_some_iff.mp hrun
    rw [foldlM_cons] at hlast
    obtain ⟨x, hx, hnil⟩ := bind_eq_some_iff.mp hlast
    obtain ⟨s₂, hs₂, rfl⟩ := map_eq_some_iff.mp hx
    cases hnil
    exact .cons (ih hfirst) (hg _ _ _ hs₂)

end Trace

end TransitionSystem
