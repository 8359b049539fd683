import Mathlib

/-!
# Spinlocks held by threads

Threads `T` with program counters `Pc`, and locks `L` with an owner each. `held t pc l` says that
the thread `t` holds the lock `l` when its program counter is `pc`. The table of owners is
`Consistent` if it agrees with the program counters. A step of a thread that acquires a free lock,
releases a lock, or does neither keeps the table consistent; so two threads never hold one lock
(`Consistent.unique`).
-/

namespace LockTable

open Function

variable {T L Pc : Type*} [DecidableEq T] {held : T → Pc → L → Prop} {pc : T → Pc}
  {owner : L → Option T} {t t' : T} {l : L} {pc' : Pc}

/-- The owner of each lock is the thread whose program counter says that it holds the lock. -/
def Consistent (held : T → Pc → L → Prop) (pc : T → Pc) (owner : L → Option T) : Prop :=
  ∀ l t, held t (pc t) l ↔ owner l = some t

namespace Consistent

omit [DecidableEq T] in
/-- Two threads do not hold one lock. -/
theorem unique (h : Consistent held pc owner) (ht : held t (pc t) l) (ht' : held t' (pc t') l) :
    t = t' :=
  Option.some.inj (((h l t).mp ht).symm.trans ((h l t').mp ht'))

omit [DecidableEq T] in
/-- No thread holds a lock that is free. -/
theorem not_held (h : Consistent held pc owner) (hl : owner l = none) : ¬held t (pc t) l := by
  intro ht
  rw [(h l t).mp ht] at hl
  cases hl

/-- A thread goes on with the locks that it has. -/
theorem keep (h : Consistent held pc owner) (hsame : ∀ l, held t pc' l ↔ held t (pc t) l) :
    Consistent held (update pc t pc') owner := by
  intro l u
  by_cases hu : u = t
  · subst hu
    rw [update_self, hsame]
    exact h l u
  · rw [update_of_ne hu]
    exact h l u

variable [DecidableEq L]

/-- A thread acquires a free lock. -/
theorem acquire (h : Consistent held pc owner) (hl : owner l = none)
    (hmore : ∀ l', held t pc' l' ↔ l' = l ∨ held t (pc t) l') :
    Consistent held (update pc t pc') (update owner l (some t)) := by
  intro l' u
  by_cases hu : u = t
  · subst hu
    rw [update_self, hmore]
    by_cases hl' : l' = l
    · subst hl'
      rw [update_self]
      exact iff_of_true (.inl rfl) rfl
    · rw [update_of_ne hl', ← h l' u]
      exact or_iff_right hl'
  · rw [update_of_ne hu]
    by_cases hl' : l' = l
    · subst hl'
      rw [update_self]
      exact iff_of_false (h.not_held hl) fun heq => hu (Option.some.inj heq).symm
    · rw [update_of_ne hl']
      exact h l' u

/-- A thread releases a lock. -/
theorem release (h : Consistent held pc owner) (hl : held t (pc t) l)
    (hless : ∀ l', held t pc' l' ↔ l' ≠ l ∧ held t (pc t) l') :
    Consistent held (update pc t pc') (update owner l none) := by
  intro l' u
  by_cases hu : u = t
  · subst hu
    rw [update_self, hless]
    by_cases hl' : l' = l
    · subst hl'
      rw [update_self]
      exact iff_of_false (fun hc => hc.1 rfl) (by simp)
    · rw [update_of_ne hl', ← h l' u]
      exact and_iff_right hl'
  · rw [update_of_ne hu]
    by_cases hl' : l' = l
    · subst hl'
      rw [update_self]
      exact iff_of_false (fun hc => hu (h.unique hc hl)) (by simp)
    · rw [update_of_ne hl']
      exact h l' u

end Consistent

end LockTable
