import Mathlib

/-!
# Allocation maps

Places `κ` refer to resources by number, `own k = 0` if `k` refers to none, and `used` marks the
resources in use. The map is `Exact` if the resources below `lo` are marked, the places refer to
resources from `lo` up to `hi`, no two of them to the same one, and of those resources exactly the
ones that are referred to are marked. `Exact.claim` and `Exact.release` are the two ways in which it
changes.
-/

namespace AllocationMap

open Function

variable {κ : Type*} {lo hi : ℕ} {own : κ → ℕ} {used : ℕ → Bool}

/-- The marks agree with the places that refer to resources. -/
structure Exact (lo hi : ℕ) (own : κ → ℕ) (used : ℕ → Bool) : Prop where
  pos : 0 < lo
  reserved : ∀ b < lo, used b = true
  range : ∀ k, own k ≠ 0 → lo ≤ own k ∧ own k < hi
  inj : ∀ {k l}, own k ≠ 0 → own k = own l → k = l
  used_iff : ∀ b, lo ≤ b → b < hi → (used b = true ↔ ∃ k, own k = b)

namespace Exact

/-- A resource that is referred to is marked. -/
theorem used_own (h : Exact lo hi own used) {k : κ} (hk : own k ≠ 0) : used (own k) = true :=
  (h.used_iff _ (h.range k hk).1 (h.range k hk).2).mpr ⟨k, rfl⟩

/-- A resource that is not marked is not referred to. -/
theorem own_ne (h : Exact lo hi own used) {b : ℕ} (hb : used b = false) (k : κ) : own k ≠ b := by
  rintro rfl
  by_cases hk : own k = 0
  · rw [hk, h.reserved 0 h.pos] at hb
    cases hb
  · rw [h.used_own hk] at hb
    cases hb

/-- A resource that is not marked is not reserved. -/
theorem le_of_unused (h : Exact lo hi own used) {b : ℕ} (hb : used b = false) : lo ≤ b := by
  by_contra hlt
  rw [h.reserved b (by omega)] at hb
  cases hb

variable [DecidableEq κ]

/-- A place that refers to nothing gets a resource that is not in use. -/
theorem claim (h : Exact lo hi own used) {b : ℕ} {k : κ} (hb : used b = false) (hlt : b < hi)
    (hk : own k = 0) : Exact lo hi (update own k b) (update used b true) := by
  have hlo := h.le_of_unused hb
  refine ⟨h.pos, fun c hc => ?_, fun l hl => ?_, fun {l m} hl hlm => ?_, fun c hc hc' => ?_⟩
  · rw [update_of_ne (by omega)]
    exact h.reserved c hc
  · by_cases hlk : l = k
    · rw [hlk, update_self]
      exact ⟨hlo, hlt⟩
    · rw [update_of_ne hlk] at hl ⊢
      exact h.range l hl
  · -- the new reference is the only one to the resource
    by_cases hlk : l = k <;> by_cases hmk : m = k
    · rw [hlk, hmk]
    · rw [hlk, update_self, update_of_ne hmk] at hlm
      exact absurd hlm.symm (h.own_ne hb m)
    · rw [hmk, update_self, update_of_ne hlk] at hlm
      exact absurd hlm (h.own_ne hb l)
    · rw [update_of_ne hlk] at hl hlm
      rw [update_of_ne hmk] at hlm
      exact h.inj hl hlm
  · by_cases hcb : c = b
    · subst hcb
      simp only [update_self, true_iff]
      exact ⟨k, update_self ..⟩
    · rw [update_of_ne hcb, h.used_iff c hc hc']
      constructor
      · rintro ⟨l, rfl⟩
        refine ⟨l, update_of_ne ?_ ..⟩
        rintro rfl
        have := h.pos
        omega
      · rintro ⟨l, hl⟩
        by_cases hlk : l = k
        · rw [hlk, update_self] at hl
          exact absurd hl.symm hcb
        · exact ⟨l, by rwa [update_of_ne hlk] at hl⟩

/-- A place gives up its resource. -/
theorem release (h : Exact lo hi own used) {k : κ} (hk : own k ≠ 0) :
    Exact lo hi (update own k 0) (update used (own k) false) := by
  have hrange := h.range k hk
  refine ⟨h.pos, fun c hc => ?_, fun l hl => ?_, fun {l m} hl hlm => ?_, fun c hc hc' => ?_⟩
  · rw [update_of_ne (by omega)]
    exact h.reserved c hc
  · have hlk : l ≠ k := by
      rintro rfl
      exact hl (update_self ..)
    rw [update_of_ne hlk] at hl ⊢
    exact h.range l hl
  · have hlk : l ≠ k := by
      rintro rfl
      exact hl (update_self ..)
    rw [update_of_ne hlk] at hl hlm
    have hmk : m ≠ k := by
      rintro rfl
      rw [update_self] at hlm
      exact hl hlm
    rw [update_of_ne hmk] at hlm
    exact h.inj hl hlm
  · have hpos := h.pos
    by_cases hcb : c = own k
    · -- nothing else refers to the resource
      subst hcb
      simp only [update_self, Bool.false_eq_true, false_iff, not_exists]
      intro l hl
      by_cases hlk : l = k
      · rw [hlk, update_self] at hl
        omega
      · rw [update_of_ne hlk] at hl
        exact hlk (h.inj hk hl.symm).symm
    · rw [update_of_ne hcb, h.used_iff c hc hc']
      constructor
      · rintro ⟨l, rfl⟩
        refine ⟨l, update_of_ne ?_ ..⟩
        rintro rfl
        exact hcb rfl
      · rintro ⟨l, hl⟩
        by_cases hlk : l = k
        · rw [hlk, update_self] at hl
          omega
        · exact ⟨l, by rwa [update_of_ne hlk] at hl⟩

end Exact

end AllocationMap
