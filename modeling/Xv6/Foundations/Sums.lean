import Mathlib

/-!
# Sums of which one summand changes

What a family of threads, table entries or descriptors contributes to a count is a sum over the
family; a step changes the contribution of one member.
-/

namespace Finset

open Function

variable {ι M : Type*} [Fintype ι] [DecidableEq ι] [AddCommMonoid M]

/-- The sums of two families that differ at `i` only. -/
theorem sum_add_eq_of_forall_ne {f g : ι → M} (i : ι) (h : ∀ j, j ≠ i → g j = f j) :
    ∑ j, g j + f i = ∑ j, f j + g i := by
  have hrest : ∑ j ∈ univ.erase i, g j = ∑ j ∈ univ.erase i, f j :=
    sum_congr rfl fun j hj => h j (ne_of_mem_erase hj)
  calc ∑ j, g j + f i
      = g i + ∑ j ∈ univ.erase i, g j + f i := by rw [add_sum_erase _ _ (mem_univ i)]
    _ = f i + ∑ j ∈ univ.erase i, f j + g i := by rw [hrest]; abel
    _ = ∑ j, f j + g i := by rw [add_sum_erase _ _ (mem_univ i)]

/-- A family is updated at `i`. -/
theorem sum_update_add {A : Type*} (F : A → M) (a : ι → A) (i : ι) (x : A) :
    ∑ j, F (update a i x j) + F (a i) = ∑ j, F (a j) + F x := by
  have h := sum_add_eq_of_forall_ne (f := fun j => F (a j))
    (g := fun j => F (update a i x j)) i fun j hj => by rw [update_of_ne hj]
  simpa using h

omit [Fintype ι] in
/-- Two predicates that differ at `i` only have numbers of members that differ accordingly. -/
theorem card_filter_add_eq {s : Finset ι} {P Q : ι → Prop} [DecidablePred P] [DecidablePred Q]
    {i : ι} (hi : i ∈ s) (h : ∀ j, j ≠ i → (Q j ↔ P j)) :
    (s.filter Q).card + (if P i then 1 else 0) = (s.filter P).card + if Q i then 1 else 0 := by
  have hrest : (s.erase i).filter Q = (s.erase i).filter P :=
    filter_congr fun j hj => h j (ne_of_mem_erase hj)
  rw [← insert_erase hi, filter_insert, filter_insert, hrest]
  have hnot : i ∉ (s.erase i).filter P := fun hmem => by simp at hmem
  split_ifs <;> simp [card_insert_of_notMem hnot]

end Finset
