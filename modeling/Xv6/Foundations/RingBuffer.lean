import Mathlib

/-!
# Ring buffers with free-running counters

A buffer of `N` cells with two 32-bit counters that are only incremented: `r` counts the elements
taken and `w` the elements put. Both wrap, and a cell is found by reducing a counter modulo `N`. If
`N` divides `2 ^ 32` the wrapping is not seen: the elements between the counters, oldest first, are
a queue (`contents_put`, `contents_eq_cons`).
-/

namespace RingBuffer

open Function List Nat

variable {α : Type*} {N : ℕ} {data : ℕ → α} {r w : UInt32}

/-- The number of elements in the buffer. -/
def count (r w : UInt32) : ℕ := (w - r).toNat

/-- The elements in the buffer, oldest first. -/
def contents (N : ℕ) (data : ℕ → α) (r w : UInt32) : List α :=
  (List.range (count r w)).map fun j => data ((r.toNat + j) % N)

lemma toNat_lt (a : UInt32) : a.toNat < 2 ^ 32 := a.toBitVec.isLt

lemma count_eq (r w : UInt32) : count r w = (2 ^ 32 - r.toNat + w.toNat) % 2 ^ 32 :=
  UInt32.toNat_sub w r

/-- The counter `w` is `count r w` steps ahead of `r`, modulo `2 ^ 32`. -/
theorem toNat_eq (r w : UInt32) : w.toNat = (r.toNat + count r w) % 2 ^ 32 := by
  have hr := toNat_lt r
  have hw := toNat_lt w
  have hcount := count_eq r w
  omega

lemma count_eq_zero : count r w = 0 ↔ r = w := by
  constructor
  · intro h
    have hw := toNat_eq r w
    rw [h, add_zero, mod_eq_of_lt (toNat_lt r)] at hw
    exact (UInt32.toNat_inj.mp hw).symm
  · rintro rfl
    simp [count]

lemma toNat_add_one (a : UInt32) : (a + 1).toNat = (a.toNat + 1) % 2 ^ 32 := by
  rw [UInt32.toNat_add]
  rfl

/-- An element is put, unless the buffer held `2 ^ 32 - 1` of them. -/
theorem count_succ_right (h : count r w + 1 < 2 ^ 32) : count r (w + 1) = count r w + 1 := by
  have hr := toNat_lt r
  have hw := toNat_lt w
  have hcount := count_eq r w
  have hcount' := count_eq r (w + 1)
  rw [toNat_add_one] at hcount'
  omega

/-- An element is taken. -/
theorem count_succ_left (h : r ≠ w) : count (r + 1) w + 1 = count r w := by
  have hr := toNat_lt r
  have hw := toNat_lt w
  have hcount := count_eq r w
  have hcount' := count_eq (r + 1) w
  have hne : count r w ≠ 0 := fun hc => h (count_eq_zero.mp hc)
  rw [toNat_add_one] at hcount'
  omega

/-- The buffer holds `n` elements if its counters are `n` apart. -/
theorem count_eq_iff {n : ℕ} (hn : n < 2 ^ 32) : count r w = n ↔ w = r + UInt32.ofNat n := by
  have hr := toNat_lt r
  have hw := toNat_lt w
  have hcount := count_eq r w
  rw [← UInt32.toNat_inj, UInt32.toNat_add, UInt32.toNat_ofNat', mod_eq_of_lt hn]
  omega

section Cells

variable (hN : N ∣ 2 ^ 32)

include hN

/-- The cell of a counter, found from the other counter. -/
theorem mod_eq (r w : UInt32) : w.toNat % N = (r.toNat + count r w) % N := by
  rw [toNat_eq r w, mod_mod_of_dvd _ hN]

/-- Putting an element into a buffer that is not full appends it. -/
theorem contents_put (hlt : N < 2 ^ 32) (hroom : count r w < N) (a : α) :
    contents N (update data (w.toNat % N) a) r (w + 1) = contents N data r w ++ [a] := by
  have hcell := mod_eq hN r w
  unfold contents
  rw [count_succ_right (by omega), range_succ, map_append]
  congr 1
  · -- the cells in use are other ones, as there are fewer than `N` of them
    refine map_congr_left fun j hj => update_of_ne ?_ _ _
    rw [hcell]
    intro heq
    have hj : j < count r w := mem_range.mp hj
    have hmod : j % N = count r w % N := Nat.ModEq.add_left_cancel' r.toNat heq
    rw [mod_eq_of_lt hroom, mod_eq_of_lt (by omega)] at hmod
    omega
  · rw [map_singleton, ← hcell, update_self]

/-- The first element is the one at the counter `r`, and taking it leaves the others. -/
theorem contents_eq_cons (hne : r ≠ w) :
    contents N data r w = data (r.toNat % N) :: contents N data (r + 1) w := by
  unfold contents
  rw [← count_succ_left hne, range_succ_eq_map, map_cons, map_map]
  refine congrArg₂ List.cons rfl (map_congr_left fun j _ => congrArg data ?_)
  change (r.toNat + (j + 1)) % N = ((r + 1).toNat + j) % N
  rw [toNat_add_one, add_mod, add_mod ((r.toNat + 1) % 2 ^ 32), mod_mod_of_dvd _ hN,
    ← add_mod, ← add_mod, add_assoc, add_comm 1]

end Cells

end RingBuffer
