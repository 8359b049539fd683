import Mathlib

/-!
# Parity stripes

A stripe is a family of values `f : ι → B`, one for each position of a list `l`, where `B` carries
a lawful exclusive-or. Nothing is assumed about which position holds the parity.

* `xorOver f l` is the exclusive-or of `f` over `l`, and `IsBalanced f l` says that it is zero.
* `readThrough failed f l i` is the value at `i` as seen when position `failed` cannot be read:
  the failed position is rebuilt from all the others.

A balanced stripe loses nothing when a position fails (`readThrough_of_balanced`). The three ways
of updating a value together with its parity are `readThrough_update_subtract` (both positions
present), `readThrough_update_recompute` (the written position is missing) and
`readThrough_update_plain` (the parity position is missing).
-/

namespace Parity

open Function List

variable {ι B : Type*} [DecidableEq ι] [XorOp B] [Zero B]

/-- The exclusive-or of `f` over the positions of `l`. -/
def xorOver (f : ι → B) (l : List ι) : B :=
  l.foldr (fun i acc => f i ^^^ acc) 0

/-- The stripe `f` over `l` has exclusive-or zero. -/
def IsBalanced (f : ι → B) (l : List ι) : Prop :=
  xorOver f l = 0

/-- The value at position `i` when position `failed` is rebuilt from the others. -/
def readThrough (failed : Option ι) (f : ι → B) (l : List ι) (i : ι) : B :=
  if failed = some i then xorOver f (l.filter (· ≠ i)) else f i

omit [DecidableEq ι] in
@[simp]
lemma xorOver_nil (f : ι → B) : xorOver f [] = 0 := rfl

omit [DecidableEq ι] in
@[simp]
lemma xorOver_cons (f : ι → B) (i : ι) (l : List ι) :
    xorOver f (i :: l) = f i ^^^ xorOver f l := rfl

omit [DecidableEq ι] in
/-- `xorOver` depends only on the values at the positions of the list. -/
theorem xorOver_congr {f g : ι → B} {l : List ι} (h : ∀ i ∈ l, f i = g i) :
    xorOver f l = xorOver g l := by
  induction l with
  | nil => rfl
  | cons i l ih =>
    rw [xorOver_cons, xorOver_cons, h i (by simp), ih fun j hj => h j (by simp [hj])]

/-- Changing a position outside the list does not change the exclusive-or. -/
theorem xorOver_update_of_notMem (f : ι → B) {i : ι} (b : B) {l : List ι} (hi : i ∉ l) :
    xorOver (update f i b) l = xorOver f l := by
  apply xorOver_congr
  intro j hj
  rw [update_of_ne]
  rintro rfl
  exact hi hj

variable [LawfulXor B]

/-- A position of a duplicate-free list can be split off the exclusive-or. -/
theorem xorOver_split (f : ι → B) {l : List ι} (hl : l.Nodup) {i : ι} (hi : i ∈ l) :
    xorOver f l = f i ^^^ xorOver f (l.filter (· ≠ i)) := by
  induction l with
  | nil => simp at hi
  | cons j l ih =>
    obtain ⟨hj, hl⟩ := nodup_cons.mp hl
    rcases eq_or_ne j i with rfl | hne
    · have hfilter : l.filter (· ≠ j) = l := by
        rw [filter_eq_self]
        intro x hx
        simp only [ne_eq, decide_eq_true_eq]
        rintro rfl
        exact hj hx
      rw [filter_cons_of_neg (by simp), hfilter, xorOver_cons]
    · have hi' : i ∈ l := by
        rcases mem_cons.mp hi with h | h
        · exact absurd h.symm hne
        · exact h
      rw [filter_cons_of_pos (by simpa using hne), xorOver_cons, xorOver_cons,
        ih hl hi', ← xor_assoc, ← xor_assoc, xor_comm (f j) (f i)]

/-- Overwriting one position of a duplicate-free list changes the exclusive-or by the difference
between the new value and the old one. -/
theorem xorOver_update (f : ι → B) {l : List ι} (hl : l.Nodup) {i : ι} (hi : i ∈ l) (b : B) :
    xorOver (update f i b) l = xorOver f l ^^^ (f i ^^^ b) := by
  have hrest : xorOver (update f i b) (l.filter (· ≠ i)) =
      xorOver f (l.filter (· ≠ i)) :=
    xorOver_update_of_notMem f b (by simp)
  rw [xorOver_split _ hl hi, xorOver_split f hl hi, hrest, update_self,
    xor_comm (f i) (xorOver f _), xor_assoc, xor_cancel_left, LawfulXor.xor_comm]

omit [LawfulXor B] in
/-- With every position present, the stripe is read as it is. -/
@[simp]
theorem readThrough_none (f : ι → B) (l : List ι) (i : ι) : readThrough none f l i = f i := by
  simp [readThrough]

omit [DecidableEq ι] in
/-- All-zero positions are balanced. -/
theorem xorOver_zero (l : List ι) : xorOver (fun _ => (0 : B)) l = 0 := by
  induction l with
  | nil => rfl
  | cons i l ih => rw [xorOver_cons, ih, xor_zero]

omit [LawfulXor B] in
/-- A position that has not failed is read as it is. -/
theorem readThrough_of_ne {failed : Option ι} {i : ι} (h : failed ≠ some i) (f : ι → B)
    (l : List ι) : readThrough failed f l i = f i := by
  simp [readThrough, h]

omit [LawfulXor B] in
/-- The failed position is the exclusive-or of the others. -/
theorem readThrough_self (f : ι → B) (l : List ι) (i : ι) :
    readThrough (some i) f l i = xorOver f (l.filter (· ≠ i)) := by
  simp [readThrough]

/-- In a balanced stripe, whichever position fails, every position still reads as before. -/
theorem readThrough_of_balanced {f : ι → B} {l : List ι} (hl : l.Nodup) (hf : IsBalanced f l)
    (failed : Option ι) {i : ι} (hi : i ∈ l) : readThrough failed f l i = f i := by
  by_cases h : failed = some i
  · subst h
    rw [readThrough_self]
    have hsplit := xorOver_split f hl hi
    rw [hf] at hsplit
    exact (xor_eq_zero_iff.mp hsplit.symm).symm
  · exact readThrough_of_ne h f l

/-- Subtractive update: position `i` takes the value `b` and position `p` absorbs the difference.
The exclusive-or of the stripe is unchanged. -/
theorem xorOver_update_subtract (f : ι → B) {l : List ι} (hl : l.Nodup) {i p : ι} (hi : i ∈ l)
    (hp : p ∈ l) (hip : i ≠ p) (b : B) :
    xorOver (update (update f i b) p (f p ^^^ (f i ^^^ b))) l =
      xorOver f l := by
  rw [xorOver_update _ hl hp, xorOver_update f hl hi, update_of_ne hip.symm,
    xor_cancel_left, xor_cancel_right]

/-- Subtractive update with both positions present: `i` reads as the new value and every other
position than the parity one reads as before, the failed one included. -/
theorem readThrough_update_subtract (f : ι → B) {l : List ι} (hl : l.Nodup) {i p : ι}
    (hi : i ∈ l) (hp : p ∈ l) (hip : i ≠ p) (b : B) {failed : Option ι}
    (hfi : failed ≠ some i) (hfp : failed ≠ some p) {j : ι} (hjp : j ≠ p) :
    readThrough failed (update (update f i b) p (f p ^^^ (f i ^^^ b))) l j =
      if j = i then b else readThrough failed f l j := by
  by_cases hj : failed = some j
  · subst hj
    have hji : j ≠ i := fun h => hfi (by rw [h])
    rw [readThrough_self, readThrough_self, if_neg hji]
    exact xorOver_update_subtract f (hl.filter _) (by simp [hi, hji.symm])
      (by simp [hp, hjp.symm]) hip b
  · rw [readThrough_of_ne hj, readThrough_of_ne hj, update_of_ne hjp]
    by_cases hji : j = i
    · subst hji
      simp
    · rw [if_neg hji, update_of_ne hji]

/-- Update of a position that cannot be written: the parity position is recomputed from the new
value and all the other positions. -/
theorem readThrough_update_recompute (f : ι → B) {l : List ι} (hl : l.Nodup) {i p : ι}
    (hp : p ∈ l) (hip : i ≠ p) (b : B) {j : ι} (hjp : j ≠ p) :
    readThrough (some i)
        (update f p (b ^^^ xorOver f (l.filter fun d => ¬(d = i ∨ d = p)))) l j =
      if j = i then b else readThrough (some i) f l j := by
  by_cases hji : j = i
  · subst hji
    have hrest : (l.filter (· ≠ j)).filter (· ≠ p) = l.filter fun d => ¬(d = j ∨ d = p) := by
      rw [filter_filter]
      apply filter_congr
      intro x _
      by_cases h1 : x = j <;> by_cases h2 : x = p <;> simp [h1, h2]
    have hp' : p ∈ l.filter (· ≠ j) := by simp [hp, hip.symm]
    rw [readThrough_self, if_pos rfl, xorOver_split _ (hl.filter _) hp',
      update_self, hrest, xorOver_update_of_notMem _ _ (by simp), xor_cancel_right]
  · have hne : (some i : Option ι) ≠ some j := fun h => hji (Option.some.inj h).symm
    rw [readThrough_of_ne hne, readThrough_of_ne hne, update_of_ne hjp, if_neg hji]

omit [LawfulXor B] in
/-- Update of a position whose parity cannot be written: only the position itself changes. -/
theorem readThrough_update_plain (f : ι → B) (l : List ι) {i p : ι} (b : B) {j : ι}
    (hjp : j ≠ p) :
    readThrough (some p) (update f i b) l j =
      if j = i then b else readThrough (some p) f l j := by
  have hne : (some p : Option ι) ≠ some j := fun h => hjp (Option.some.inj h).symm
  rw [readThrough_of_ne hne, readThrough_of_ne hne]
  by_cases hji : j = i
  · subst hji
    simp
  · rw [update_of_ne hji, if_neg hji]

end Parity
