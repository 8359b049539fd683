import Mathlib

/-!
# The two versions of `memmove`

`memmove` of `kernel/string.c` and of `user/ulib.c`. The kernel copies from the end only if the
destination begins inside the source, user programs whenever the source is not behind the
destination. Addresses are natural numbers: no range wraps around.
-/

namespace Xv6

open Function

/-- Memory, by address. -/
abbrev Bytes : Type := ℕ → UInt8

/-- `while(n-- > 0) *d++ = *s++;` -/
def copyUp : ℕ → ℕ → ℕ → Bytes → Bytes
  | 0, _, _, mem => mem
  | n + 1, d, s, mem => copyUp n (d + 1) (s + 1) (update mem d (mem s))

/-- `while(n-- > 0) *--d = *--s;` -/
def copyDown : ℕ → ℕ → ℕ → Bytes → Bytes
  | 0, _, _, mem => mem
  | n + 1, d, s, mem => copyDown n (d - 1) (s - 1) (update mem (d - 1) (mem (s - 1)))

/-- `memmove` of the kernel. -/
def KernelString.memmove (dst src n : ℕ) (mem : Bytes) : ℕ × Bytes :=
  if n = 0 then (dst, mem)
  else if src < dst ∧ src + n > dst then (dst, copyDown n (dst + n) (src + n) mem)
  else (dst, copyUp n dst src mem)

/-- `memmove` of user programs; the loops do nothing for a negative `n`. -/
def Ulib.memmove (vdst vsrc : ℕ) (n : ℤ) (mem : Bytes) : ℕ × Bytes :=
  if vsrc > vdst then (vdst, copyUp n.toNat vdst vsrc mem)
  else (vdst, copyDown n.toNat (vdst + n.toNat) (vsrc + n.toNat) mem)

/-- Memory with the bytes at `src` moved to `dst`, all at once. -/
def moved (dst src n : ℕ) (mem : Bytes) : Bytes := fun a =>
  if dst ≤ a ∧ a < dst + n then mem (src + (a - dst)) else mem a

lemma moved_zero (dst src : ℕ) (mem : Bytes) : moved dst src 0 mem = mem := by
  ext a
  rw [moved, if_neg (by omega)]

/-- Upwards, a source byte is read before it is overwritten unless the destination begins inside
the source. -/
theorem copyUp_eq_moved {dst src n : ℕ} (h : dst ≤ src ∨ src + n ≤ dst) (mem : Bytes) :
    copyUp n dst src mem = moved dst src n mem := by
  induction n generalizing dst src mem with
  | zero => rw [moved_zero, copyUp]
  | succ n ih =>
    rw [copyUp, ih (by omega)]
    ext a
    simp only [moved]
    by_cases ha : a = dst
    · subst ha
      rw [if_neg (by omega), if_pos (by omega), update_self, Nat.sub_self, Nat.add_zero]
    by_cases hin : dst ≤ a ∧ a < dst + (n + 1)
    · -- the byte at `dst`, already written, is not read again
      have hread : src + 1 + (a - (dst + 1)) = src + (a - dst) := by omega
      rw [if_pos (by omega), if_pos hin, hread, update_of_ne (by omega)]
    · rw [if_neg (by omega), if_neg hin, update_of_ne ha]

/-- Downwards, a source byte is read before it is overwritten if the destination does not begin
before the source. -/
theorem copyDown_eq_moved {dst src n : ℕ} (h : src ≤ dst) (mem : Bytes) :
    copyDown n (dst + n) (src + n) mem = moved dst src n mem := by
  induction n generalizing mem with
  | zero => rw [moved_zero, copyDown]
  | succ n ih =>
    change copyDown n (dst + n) (src + n) (update mem (dst + n) (mem (src + n))) = _
    rw [ih]
    ext a
    simp only [moved]
    by_cases ha : a = dst + n
    · subst ha
      rw [if_neg (by omega), if_pos (by omega), update_self, Nat.add_sub_cancel_left]
    by_cases hin : dst ≤ a ∧ a < dst + (n + 1)
    · rw [if_pos (by omega), if_pos hin, update_of_ne (by omega)]
    · rw [if_neg (by omega), if_neg hin, update_of_ne ha]

/-- Both versions return the destination and leave there the bytes that were at the source, and all
other bytes as they were. -/
theorem memmove_exact (dst src n : ℕ) (mem : Bytes) :
    ∃ mem', KernelString.memmove dst src n mem = (dst, mem') ∧
      Ulib.memmove dst src n mem = (dst, mem') ∧
      (∀ i < n, mem' (dst + i) = mem (src + i)) ∧
      ∀ a, ¬ (dst ≤ a ∧ a < dst + n) → mem' a = mem a := by
  refine ⟨moved dst src n mem, ?_, ?_, fun i hi => ?_, fun a ha => if_neg ha⟩
  · unfold KernelString.memmove
    split_ifs with hzero hinside
    · rw [hzero, moved_zero]
    · rw [copyDown_eq_moved (Nat.le_of_lt hinside.1)]
    · rw [copyUp_eq_moved (by omega)]
  · unfold Ulib.memmove
    rw [Int.toNat_natCast]
    split_ifs with hbehind
    · rw [copyUp_eq_moved (.inl (Nat.le_of_lt hbehind))]
    · rw [copyDown_eq_moved (Nat.le_of_not_lt hbehind)]
  · rw [moved, if_pos (by omega), Nat.add_sub_cancel_left]

end Xv6
