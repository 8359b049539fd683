import Mathlib

/-!
# Blocks of memory

A block is a number of units of `w` bytes from an address on, and `cells` is the multiset of the
addresses of the units of several blocks. To cut a block in two, or to join two blocks that touch,
does not change the cells. So one equation between multisets says that memory is divided among
blocks: they are disjoint if no cell occurs twice (`MemBlock.apart_of_nodup`), lie in the memory
that is divided, and have the same total size.
-/

/-- A block of memory: `units` units from the address `addr` on. -/
@[ext]
structure MemBlock where
  addr : ℕ
  units : ℕ
deriving DecidableEq

namespace MemBlock

open Multiset Nat

variable (w : ℕ)

/-- The address behind the block. -/
def stop (b : MemBlock) : ℕ := b.addr + w * b.units

/-- The addresses of the units of the block. -/
def cells (b : MemBlock) : Multiset ℕ := (Multiset.range b.units).map fun i => b.addr + w * i

/-- No byte lies in both blocks. -/
def Apart (b c : MemBlock) : Prop := b.stop w ≤ c.addr ∨ c.stop w ≤ b.addr

/-- The addresses of the units of several blocks. -/
def cellsOf (l : List MemBlock) : Multiset ℕ := (l.map (cells w)).sum

variable {w} {b c : MemBlock} {l l' : List MemBlock} {a m n x : ℕ}

lemma mem_cells : x ∈ b.cells w ↔ ∃ i < b.units, b.addr + w * i = x := by
  simp [cells]

lemma addr_mem_cells (h : 0 < b.units) : b.addr ∈ b.cells w := mem_cells.mpr ⟨0, h, rfl⟩

@[simp]
lemma card_cells : (b.cells w).card = b.units := by simp [cells]

lemma nodup_cells (hw : 0 < w) : (b.cells w).Nodup :=
  (nodup_range _).map fun _ _ heq =>
    Nat.eq_of_mul_eq_mul_left hw (Nat.add_left_cancel heq)

/-- A block is cut in two. -/
theorem cells_add : (⟨a, m + n⟩ : MemBlock).cells w =
    (⟨a, m⟩ : MemBlock).cells w + (⟨a + w * m, n⟩ : MemBlock).cells w := by
  simp only [cells, range_add, map_add, map_map]
  congr 2
  funext i
  simp only [Function.comp_apply]
  ring

/-- Blocks of aligned addresses without a common cell have no common byte. -/
theorem apart_of_nodup (hb : w ∣ b.addr) (hc : w ∣ c.addr) (hpb : 0 < b.units) (hpc : 0 < c.units)
    (h : (b.cells w + c.cells w).Nodup) : b.Apart w c := by
  have hdisj := (nodup_add.mp h).2.2
  by_contra hnot
  obtain ⟨hlt, hlt'⟩ := not_or.mp hnot
  rw [stop, not_le] at hlt hlt'
  obtain ⟨i, hi⟩ := hb
  obtain ⟨j, hj⟩ := hc
  -- the block that begins later begins with a cell of the other one
  have hmem : ∀ {b c : MemBlock} {i j : ℕ}, b.addr = w * i → c.addr = w * j → i ≤ j → 0 < c.units →
      c.addr < b.addr + w * b.units → c.addr ∈ b.cells w ∧ c.addr ∈ c.cells w := by
    intro b c i j hi hj hij hpos hlt
    refine ⟨mem_cells.mpr ⟨j - i, ?_, ?_⟩, addr_mem_cells hpos⟩
    · rw [hi, hj, ← mul_add] at hlt
      have := lt_of_mul_lt_mul_left hlt
      omega
    · rw [hi, hj, ← mul_add]
      congr 1
      omega
  rcases le_total i j with hij | hij
  · obtain ⟨h₁, h₂⟩ := hmem hi hj hij hpc hlt
    exact disjoint_left.mp hdisj h₁ h₂
  · obtain ⟨h₁, h₂⟩ := hmem hj hi hij hpb hlt'
    exact disjoint_left.mp hdisj h₂ h₁

/-! ## Several blocks -/

@[simp]
lemma cellsOf_nil : cellsOf w [] = 0 := rfl

@[simp]
lemma cellsOf_cons : cellsOf w (b :: l) = b.cells w + cellsOf w l := by simp [cellsOf]

@[simp]
lemma cellsOf_append : cellsOf w (l ++ l') = cellsOf w l + cellsOf w l' := by simp [cellsOf]

lemma cells_le_cellsOf (h : b ∈ l) : b.cells w ≤ cellsOf w l := by
  obtain ⟨u, v, rfl⟩ := List.append_of_mem h
  rw [cellsOf_append, cellsOf_cons, add_comm, add_assoc]
  exact le_add_right _ _

/-- A block whose cells are among those of other blocks lies inside of them. -/
theorem exists_of_mem_block (hw : 0 < w) (h : b.cells w ≤ cellsOf w l) (hle : b.addr ≤ x)
    (hlt : x < b.stop w) : ∃ c ∈ l, c.addr ≤ x ∧ x < c.stop w := by
  -- the cell that `x` is in
  have hdiv := div_add_mod (x - b.addr) w
  have hmod := mod_lt (x - b.addr) hw
  have hi : (x - b.addr) / w < b.units := by
    rw [stop] at hlt
    exact Nat.div_lt_of_lt_mul (by omega)
  have hcell : b.addr + w * ((x - b.addr) / w) ∈ cellsOf w l :=
    mem_of_le h (mem_cells.mpr ⟨_, hi, rfl⟩)
  obtain ⟨c, hc, hmem⟩ : ∃ c ∈ l, b.addr + w * ((x - b.addr) / w) ∈ c.cells w := by
    clear h hlt
    induction l with
    | nil => cases hcell
    | cons d l ih =>
      rw [cellsOf_cons] at hcell
      rcases mem_add.mp hcell with hcell | hcell
      · exact ⟨d, by simp, hcell⟩
      · obtain ⟨c, hc, hmem⟩ := ih hcell
        exact ⟨c, List.mem_cons_of_mem _ hc, hmem⟩
  obtain ⟨j, hj, heq⟩ := mem_cells.mp hmem
  have hmul := mul_le_mul_left w (succ_le_of_lt hj)
  rw [mul_succ] at hmul
  refine ⟨c, hc, by omega, ?_⟩
  rw [stop]
  omega

/-- Blocks of aligned addresses without a common cell are apart from each other. -/
theorem pairwise_apart (h : (cellsOf w l).Nodup) (haligned : ∀ b ∈ l, w ∣ b.addr)
    (hpos : ∀ b ∈ l, 0 < b.units) : l.Pairwise (Apart w) := by
  induction l with
  | nil => exact .nil
  | cons b l ih =>
    rw [cellsOf_cons] at h
    rw [List.forall_mem_cons] at haligned hpos
    refine .cons (fun c hc => ?_) (ih (nodup_add.mp h).2.1 haligned.2 hpos.2)
    refine apart_of_nodup haligned.1 (haligned.2 c hc) hpos.1 (hpos.2 c hc) ?_
    exact nodup_of_le (add_le_add_right (cells_le_cellsOf hc) _) h

instance : Std.Symm (Apart w) := ⟨fun _ _ h => Or.symm h⟩

/-- Blocks that are apart begin at different addresses. -/
theorem Apart.addr_ne (h : b.Apart w c) (hw : 0 < w) (hb : 0 < b.units) (hc : 0 < c.units) :
    b.addr ≠ c.addr := by
  have hbm := mul_pos hw hb
  have hcm := mul_pos hw hc
  rcases h with h | h
  all_goals
    rw [stop] at h
    omega

lemma card_cellsOf : (cellsOf w l).card = (l.map units).sum := by
  induction l with
  | nil => rfl
  | cons b l ih => simp [ih]

end MemBlock
