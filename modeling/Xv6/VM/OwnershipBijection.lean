import Xv6.VM.System

/-!
# Frame and swap-slot ownership is a bijection

Between operations the frame table, the swap table, the free list and the page tables agree
(`Bijective`): every frame in use is the page of one process that maps it, every resident page has
one frame, and every slot in use is named by one entry of the process it belongs to. The proof reads
the statement off the ownership invariant, in which a resource has at most one use and nothing is
held between operations.
-/

namespace Xv6.VM

open Kernel

namespace Kernel

variable {σ : Type}

/-- The page `v` below the size of the process `p` is resident, in the physical page `pa`. -/
def Maps (k : Kernel σ) (p : ProcId) (v pa : ℕ) : Prop :=
  (k.proc p).state ≠ .unused ∧ v * PGSIZE < (k.proc p).sz ∧
    (k.userEntry p v).flags.v = true ∧ (k.userEntry p v).num = pa

/-- The frame `i` has `in_use = 1` and is recorded as the page `v` of `p` at `pa`. -/
def Records (k : Kernel σ) (i : Fin NUM_FRAMES) (p : ProcId) (v pa : ℕ) : Prop :=
  (k.frametable i).inUse = .used ∧ (k.frametable i).p = some p ∧
    (k.frametable i).va = v * PGSIZE ∧ (k.frametable i).pa = pa

/-- The entry of the page `a.2` of the live process `a.1` has `PTE_S` and the index `j`. -/
def NamesSlot (k : Kernel σ) (a : ProcId × ℕ) (j : ℕ) : Prop :=
  (k.proc a.1).state ≠ .unused ∧ (k.userEntry a.1 a.2).flags.s = true ∧
    (k.userEntry a.1 a.2).num = j

/-- Frames correspond to resident pages and slots to swapped-out pages. -/
structure Bijective (k : Kernel σ) : Prop where
  pa_inj : ∀ i j, (k.frametable i).inUse ≠ .free → (k.frametable j).inUse ≠ .free →
    (k.frametable i).pa = (k.frametable j).pa → i = j
  pa_not_free : ∀ i, (k.frametable i).inUse ≠ .free → (k.frametable i).pa ∉ k.freelist
  frame_of_page : ∀ p v pa, k.Maps p v pa → ∃! i, k.Records i p v pa
  page_of_frame : ∀ i, (k.frametable i).inUse ≠ .free → ∃ p v pa, k.Maps p v pa ∧ k.Records i p v pa
  slot_iff : ∀ j < MAX_SWAP_PAGES, (k.swaptable j).inUse = true ↔ ∃! a, k.NamesSlot a j
  slot_owner : ∀ j < MAX_SWAP_PAGES, ∀ a, k.NamesSlot a j → (k.swaptable j).p = some a.1

end Kernel

namespace Idle

variable {σ : Type} {D : SwapDev σ} {m : List ℕ} {k : Kernel σ} {p : ProcId}
  {i j : Fin NUM_FRAMES} {v pa : ℕ}

section

variable (hk : Idle D m k)

include hk

lemma pa_inj (hi : (k.frametable i).inUse ≠ .free) (hj : (k.frametable j).inUse ≠ .free)
    (hpa : (k.frametable i).pa = (k.frametable j).pa) : i = j := by
  have hi' : k.core.PageUses none (k.frametable j).pa (.frame i) := ⟨hi, hpa⟩
  have hj' : k.core.PageUses none (k.frametable j).pa (.frame j) := ⟨hj, rfl⟩
  have heq := hk.inv.pages.exclusive hi' hj'
  injection heq

lemma pa_not_free (hi : (k.frametable i).inUse ≠ .free) : (k.frametable i).pa ∉ k.freelist := by
  intro hfree
  have hi' : k.core.PageUses none (k.frametable i).pa (.frame i) := ⟨hi, rfl⟩
  have hfree' : k.core.PageUses none (k.frametable i).pa .free := hfree
  have heq := hk.inv.pages.exclusive hi' hfree'
  cases heq

/-- A page that is mapped or swapped out belongs to a process that exists. -/
theorem exists_proc_of_leaf {r : ℕ} (hleaf : k.core.leaf r v ≠ {}) :
    ∃ p, k.owner r = some p ∧ (k.proc p).state ≠ .unused ∧ (k.proc p).pagetable = r := by
  refine hk.exists_proc ?_
  by_contra hnone
  rw [Option.not_isSome_iff_eq_none] at hnone
  exact hleaf (leaf_of_unowned hnone v)

lemma lt_sz_of_valid (hlt : v < USER_TOP)
    (hv : (k.core.leaf (k.proc p).pagetable v).flags.v = true) : v * PGSIZE < (k.proc p).sz := by
  by_contra hge
  have habove : k.page D (k.proc p).pagetable v = none := by
    refine hk.above ?_
    change (_ + 4096 - 1) / 4096 ≤ v
    change ¬ v * 4096 < _ at hge
    omega
  rw [page_of_valid hlt hv] at habove
  cases habove

lemma records_of_resides (hp : (k.proc p).state ≠ .unused)
    (hres : Resides k.frametable k.core.leaf ((k.proc p).pagetable, v) i) :
    k.Records i p v (k.core.leaf (k.proc p).pagetable v).num := by
  obtain ⟨howned, hva⟩ := hk.inv.frames.owned _ i hres
  exact ⟨hk.inv.frames.used hres.2.2.2, howned.trans (hk.owner hp), hva, hres.2.2.1.symm⟩

lemma frame_of_page (hmaps : k.Maps p v pa) : ∃! i, k.Records i p v pa := by
  obtain ⟨hp, hsz, hv, hnum⟩ := hmaps
  have hlt := hk.lt_top hsz
  rw [hk.userEntry_eq hp (mul_pgsize_lt_maxva hlt)] at hv hnum
  obtain ⟨i, hres⟩ := hk.inv.frames.resident _ v hlt hv
  have hrec := hk.records_of_resides hp hres
  rw [hnum] at hrec
  refine ⟨i, hrec, fun j hj => hk.pa_inj ?_ ?_ ?_⟩
  · rw [hj.1]
    simp
  · rw [hrec.1]
    simp
  · rw [hj.2.2.2, hrec.2.2.2]

lemma page_of_frame (hi : (k.frametable i).inUse ≠ .free) :
    ∃ p v pa, k.Maps p v pa ∧ k.Records i p v pa := by
  rcases hk.inv.frames.cells.covered i hi with hheld | ⟨⟨r, v⟩, hres⟩
  · cases hheld
  have hlt : v < USER_TOP := hres.1
  have hv : (k.core.leaf r v).flags.v = true := hres.2.1
  obtain ⟨p, -, hp, rfl⟩ := hk.exists_proc_of_leaf (v := v) (r := r) fun hempty => by
    rw [hempty] at hv
    cases hv
  refine ⟨p, v, _, ⟨hp, hk.lt_sz_of_valid hlt hv, ?_, rfl⟩, ?_⟩
  · rw [hk.userEntry_eq hp (mul_pgsize_lt_maxva hlt)]
    exact hv
  · rw [hk.userEntry_eq hp (mul_pgsize_lt_maxva hlt)]
    exact hk.records_of_resides hp hres

/-- An entry that names a slot is a swapped-out page of the ownership invariant. -/
theorem namesSlot_iff {a : ProcId × ℕ} {j : ℕ} : k.NamesSlot a j ↔
    (k.proc a.1).state ≠ .unused ∧ Swapped k.core.leaf ((k.proc a.1).pagetable, a.2) j := by
  refine and_congr_right fun hp => ?_
  by_cases hva : a.2 * PGSIZE < MAXVA
  · rw [hk.userEntry_eq hp hva]
    rfl
  · rw [userEntry_of_maxva_le (Nat.le_of_not_lt hva)]
    refine iff_of_false (by simp) fun hswapped => hva ?_
    exact mul_pgsize_lt_maxva (hk.inv.slots.swapped _ _ hswapped).2.1

lemma namesSlot_unique {a b : ProcId × ℕ} {j : ℕ} (ha : k.NamesSlot a j) (hb : k.NamesSlot b j) :
    a = b := by
  obtain ⟨hpa, ha⟩ := hk.namesSlot_iff.mp ha
  obtain ⟨hpb, hb⟩ := hk.namesSlot_iff.mp hb
  have heq := hk.inv.slots.cells.ref_inj _ _ j ha hb
  injection heq with htable hv
  have hp : a.1 = b.1 := hk.settled.pagetable_inj (hk.settled.live _ hpb) htable
  exact Prod.ext hp hv

lemma slot_iff (j : ℕ) : (k.swaptable j).inUse = true ↔ ∃! a, k.NamesSlot a j := by
  constructor
  · intro hused
    rcases hk.inv.slots.cells.covered j hused with hheld | ⟨⟨r, v⟩, hswapped⟩
    · cases hheld
    obtain ⟨p, -, hp, rfl⟩ := hk.exists_proc_of_leaf (v := v) (r := r) fun hempty => by
      obtain ⟨hs, -⟩ := hswapped
      change (k.core.leaf r v).flags.s = true at hs
      rw [hempty] at hs
      cases hs
    have hnames : k.NamesSlot (p, v) j := hk.namesSlot_iff.mpr ⟨hp, hswapped⟩
    exact ⟨(p, v), hnames, fun b hb => hk.namesSlot_unique hb hnames⟩
  · rintro ⟨a, ha, -⟩
    exact hk.inv.slots.cells.ref_used _ j (hk.namesSlot_iff.mp ha).2

lemma bijective : k.Bijective where
  pa_inj _ _ hi hj hpa := hk.pa_inj hi hj hpa
  pa_not_free _ hi := hk.pa_not_free hi
  frame_of_page _ _ _ hmaps := hk.frame_of_page hmaps
  page_of_frame _ hi := hk.page_of_frame hi
  slot_iff j _ := hk.slot_iff j
  slot_owner j _ a ha := by
    obtain ⟨hp, hswapped⟩ := hk.namesSlot_iff.mp ha
    exact (hk.inv.slots.owned _ j hswapped).trans (hk.owner hp)

end

end Idle

/-- In every state that completed operations reach, on any swap device, frames and swap slots
correspond one to one to the pages that own them. -/
theorem ownership_bijective {σ : Type} {D : SwapDev σ} {trampoline : ℕ} {k : Kernel σ}
    (hk : (memorySystem D trampoline).Reachable k) : k.Bijective :=
  (idle_of_reachable hk).bijective

theorem ownership_bijective_swapping : ∃ k0 k, (memorySystem arrayDev 0x80000).init k0 ∧
    (memorySystem arrayDev 0x80000).Run k0 swappingRun k ∧ k.Bijective := by
  obtain ⟨k0, k, hinit, hrun⟩ := exists_swappingRun
  exact ⟨k0, k, hinit, hrun, ownership_bijective (hrun.reachable (.init hinit))⟩

end Xv6.VM
