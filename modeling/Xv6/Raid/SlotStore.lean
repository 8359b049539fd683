import Xv6.Raid.ModeChange

/-!
# RAID 0, 1 and 10 are stores of slots

The modes without parity keep one or two copies of every logical block, all at one offset of their
disks. `Stored` says that each copy on a disk that works holds the block. No two logical blocks
share a copy, so a page write changes the copies of its own blocks only. A failure takes away at
most one copy of each block: with mirroring another one remains, and with striping the read finds
zeros.
-/

namespace Xv6.Raid

open Function List

/-! ## Copies -/

/-- The disks on which a mode without parity stores a logical block. -/
def copies (mode : RaidMode) (lb : ℕ) : List ℕ :=
  match mode with
  | .striping => [lb % NUM_DISKS]
  | .mirroring => [2 * (lb % 2), 2 * (lb % 2) + 1]
  | .mirroredStriping => [2 * (lb % (NUM_DISKS / 2)), 2 * (lb % (NUM_DISKS / 2)) + 1]
  | .parity => []

lemma copies_inj {mode : RaidMode} {lb lb' d : ℕ} (ho : offsetOf mode lb = offsetOf mode lb')
    (hd : d ∈ copies mode lb) (hd' : d ∈ copies mode lb') : lb = lb' := by
  cases mode with
  | striping =>
    change lb / 4 = lb' / 4 at ho
    have h : d = lb % 4 := mem_singleton.mp hd
    have h' : d = lb' % 4 := mem_singleton.mp hd'
    omega
  | parity => cases hd
  | mirroring =>
    change lb / 2 = lb' / 2 at ho
    have h : d = 2 * (lb % 2) ∨ d = 2 * (lb % 2) + 1 := by simpa [copies] using hd
    have h' : d = 2 * (lb' % 2) ∨ d = 2 * (lb' % 2) + 1 := by simpa [copies] using hd'
    omega
  | mirroredStriping =>
    change lb / 2 = lb' / 2 at ho
    have h : d = 2 * (lb % 2) ∨ d = 2 * (lb % 2) + 1 := by simpa [copies, NUM_DISKS] using hd
    have h' : d = 2 * (lb' % 2) ∨ d = 2 * (lb' % 2) + 1 := by simpa [copies, NUM_DISKS] using hd'
    omega

lemma copies_lt {mode : RaidMode} {lb d : ℕ} (hd : d ∈ copies mode lb) : d < NUM_DISKS := by
  change d < 4
  cases mode with
  | striping =>
    have h : d = lb % 4 := mem_singleton.mp hd
    omega
  | parity => cases hd
  | mirroring =>
    have h : d = 2 * (lb % 2) ∨ d = 2 * (lb % 2) + 1 := by simpa [copies] using hd
    omega
  | mirroredStriping =>
    have h : d = 2 * (lb % 2) ∨ d = 2 * (lb % 2) + 1 := by simpa [copies, NUM_DISKS] using hd
    omega

/-- A block write outside mode 5 writes the copies on the disks that work, in order. -/
theorem writeBlock_eq_foldl {mode : RaidMode} (hmode : mode ≠ .parity) (diskFailed : ℤ) (lb : ℕ)
    (c : Block) (s : SwapDisk) :
    writeBlock mode diskFailed lb c s = (copies mode lb).foldl (fun s (d : ℕ) =>
      if (d : ℤ) ≠ diskFailed then s.bwrite (diskBlock d (offsetOf mode lb)) c else s) s := by
  cases mode with
  | striping | mirroring => rfl
  | parity => exact absurd rfl hmode
  | mirroredStriping => rfl

/-- The copy that a block read outside mode 5 uses, if there is one that works. -/
def readCopy (mode : RaidMode) (diskFailed : ℤ) (lb : ℕ) : Option ℕ :=
  (copies mode lb).find? fun d => (d : ℤ) ≠ diskFailed

lemma readBlock_eq {mode : RaidMode} (hmode : mode ≠ .parity) (diskFailed : ℤ) (lb : ℕ)
    (s : SwapDisk) :
    readBlock mode diskFailed lb s =
      match readCopy mode diskFailed lb with
      | some d => s.bread (diskBlock d (offsetOf mode lb))
      | none => (0, s) := by
  have hmirrored : ∀ pair offset, readMirrored pair offset diskFailed s =
      match [2 * pair, 2 * pair + 1].find? fun (d : ℕ) => (d : ℤ) ≠ diskFailed with
      | some d => s.bread (diskBlock d offset)
      | none => (0, s) := by
    intro pair offset
    unfold readMirrored
    dsimp only
    by_cases hA : diskFailed = ((2 * pair : ℕ) : ℤ)
    · have hB : ((2 * pair + 1 : ℕ) : ℤ) ≠ diskFailed := by omega
      rw [if_pos hA, List.find?_cons_of_neg (by simpa using hA.symm),
        List.find?_cons_of_pos (by simpa using hB)]
    · rw [if_neg hA, List.find?_cons_of_pos (by simpa using Ne.symm hA)]
  cases mode with
  | striping =>
    unfold readBlock readCopy copies
    dsimp only
    by_cases h : ((lb % NUM_DISKS : ℕ) : ℤ) ≠ diskFailed
    · rw [if_pos h, List.find?_cons_of_pos (by simpa using h)]
      rfl
    · rw [if_neg h, List.find?_cons_of_neg (by simpa using h)]
      rfl
  | mirroring | mirroredStriping => exact hmirrored _ _
  | parity => exact absurd rfl hmode

/-! ## The invariant -/

/-- Every copy of a logical block on a disk that works holds the block. -/
def Stored (mode : RaidMode) (diskFailed : ℤ) (L : ℕ → Block) (s : SwapDisk) : Prop :=
  ∀ lb, offsetOf mode lb < SIM_DISK_SIZE → ∀ d ∈ copies mode lb, (d : ℤ) ≠ diskFailed →
    stripe s (offsetOf mode lb) d = L lb

namespace Stored

variable {mode : RaidMode} {diskFailed : ℤ} {L : ℕ → Block} {s : SwapDisk}

lemma zero (mode : RaidMode) (diskFailed : ℤ) : Stored mode diskFailed (fun _ => 0) .zero :=
  fun _ _ _ _ _ => rfl

/-- A failure takes copies away and changes none. -/
theorem fail (h : Stored mode (-1) L s) (diskFailed : ℤ) : Stored mode diskFailed L s :=
  fun lb hlb d hd _ => h lb hlb d hd (by omega)

lemma writeBlock (h : Stored mode diskFailed L s) (hmode : mode ≠ .parity) {lb : ℕ}
    (hlb : offsetOf mode lb < SIM_DISK_SIZE) (c : Block) :
    Stored mode diskFailed (update L lb c) (Raid.writeBlock mode diskFailed lb c s) := by
  -- after some of the copies, exactly those have changed
  have hloop : ∀ (l : List ℕ) (s : SwapDisk) {o : ℕ}, o < SIM_DISK_SIZE → ∀ d : ℕ,
      stripe (l.foldl (fun s (d : ℕ) => if (d : ℤ) ≠ diskFailed then
        s.bwrite (diskBlock d (offsetOf mode lb)) c else s) s) o d =
      if o = offsetOf mode lb ∧ d ∈ l ∧ (d : ℤ) ≠ diskFailed then c else stripe s o d := by
    intro l
    induction l with
    | nil => simp
    | cons d' l ih =>
      intro s o ho d
      rw [foldl_cons, ih _ ho]
      by_cases hin : o = offsetOf mode lb ∧ d ∈ l ∧ (d : ℤ) ≠ diskFailed
      · rw [if_pos hin, if_pos ⟨hin.1, mem_cons_of_mem _ hin.2.1, hin.2.2⟩]
      · rw [if_neg hin]
        by_cases hf : (d' : ℤ) ≠ diskFailed
        · rw [if_pos hf, stripe_bwrite s d' c hlb ho]
          by_cases ho' : o = offsetOf mode lb
          · rw [if_pos ho', ← ho']
            by_cases hdd : d = d'
            · rw [hdd, update_self, if_pos ⟨rfl, mem_cons_self, hf⟩]
            · rw [update_of_ne hdd, if_neg]
              rintro ⟨-, hmem, hne⟩
              exact hin ⟨ho', (mem_cons.mp hmem).resolve_left hdd, hne⟩
          · rw [if_neg ho', if_neg fun hc => ho' hc.1]
        · rw [if_neg hf, if_neg]
          rintro ⟨ho', hmem, hne⟩
          rcases mem_cons.mp hmem with rfl | hmem
          · exact hf hne
          · exact hin ⟨ho', hmem, hne⟩
  intro lb' hlb' d hd hne
  rw [writeBlock_eq_foldl hmode, hloop _ s hlb']
  by_cases heq : lb' = lb
  · subst heq
    rw [if_pos ⟨rfl, hd, hne⟩, update_self]
  · rw [if_neg fun hc => heq (copies_inj hc.1 hd hc.2.1), update_of_ne heq]
    exact h lb' hlb' d hd hne

lemma raidWritePage {pages : ℕ → Page} (h : Stored mode diskFailed (logical pages) s)
    (hmode : mode ≠ .parity) {slot : ℕ} (hslot : slot < MAX_SWAP_PAGES) (pg : Page) :
    Stored mode diskFailed (logical (update pages slot pg))
      (Raid.raidWritePage slot pg mode diskFailed s) := by
  rw [← writeLogical_logical, ← foldl_update_eq_writeLogical]
  unfold Raid.raidWritePage
  generalize logical pages = L at h
  induction List.finRange SWAP_BLOCKS_PER_PAGE generalizing L s with
  | nil => exact h
  | cons i l ih => exact ih _ (h.writeBlock hmode (offsetOf_lt_of_slot mode hslot i) _)

lemma readBlock (h : Stored mode diskFailed L s) (hmode : mode ≠ .parity) {lb : ℕ}
    (hlb : offsetOf mode lb < SIM_DISK_SIZE) :
    (Raid.readBlock mode diskFailed lb s).1 =
      if (readCopy mode diskFailed lb).isSome then L lb else 0 := by
  rw [readBlock_eq hmode]
  cases hcopy : readCopy mode diskFailed lb with
  | none => rfl
  | some d =>
    have hd : d ∈ copies mode lb := mem_of_find?_eq_some hcopy
    have hne : (d : ℤ) ≠ diskFailed := by simpa using List.find?_some hcopy
    exact h lb hlb d hd hne

end Stored

/-- With mirroring, one copy of every block is on a disk that works. -/
theorem readCopy_isSome {mode : RaidMode} (hmode : mode ≠ .parity) (hstriping : mode ≠ .striping)
    (diskFailed : ℤ) (lb : ℕ) : (readCopy mode diskFailed lb).isSome := by
  have hpair : ∀ d : ℕ, ([d, d + 1].find? fun (d : ℕ) => (d : ℤ) ≠ diskFailed).isSome := by
    intro d
    rw [List.find?_isSome]
    by_cases hd : (d : ℤ) = diskFailed
    · exact ⟨d + 1, by simp, by simp; omega⟩
    · exact ⟨d, by simp, by simpa using hd⟩
  cases mode with
  | striping => exact absurd rfl hstriping
  | mirroring => exact hpair _
  | parity => exact absurd rfl hmode
  | mirroredStriping => exact hpair _

lemma readCopy_isSome_striping (diskFailed : ℤ) (lb : ℕ) :
    (readCopy .striping diskFailed lb).isSome ↔ ((lb % NUM_DISKS : ℕ) : ℤ) ≠ diskFailed := by
  simp [readCopy, copies]

/-! ## The swap region -/

/-- A block of the swap region. -/
def InSwapRegion (b : ℕ) : Prop :=
  SWAP_START_BLOCK ≤ b ∧ b < SWAP_START_BLOCK + NUM_DISKS * SIM_DISK_SIZE

lemma inSwapRegion_diskBlock {d o : ℕ} (hd : d < NUM_DISKS) (ho : o < SIM_DISK_SIZE) :
    InSwapRegion (diskBlock d o) := by
  simp only [InSwapRegion, diskBlock, NUM_DISKS, SIM_DISK_SIZE] at *
  omega

/-- Only blocks of the swap region have been touched. -/
def TouchesOnlySwap (s : SwapDisk) : Prop := ∀ b ∈ s.touched, InSwapRegion b

lemma TouchesOnlySwap.append {s s' : SwapDisk} {b : ℕ} (h : TouchesOnlySwap s)
    (htouched : s'.touched = s.touched ++ [b]) (hb : InSwapRegion b) : TouchesOnlySwap s' := by
  intro b' hb'
  rw [htouched, mem_append, mem_singleton] at hb'
  rcases hb' with hb' | rfl
  · exact h b' hb'
  · exact hb

namespace TouchesOnlySwap

variable {mode : RaidMode} {diskFailed : ℤ} {s : SwapDisk} {slot : ℕ}

section

variable (h : TouchesOnlySwap s) (hmode : mode ≠ .parity)

include h hmode

lemma writeBlock {lb : ℕ} (hlb : offsetOf mode lb < SIM_DISK_SIZE) (c : Block) :
    TouchesOnlySwap (Raid.writeBlock mode diskFailed lb c s) := by
  rw [writeBlock_eq_foldl hmode]
  have hcopies : ∀ d ∈ copies mode lb, d < NUM_DISKS := fun d => copies_lt
  generalize copies mode lb = l at hcopies
  induction l generalizing s with
  | nil => exact h
  | cons d l ih =>
    refine ih ?_ fun d' hd' => hcopies d' (mem_cons_of_mem _ hd')
    dsimp only
    split_ifs
    · exact h.append rfl (inSwapRegion_diskBlock (hcopies d mem_cons_self) hlb)
    · exact h

lemma raidWritePage (hslot : slot < MAX_SWAP_PAGES) (pg : Page) :
    TouchesOnlySwap (Raid.raidWritePage slot pg mode diskFailed s) := by
  unfold Raid.raidWritePage
  induction List.finRange SWAP_BLOCKS_PER_PAGE generalizing s with
  | nil => exact h
  | cons i l ih => exact ih (h.writeBlock hmode (offsetOf_lt_of_slot mode hslot i) _)

lemma readBlock {lb : ℕ} (hlb : offsetOf mode lb < SIM_DISK_SIZE) :
    TouchesOnlySwap (Raid.readBlock mode diskFailed lb s).2 := by
  rw [readBlock_eq hmode]
  cases hcopy : readCopy mode diskFailed lb with
  | none => exact h
  | some d =>
    have hd : d ∈ copies mode lb := mem_of_find?_eq_some hcopy
    exact h.append rfl (inSwapRegion_diskBlock (copies_lt hd) hlb)

lemma raidReadPage (hslot : slot < MAX_SWAP_PAGES) (pg : Page) :
    TouchesOnlySwap (Raid.raidReadPage slot pg mode diskFailed s).2 := by
  unfold Raid.raidReadPage
  induction List.finRange SWAP_BLOCKS_PER_PAGE generalizing pg s with
  | nil => exact h
  | cons i l ih => exact ih (h.readBlock hmode (offsetOf_lt_of_slot mode hslot i)) _

end

end TouchesOnlySwap

/-! ## Runs -/

/-- A sequence of `raid_write_page` calls in one mode with one value of `disk_failed`. -/
def writePagesIn (mode : RaidMode) (calls : List (ℕ × Page)) (diskFailed : ℤ) (s : SwapDisk) :
    SwapDisk :=
  calls.foldl (fun s c => raidWritePage c.1 c.2 mode diskFailed s) s

lemma stored_run {mode : RaidMode} (hmode : mode ≠ .parity) {diskFailed : ℤ}
    (calls : List (ℕ × Page)) (hcalls : ∀ c ∈ calls, c.1 < MAX_SWAP_PAGES) {pages : ℕ → Page}
    {s : SwapDisk} (h : Stored mode diskFailed (logical pages) s) :
    Stored mode diskFailed (logical (lastWritten pages calls))
      (writePagesIn mode calls diskFailed s) := by
  induction calls generalizing pages s with
  | nil => exact h
  | cons c calls ih =>
    exact ih (fun c' hc' => hcalls c' (by simp [hc']))
      (h.raidWritePage hmode (hcalls c (by simp)) c.2)

lemma touchesOnlySwap_run {mode : RaidMode} (hmode : mode ≠ .parity) {diskFailed : ℤ}
    (calls : List (ℕ × Page)) (hcalls : ∀ c ∈ calls, c.1 < MAX_SWAP_PAGES) {s : SwapDisk}
    (h : TouchesOnlySwap s) : TouchesOnlySwap (writePagesIn mode calls diskFailed s) := by
  induction calls generalizing s with
  | nil => exact h
  | cons c calls ih =>
    exact ih (fun c' hc' => hcalls c' (by simp [hc']))
      (h.raidWritePage hmode (hcalls c (by simp)) c.2)

/-- **RAID 0, 1 and 10 store the last page written to each slot.** Start from the zero device, write
any pages to any slots with all disks healthy, then let any one disk `d` fail and write more. With
all disks healthy every slot reads as the last page written to it, zeros if there is none. After the
failure this stays so with mirroring, and with striping for the blocks that are not on `d`, while
those on `d` read as zeros. No block outside the swap region is touched. -/
theorem raid_stores_slots (mode : RaidMode) (hmode : mode ≠ .parity)
    (healthy degraded : List (ℕ × Page)) (d : ℕ)
    (hslots : ∀ c ∈ healthy ++ degraded, c.1 < MAX_SWAP_PAGES) :
    let s₁ := writePagesIn mode healthy (-1) SwapDisk.zero
    let s₂ := writePagesIn mode degraded d s₁
    let pages := lastWritten (fun _ => 0) (healthy ++ degraded)
    ∀ slot < MAX_SWAP_PAGES, ∀ pg,
      (raidReadPage slot pg mode (-1) s₁).1 = lastWritten (fun _ => 0) healthy slot ∧
      (mode ≠ .striping → (raidReadPage slot pg mode d s₂).1 = pages slot) ∧
      (mode = .striping → ∀ i : Fin SWAP_BLOCKS_PER_PAGE,
        (raidReadPage slot pg mode d s₂).1.block i =
          if (slot * 4 + i) % NUM_DISKS = d then 0 else (pages slot).block i) ∧
      ∀ b ∈ (raidReadPage slot pg mode (-1) s₁).2.touched ++
          (raidReadPage slot pg mode d s₂).2.touched,
        FSSIZE ≤ b ∧ SWAP_START_BLOCK ≤ b ∧ b < SWAP_START_BLOCK + NUM_DISKS * SIM_DISK_SIZE := by
  intro s₁ s₂ pages slot hslot pg
  have hhealthy : ∀ c ∈ healthy, c.1 < MAX_SWAP_PAGES := fun c hc => hslots c (by simp [hc])
  have hdegraded : ∀ c ∈ degraded, c.1 < MAX_SWAP_PAGES := fun c hc => hslots c (by simp [hc])
  have hpages : pages = lastWritten (lastWritten (fun _ => 0) healthy) degraded :=
    foldl_append
  have h₁ : Stored mode (-1) (logical (lastWritten (fun _ => 0) healthy)) s₁ :=
    stored_run hmode healthy hhealthy (Stored.zero mode (-1))
  have h₂ : Stored mode d (logical pages) s₂ := by
    rw [hpages]
    exact stored_run hmode degraded hdegraded (h₁.fail d)
  have ht₁ : TouchesOnlySwap s₁ :=
    touchesOnlySwap_run hmode healthy hhealthy (by simp [TouchesOnlySwap, SwapDisk.zero])
  have ht₂ : TouchesOnlySwap s₂ := touchesOnlySwap_run hmode degraded hdegraded ht₁
  refine ⟨?_, fun hstriping => ?_, fun hstriping i => ?_, fun b hb => ?_⟩
  · apply Page.ext_block
    intro i
    rw [raidReadPage_block, h₁.readBlock hmode (offsetOf_lt_of_slot mode hslot i), logical_slot,
      if_pos]
    cases mode with
    | striping => exact (readCopy_isSome_striping _ _).mpr (by omega)
    | mirroring | mirroredStriping => exact readCopy_isSome hmode (by simp) _ _
    | parity => exact absurd rfl hmode
  · apply Page.ext_block
    intro i
    rw [raidReadPage_block, h₂.readBlock hmode (offsetOf_lt_of_slot mode hslot i), logical_slot,
      if_pos (readCopy_isSome hmode hstriping _ _)]
  · subst hstriping
    rw [raidReadPage_block, h₂.readBlock hmode (offsetOf_lt_of_slot _ hslot i), logical_slot]
    by_cases hon : (slot * 4 + i) % NUM_DISKS = d
    · rw [if_pos hon, if_neg]
      rw [readCopy_isSome_striping, hon]
      simp
    · rw [if_neg hon, if_pos]
      exact (readCopy_isSome_striping _ _).mpr fun hc => hon (by exact_mod_cast hc)
  · rcases mem_append.mp hb with hb | hb
    · have hin := ht₁.raidReadPage hmode hslot pg b hb
      exact ⟨hin.1, hin⟩
    · have hin := ht₂.raidReadPage hmode hslot pg b hb
      exact ⟨hin.1, hin⟩

/-- A page written in mode 10 before the failure of disk 2 and one written after it are both read
back. -/
theorem raid_stores_slots_disk_two :
    (raidReadPage 5 0 .mirroredStriping 2 (writePagesIn .mirroredStriping [(1023, Page.fill 7)] 2
      (writePagesIn .mirroredStriping [(5, Page.fill 3)] (-1) SwapDisk.zero))).1 = Page.fill 3 ∧
    (raidReadPage 1023 0 .mirroredStriping 2 (writePagesIn .mirroredStriping [(1023, Page.fill 7)] 2
      (writePagesIn .mirroredStriping [(5, Page.fill 3)] (-1) SwapDisk.zero))).1 = Page.fill 7 := by
  have hslots : ∀ c ∈ [(5, Page.fill 3)] ++ [(1023, Page.fill 7)], c.1 < MAX_SWAP_PAGES := by
    intro c hc
    simp only [mem_append, mem_singleton] at hc
    rcases hc with rfl | rfl <;> decide
  have h := raid_stores_slots .mirroredStriping (by simp) [(5, Page.fill 3)] [(1023, Page.fill 7)] 2
    hslots
  exact ⟨(h 5 (by decide) 0).2.1 (by simp), (h 1023 (by decide) 0).2.1 (by simp)⟩

end Xv6.Raid
