import Xv6.Raid.Model

/-!
# RAID 5 tolerates one failed disk

A stripe is the row of blocks at one offset of the four disks. In mode 5 each stripe holds three
logical blocks and, on a disk that rotates with the offset, their parity.

`Consistent diskFailed L s` says that the device `s` stores the logical blocks `L`: every logical
block is what `raid_read_page` would return for it, through the other disks if its own disk is the
failed one. As long as no disk has failed, every stripe is moreover balanced, which is what lets
the first failure happen (`Consistent.fail`). Each of the three branches of a mode-5 write keeps
this invariant (`Consistent.writeParity`), so it holds along every run of
`raid_write_page` (`consistent_run`).

The main result is `raid5_tolerates_one_failure`.
-/

namespace Xv6.Raid

open Parity Function List

/-! ## Geometry of the disks -/

/-- The row of blocks at `offset`, by disk. -/
def stripe (s : SwapDisk) (offset : ℕ) (disk : ℕ) : Block := s.blocks (diskBlock disk offset)

/-- The disks of a stripe. -/
def disks : List ℕ := List.range NUM_DISKS

/-- Block `b` belongs to disk `d`. -/
def OnDisk (d b : ℕ) : Prop := ∃ offset < SIM_DISK_SIZE, b = diskBlock d offset

/-- The failed position of a stripe: none for `disk_failed = -1`. -/
def failedPos (diskFailed : ℤ) : Option ℕ :=
  if 0 ≤ diskFailed then some diskFailed.toNat else none

lemma disks_nodup : disks.Nodup := nodup_range

lemma mem_disks {d : ℕ} : d ∈ disks ↔ d < NUM_DISKS := mem_range

lemma diskBlock_inj {d d' o o' : ℕ} (ho : o < SIM_DISK_SIZE) (ho' : o' < SIM_DISK_SIZE) :
    diskBlock d o = diskBlock d' o' ↔ d = d' ∧ o = o' := by
  simp only [diskBlock, SIM_DISK_SIZE] at *
  omega

lemma parityDisk_lt (o : ℕ) : parityDisk o < NUM_DISKS := Nat.mod_lt _ (by decide)

lemma dataDisk_eq (lb : ℕ) :
    dataDisk lb = if lb % 3 ≥ lb / 3 % 4 then lb % 3 + 1 else lb % 3 := rfl

lemma parityDisk_stripeOffset_eq (lb : ℕ) : parityDisk (stripeOffset lb) = lb / 3 % 4 := rfl

lemma dataDisk_lt (lb : ℕ) : dataDisk lb < NUM_DISKS := by
  change dataDisk lb < 4
  rw [dataDisk_eq]
  split_ifs <;> omega

lemma dataDisk_ne_parityDisk (lb : ℕ) : dataDisk lb ≠ parityDisk (stripeOffset lb) := by
  rw [dataDisk_eq, parityDisk_stripeOffset_eq]
  split_ifs <;> omega

lemma dataDisk_inj {lb lb' : ℕ} (ho : stripeOffset lb = stripeOffset lb')
    (hd : dataDisk lb = dataDisk lb') : lb = lb' := by
  change lb / 3 = lb' / 3 at ho
  rw [dataDisk_eq, dataDisk_eq] at hd
  split_ifs at hd <;> omega

lemma failedPos_eq_some {diskFailed : ℤ} {d : ℕ} :
    failedPos diskFailed = some d ↔ diskFailed = d := by
  unfold failedPos
  split_ifs with h
  · rw [Option.some.injEq]
    omega
  · simp only [false_iff]
    omega

@[simp]
lemma failedPos_neg_one : failedPos (-1) = none := rfl

lemma stripe_bwrite (s : SwapDisk) (d : ℕ) (c : Block) {o o' : ℕ} (ho : o < SIM_DISK_SIZE)
    (ho' : o' < SIM_DISK_SIZE) :
    stripe (s.bwrite (diskBlock d o) c) o' =
      if o' = o then update (stripe s o) d c else stripe s o' := by
  funext d'
  simp only [stripe, SwapDisk.bwrite_blocks, update_apply, diskBlock_inj ho' ho]
  by_cases h : o' = o
  · subst h
    simp [update_apply, stripe]
  · simp [h, stripe]

@[simp]
lemma stripe_bread (s : SwapDisk) (b o : ℕ) : stripe (s.bread b).2 o = stripe s o := rfl

/-! ## What a mode-5 access does to the stripes -/

/-- The stripe of a logical block after a mode-5 write of it: recomputed parity if the data disk
has failed, plain data if the parity disk has, and a subtractive update otherwise. -/
def stripeAfterWrite (lb : ℕ) (newData : Block) (diskFailed : ℤ) (f : ℕ → Block) : ℕ → Block :=
  let p := parityDisk (stripeOffset lb)
  let i := dataDisk lb
  if diskFailed = i then
    update f p (newData ^^^ xorOver f (disks.filter fun d => ¬(d = i ∨ d = p)))
  else if diskFailed = p then update f i newData
  else update (update f i newData) p (f p ^^^ (f i ^^^ newData))

lemma stripe_writeParity (lb : ℕ) (newData : Block) (diskFailed : ℤ) (s : SwapDisk)
    (hlb : stripeOffset lb < SIM_DISK_SIZE) {o : ℕ} (ho : o < SIM_DISK_SIZE) :
    stripe (writeParity lb newData diskFailed s) o =
      if o = stripeOffset lb then
        stripeAfterWrite lb newData diskFailed (stripe s (stripeOffset lb))
      else stripe s o := by
  unfold writeParity stripeAfterWrite
  simp only
  by_cases h1 : diskFailed = dataDisk lb
  · have hfilter : ((List.range NUM_DISKS).filter fun (d : ℕ) =>
        ¬((d : ℤ) = diskFailed ∨ d = parityDisk (stripeOffset lb))) =
        disks.filter fun d => ¬(d = dataDisk lb ∨ d = parityDisk (stripeOffset lb)) := by
      simp only [h1, Int.natCast_inj, disks]
    rw [if_pos h1, if_pos h1, hfilter, xorOthers_eq, stripe_bwrite _ _ _ hlb ho]
    rfl
  · rw [if_neg h1, if_neg h1]
    by_cases h2 : diskFailed = parityDisk (stripeOffset lb)
    · rw [if_pos h2, if_pos h2, stripe_bwrite _ _ _ hlb ho]
      rfl
    · rw [if_neg h2, if_neg h2]
      -- the two lock orders write the same blocks
      split_ifs with h3 h4 h4 <;>
        simp only [stripe_bwrite _ _ _ hlb ho, stripe_bwrite _ _ _ hlb hlb, h4, if_true, if_false,
          stripe_bread, SwapDisk.bread_fst, SwapDisk.bread_blocks] <;> rfl

/-- With all disks healthy, a mode-5 write keeps the parity of its stripe right. -/
theorem isBalanced_stripeAfterWrite (lb : ℕ) (newData : Block) {f : ℕ → Block}
    (h : IsBalanced f disks) : IsBalanced (stripeAfterWrite lb newData (-1) f) disks := by
  have hd : (-1 : ℤ) ≠ dataDisk lb := by omega
  have hp : (-1 : ℤ) ≠ parityDisk (stripeOffset lb) := by omega
  simp only [stripeAfterWrite, hd, hp, if_false, IsBalanced]
  rw [xorOver_update_subtract _ disks_nodup (mem_disks.mpr (dataDisk_lt lb))
    (mem_disks.mpr (parityDisk_lt _)) (dataDisk_ne_parityDisk lb)]
  exact h

/-- A mode-5 read returns the value of the data disk as seen through the other disks. -/
theorem readParity_fst (lb : ℕ) (diskFailed : ℤ) (s : SwapDisk) :
    (readParity lb diskFailed s).1 =
      readThrough (failedPos diskFailed) (stripe s (stripeOffset lb)) disks (dataDisk lb) := by
  unfold readParity
  by_cases h : (dataDisk lb : ℤ) = diskFailed
  · have hfilter : ((List.range NUM_DISKS).filter fun (d : ℕ) => ¬((d : ℤ) = diskFailed)) =
        disks.filter (· ≠ dataDisk lb) := by
      simp only [← h, Int.natCast_inj, disks, ne_eq]
    rw [failedPos_eq_some.mpr h.symm, readThrough_self]
    simp only [ne_eq, h, not_true_eq_false, if_false, xorOthers_eq, hfilter, zero_xor]
    rfl
  · have hne : failedPos diskFailed ≠ some (dataDisk lb) := fun hc =>
      h (failedPos_eq_some.mp hc).symm
    rw [readThrough_of_ne hne]
    simp only [ne_eq, h, not_false_eq_true, if_true]
    rfl

/-! ## The invariant -/

/-- The device `s` stores the logical blocks `L` although disk `diskFailed` cannot be read; with
all disks healthy every stripe is balanced as well. -/
structure Consistent (diskFailed : ℤ) (L : ℕ → Block) (s : SwapDisk) : Prop where
  /-- Every logical block can be read. -/
  data : ∀ lb, stripeOffset lb < SIM_DISK_SIZE →
    readThrough (failedPos diskFailed) (stripe s (stripeOffset lb)) disks (dataDisk lb) = L lb
  /-- With all disks healthy, the parity of every stripe is right. -/
  balanced : diskFailed = -1 → ∀ o < SIM_DISK_SIZE, IsBalanced (stripe s o) disks

namespace Consistent

variable {diskFailed : ℤ} {L : ℕ → Block} {s : SwapDisk}

lemma zero : Consistent (-1) (fun _ => 0) SwapDisk.zero where
  data _ _ := by rw [failedPos_neg_one, readThrough_none]; rfl
  balanced _ _ _ := xorOver_zero disks

/-- Any disk may fail: what was stored stays readable through the other disks. -/
theorem fail (h : Consistent (-1) L s) (d : ℕ) : Consistent d L s where
  data lb hlb := by
    have hbal := h.balanced rfl _ hlb
    have hmem := mem_disks.mpr (dataDisk_lt lb)
    rw [readThrough_of_balanced disks_nodup hbal _ hmem, ← h.data lb hlb, failedPos_neg_one,
      readThrough_none]
  balanced hd := by omega

/-- The stripe written to reads as the new block at its data disk and as before at the others. -/
private theorem readThrough_stripeAfterWrite (lb : ℕ) (newData : Block) (diskFailed : ℤ)
    (f : ℕ → Block) {j : ℕ} (hj : j ≠ parityDisk (stripeOffset lb)) :
    readThrough (failedPos diskFailed) (stripeAfterWrite lb newData diskFailed f) disks j =
      if j = dataDisk lb then newData else readThrough (failedPos diskFailed) f disks j := by
  have hp := mem_disks.mpr (parityDisk_lt (stripeOffset lb))
  have hi := mem_disks.mpr (dataDisk_lt lb)
  have hip := dataDisk_ne_parityDisk lb
  unfold stripeAfterWrite
  by_cases h1 : diskFailed = dataDisk lb
  · rw [failedPos_eq_some.mpr h1]
    simp only [h1, if_true]
    exact readThrough_update_recompute f disks_nodup hp hip newData hj
  · by_cases h2 : diskFailed = parityDisk (stripeOffset lb)
    · rw [failedPos_eq_some.mpr h2]
      rw [if_neg h1, if_pos h2]
      exact readThrough_update_plain f disks newData hj
    · simp only [h1, h2, if_false]
      exact readThrough_update_subtract f disks_nodup hi hp hip newData
        (fun hc => h1 (failedPos_eq_some.mp hc)) (fun hc => h2 (failedPos_eq_some.mp hc)) hj

/-- One mode-5 block write stores the new block and keeps every other one. -/
theorem writeParity (h : Consistent diskFailed L s) {lb : ℕ}
    (hlb : stripeOffset lb < SIM_DISK_SIZE) (newData : Block) :
    Consistent diskFailed (update L lb newData)
      (Raid.writeParity lb newData diskFailed s) where
  data lb' hlb' := by
    rw [stripe_writeParity lb newData diskFailed s hlb hlb']
    by_cases ho : stripeOffset lb' = stripeOffset lb
    · have hj : dataDisk lb' ≠ parityDisk (stripeOffset lb) := by
        rw [← ho]
        exact dataDisk_ne_parityDisk lb'
      rw [if_pos ho, readThrough_stripeAfterWrite lb newData diskFailed _ hj]
      by_cases hd : dataDisk lb' = dataDisk lb
      · rw [if_pos hd, dataDisk_inj ho hd, update_self]
      · have hne : lb' ≠ lb := fun hc => hd (by rw [hc])
        rw [if_neg hd, update_of_ne hne, ← ho]
        exact h.data lb' hlb'
    · have hne : lb' ≠ lb := fun hc => ho (by rw [hc])
      rw [if_neg ho, update_of_ne hne]
      exact h.data lb' hlb'
  balanced hf o ho := by
    rw [stripe_writeParity lb newData diskFailed s hlb ho]
    split_ifs with h1
    · subst hf
      exact isBalanced_stripeAfterWrite lb newData (h.balanced rfl _ hlb)
    · exact h.balanced hf o ho

end Consistent

/-! ## From blocks to pages -/

/-- The logical blocks of a family of pages. -/
def logical (pages : ℕ → Page) (lb : ℕ) : Block :=
  (pages (lb / 4)).block ⟨lb % 4, Nat.mod_lt _ (by decide)⟩

lemma stripeOffset_lt_of_slot {slot : ℕ} (hslot : slot < MAX_SWAP_PAGES)
    (i : Fin SWAP_BLOCKS_PER_PAGE) : stripeOffset (slot * 4 + i) < SIM_DISK_SIZE := by
  have hi := i.isLt
  simp only [stripeOffset, NUM_DISKS, SIM_DISK_SIZE, MAX_SWAP_PAGES, SWAP_BLOCKS_PER_PAGE] at *
  omega

lemma logical_slot (pages : ℕ → Page) (slot : ℕ) (i : Fin SWAP_BLOCKS_PER_PAGE) :
    logical pages (slot * 4 + i) = (pages slot).block i := by
  have hi : i.val < 4 := i.isLt
  have hdiv : (slot * 4 + i.val) / 4 = slot := by omega
  unfold logical
  rw [hdiv]
  congr 1
  apply Fin.ext
  change (slot * 4 + i.val) % 4 = i.val
  omega

/-- The logical blocks after the four blocks of a page are written to a slot. -/
def writeLogical (slot : ℕ) (pg : Page) (L : ℕ → Block) (lb : ℕ) : Block :=
  if lb / 4 = slot then pg.block ⟨lb % 4, Nat.mod_lt _ (by decide)⟩ else L lb

lemma writeLogical_slot (slot : ℕ) (pg : Page) (L : ℕ → Block) (j : ℕ)
    (i : Fin SWAP_BLOCKS_PER_PAGE) :
    writeLogical slot pg L (j * 4 + i) = if j = slot then pg.block i else L (j * 4 + i) := by
  have hi : i.val < 4 := i.isLt
  have hdiv : (j * 4 + i.val) / 4 = j := by omega
  have hmod : (⟨(j * 4 + i.val) % 4, Nat.mod_lt _ (by decide)⟩ : Fin 4) = i :=
    Fin.ext (by change (j * 4 + i.val) % 4 = i.val; omega)
  unfold writeLogical
  rw [hdiv]
  exact congrArg (if j = slot then pg.block · else L (j * 4 + i)) hmod

/-- The loop of `raid_write_page`, seen as updates of the logical blocks. -/
theorem foldl_update_eq_writeLogical (slot : ℕ) (pg : Page) (L : ℕ → Block) :
    (List.finRange SWAP_BLOCKS_PER_PAGE).foldl (fun L (i : Fin SWAP_BLOCKS_PER_PAGE) =>
        update L (slot * 4 + i) (pg.block i)) L = writeLogical slot pg L := by
  funext lb
  let j : Fin SWAP_BLOCKS_PER_PAGE := ⟨lb % 4, Nat.mod_lt _ (by decide)⟩
  have hj (i : Fin SWAP_BLOCKS_PER_PAGE) : lb = slot * 4 + i ↔ lb / 4 = slot ∧ j = i := by
    have hi : i.val < 4 := i.isLt
    rw [Fin.ext_iff]
    change _ ↔ _ ∧ lb % 4 = i.val
    omega
  -- after the blocks of `l`, exactly the positions of `l` in the slot have changed
  have hloop (l : List (Fin SWAP_BLOCKS_PER_PAGE)) : l.foldl (fun L (i : Fin _) =>
      update L (slot * 4 + i) (pg.block i)) L lb =
        if lb / 4 = slot ∧ j ∈ l then pg.block j else L lb := by
    induction l generalizing L with
    | nil => simp
    | cons i l ih =>
      rw [foldl_cons, ih, update_apply]
      simp only [hj, mem_cons]
      grind
  rw [hloop]
  simp only [mem_finRange, and_true, writeLogical, j]

lemma writeLogical_logical (pages : ℕ → Page) (slot : ℕ) (pg : Page) :
    writeLogical slot pg (logical pages) = logical (update pages slot pg) := by
  funext lb
  simp only [writeLogical, logical, update_apply]
  split_ifs <;> rfl

/-- The loop of `raid_write_page` over some of the blocks of the page. -/
private theorem consistent_writeLoop {diskFailed : ℤ} {slot : ℕ} (hslot : slot < MAX_SWAP_PAGES)
    (pg : Page) (l : List (Fin SWAP_BLOCKS_PER_PAGE)) {L : ℕ → Block} {s : SwapDisk}
    (h : Consistent diskFailed L s) :
    Consistent diskFailed
      (l.foldl (fun L (i : Fin SWAP_BLOCKS_PER_PAGE) =>
        update L (slot * 4 + i) (pg.block i)) L)
      (l.foldl (fun s (i : Fin SWAP_BLOCKS_PER_PAGE) =>
        writeBlock .parity diskFailed (slot * 4 + i) (pg.block i) s) s) := by
  induction l generalizing L s with
  | nil => exact h
  | cons i l ih => exact ih (h.writeParity (stripeOffset_lt_of_slot hslot i) (pg.block i))

/-- A mode-5 page write stores the page in its slot and keeps every other slot. -/
theorem Consistent.raidWritePage {diskFailed : ℤ} {pages : ℕ → Page} {s : SwapDisk}
    (h : Consistent diskFailed (logical pages) s) {slot : ℕ} (hslot : slot < MAX_SWAP_PAGES)
    (pg : Page) :
    Consistent diskFailed (logical (update pages slot pg))
      (Raid.raidWritePage slot pg .parity diskFailed s) := by
  rw [← writeLogical_logical, ← foldl_update_eq_writeLogical]
  exact consistent_writeLoop hslot pg _ h

/-- A mode-5 page read returns the page stored in the slot. -/
theorem Consistent.raidReadPage {diskFailed : ℤ} {pages : ℕ → Page} {s : SwapDisk}
    (h : Consistent diskFailed (logical pages) s) {slot : ℕ} (hslot : slot < MAX_SWAP_PAGES)
    (pg : Page) : (Raid.raidReadPage slot pg .parity diskFailed s).1 = pages slot := by
  apply Page.ext_block
  intro i
  have hread : (readBlock .parity diskFailed (slot * 4 + i) s).1 =
      (readParity (slot * 4 + i) diskFailed s).1 := rfl
  rw [raidReadPage_block, hread, readParity_fst, h.data _ (stripeOffset_lt_of_slot hslot i),
    logical_slot]

/-! ## Blocks touched -/

/-- Going from `s` to `s'`, no block of disk `d` was read or written. -/
def Avoids (d : ℕ) (s s' : SwapDisk) : Prop :=
  ∃ new, s'.touched = s.touched ++ new ∧ ∀ b ∈ new, ¬OnDisk d b

namespace Avoids

variable {d : ℕ} {s s' s'' : SwapDisk}

lemma refl (d : ℕ) (s : SwapDisk) : Avoids d s s := ⟨[], by simp, by simp⟩

lemma trans (h : Avoids d s s') (h' : Avoids d s' s'') : Avoids d s s'' := by
  obtain ⟨new, ht, hnew⟩ := h
  obtain ⟨new', ht', hnew'⟩ := h'
  refine ⟨new ++ new', by rw [ht', ht, append_assoc], fun b hb => ?_⟩
  rcases mem_append.mp hb with hb | hb
  · exact hnew b hb
  · exact hnew' b hb

lemma foldl {α : Type} (step : SwapDisk → α → SwapDisk) (l : List α)
    (h : ∀ a ∈ l, ∀ s, Avoids d s (step s a)) (s : SwapDisk) : Avoids d s (l.foldl step s) := by
  induction l generalizing s with
  | nil => exact refl d s
  | cons a l ih =>
    exact (h a (by simp) s).trans (ih (fun a ha => h a (by simp [ha])) _)

end Avoids

lemma not_onDisk_diskBlock {d d' o : ℕ} (hd : d' ≠ d) (ho : o < SIM_DISK_SIZE) :
    ¬OnDisk d (diskBlock d' o) := by
  rintro ⟨o', ho', h⟩
  exact hd ((diskBlock_inj ho ho').mp h).1

lemma avoids_bread {d d' o : ℕ} (hd : d' ≠ d) (ho : o < SIM_DISK_SIZE) (s : SwapDisk) :
    Avoids d s (s.bread (diskBlock d' o)).2 :=
  ⟨[diskBlock d' o], rfl, by simpa using not_onDisk_diskBlock hd ho⟩

lemma avoids_bwrite {d d' o : ℕ} (hd : d' ≠ d) (ho : o < SIM_DISK_SIZE) (s : SwapDisk)
    (c : Block) : Avoids d s (s.bwrite (diskBlock d' o) c) :=
  ⟨[diskBlock d' o], rfl, by simpa using not_onDisk_diskBlock hd ho⟩

lemma avoids_xorOthers {d o : ℕ} (ho : o < SIM_DISK_SIZE) {l : List ℕ} (hl : d ∉ l)
    (acc : Block) (s : SwapDisk) : Avoids d s (xorOthers o l acc s).2 := by
  rw [xorOthers_eq]
  refine ⟨_, rfl, fun b hb => ?_⟩
  obtain ⟨d', hd', rfl⟩ := mem_map.mp hb
  exact not_onDisk_diskBlock (fun hc => hl (hc ▸ hd')) ho

/-- A mode-5 block write never touches the failed disk. -/
theorem avoids_writeParity (d lb : ℕ) (newData : Block) (s : SwapDisk)
    (hlb : stripeOffset lb < SIM_DISK_SIZE) : Avoids d s (writeParity lb newData d s) := by
  unfold writeParity
  simp only [Int.natCast_inj]
  by_cases h1 : d = dataDisk lb
  · have hp : parityDisk (stripeOffset lb) ≠ d := h1 ▸ (dataDisk_ne_parityDisk lb).symm
    rw [if_pos h1]
    exact ((avoids_bread hp hlb s).trans (avoids_xorOthers hlb (by simp) newData _)).trans
      (avoids_bwrite hp hlb _ _)
  · rw [if_neg h1]
    by_cases h2 : d = parityDisk (stripeOffset lb)
    · rw [if_pos h2]
      exact (avoids_bread (Ne.symm h1) hlb s).trans (avoids_bwrite (Ne.symm h1) hlb _ _)
    · rw [if_neg h2]
      have hd := Ne.symm h1
      have hp := Ne.symm h2
      split_ifs
      · exact (((avoids_bread hd hlb s).trans (avoids_bread hp hlb _)).trans
          (avoids_bwrite hd hlb _ _)).trans (avoids_bwrite hp hlb _ _)
      · exact (((avoids_bread hp hlb s).trans (avoids_bread hd hlb _)).trans
          (avoids_bwrite hd hlb _ _)).trans (avoids_bwrite hp hlb _ _)

lemma avoids_readParity (d lb : ℕ) (s : SwapDisk) (hlb : stripeOffset lb < SIM_DISK_SIZE) :
    Avoids d s (readParity lb d s).2 := by
  unfold readParity
  simp only [ne_eq, Int.natCast_inj]
  split_ifs with h
  · exact avoids_xorOthers hlb (by simp) 0 s
  · exact avoids_bread h hlb s

lemma avoids_raidWritePage (d : ℕ) {slot : ℕ} (hslot : slot < MAX_SWAP_PAGES) (pg : Page)
    (s : SwapDisk) : Avoids d s (raidWritePage slot pg .parity d s) :=
  Avoids.foldl _ _ (fun i _ s =>
    avoids_writeParity d _ (pg.block i) s (stripeOffset_lt_of_slot hslot i)) s

lemma avoids_raidReadPage (d : ℕ) {slot : ℕ} (hslot : slot < MAX_SWAP_PAGES) (pg : Page)
    (s : SwapDisk) : Avoids d s (raidReadPage slot pg .parity d s).2 := by
  have hloop : ∀ (l : List (Fin SWAP_BLOCKS_PER_PAGE)) (r : Page × SwapDisk),
      Avoids d r.2 (l.foldl (fun r (i : Fin SWAP_BLOCKS_PER_PAGE) =>
        (r.1.setBlock i (readBlock .parity d (slot * 4 + i) r.2).1,
          (readBlock .parity d (slot * 4 + i) r.2).2)) r).2 := by
    intro l
    induction l with
    | nil => exact fun r => Avoids.refl d r.2
    | cons i l ih =>
      intro r
      exact (avoids_readParity d _ r.2 (stripeOffset_lt_of_slot hslot i)).trans
        (ih (r.1.setBlock i (readParity (slot * 4 + i) d r.2).1,
          (readParity (slot * 4 + i) d r.2).2))
  exact hloop _ (pg, s)

/-! ## Runs of writes -/

/-- A sequence of `raid_write_page` calls in mode 5 with one value of `disk_failed`. -/
def writePages (calls : List (ℕ × Page)) (diskFailed : ℤ) (s : SwapDisk) : SwapDisk :=
  calls.foldl (fun s c => raidWritePage c.1 c.2 .parity diskFailed s) s

/-- The last page written to each slot by a sequence of calls, on top of `pages`. -/
def lastWritten (pages : ℕ → Page) (calls : List (ℕ × Page)) : ℕ → Page :=
  calls.foldl (fun pages c => update pages c.1 c.2) pages

/-- The invariant holds along every run of mode-5 page writes. -/
theorem consistent_run {diskFailed : ℤ} (calls : List (ℕ × Page))
    (hcalls : ∀ c ∈ calls, c.1 < MAX_SWAP_PAGES) {pages : ℕ → Page} {s : SwapDisk}
    (h : Consistent diskFailed (logical pages) s) :
    Consistent diskFailed (logical (lastWritten pages calls)) (writePages calls diskFailed s) := by
  induction calls generalizing pages s with
  | nil => exact h
  | cons c calls ih =>
    exact ih (fun c' hc' => hcalls c' (by simp [hc']))
      (h.raidWritePage (hcalls c (by simp)) c.2)

/-- **RAID 5 tolerates one failure at any moment.** Start from the zero device, write any pages to
any slots with all disks healthy, then let any one disk `d` fail and write more. At every stage
`raid_read_page` with the current `disk_failed` returns the last page written to the slot, zeros
if there is none, and from the failure on no call touches a block of disk `d`. -/
theorem raid5_tolerates_one_failure (healthy degraded : List (ℕ × Page)) (d : ℕ)
    (hslots : ∀ c ∈ healthy ++ degraded, c.1 < MAX_SWAP_PAGES) :
    let s₁ := writePages healthy (-1) SwapDisk.zero
    let s₂ := writePages degraded d s₁
    (∀ slot < MAX_SWAP_PAGES, ∀ pg,
      (raidReadPage slot pg .parity (-1) s₁).1 = lastWritten (fun _ => 0) healthy slot ∧
      (raidReadPage slot pg .parity d s₂).1 =
        lastWritten (fun _ => 0) (healthy ++ degraded) slot) ∧
    (∀ calls₁ c calls₂, degraded = calls₁ ++ c :: calls₂ →
      Avoids d (writePages calls₁ d s₁) (raidWritePage c.1 c.2 .parity d (writePages calls₁ d s₁)))
    ∧ ∀ slot < MAX_SWAP_PAGES, ∀ pg, Avoids d s₂ (raidReadPage slot pg .parity d s₂).2 := by
  have hhealthy : ∀ c ∈ healthy, c.1 < MAX_SWAP_PAGES := fun c hc => hslots c (by simp [hc])
  have hdegraded : ∀ c ∈ degraded, c.1 < MAX_SWAP_PAGES := fun c hc => hslots c (by simp [hc])
  have hzero : Consistent (-1) (logical fun _ => 0) SwapDisk.zero := Consistent.zero
  have h₁ := consistent_run healthy hhealthy hzero
  have h₂ := consistent_run degraded hdegraded (h₁.fail d)
  refine ⟨fun slot hslot pg => ⟨h₁.raidReadPage hslot pg, ?_⟩, ?_, fun slot hslot pg =>
    avoids_raidReadPage d hslot pg _⟩
  · rw [h₂.raidReadPage hslot pg, lastWritten, lastWritten, lastWritten, foldl_append]
  · rintro calls₁ c calls₂ rfl
    exact avoids_raidWritePage d (hdegraded c (by simp)) c.2 _

/-- A page written before the failure of disk 2 and one written after it both survive it. -/
theorem raid5_tolerates_failure_of_disk_two :
    (raidReadPage 5 0 .parity 2 (writePages [(1023, Page.fill 7)] 2
      (writePages [(5, Page.fill 3)] (-1) SwapDisk.zero))).1 = Page.fill 3 ∧
    (raidReadPage 1023 0 .parity 2 (writePages [(1023, Page.fill 7)] 2
      (writePages [(5, Page.fill 3)] (-1) SwapDisk.zero))).1 = Page.fill 7 := by
  have hslots : ∀ c ∈ [(5, Page.fill 3)] ++ [(1023, Page.fill 7)], c.1 < MAX_SWAP_PAGES := by
    intro c hc
    simp only [mem_append, mem_singleton] at hc
    rcases hc with rfl | rfl <;> decide
  have h := (raid5_tolerates_one_failure [(5, Page.fill 3)] [(1023, Page.fill 7)] 2 hslots).1
  exact ⟨(h 5 (by decide) 0).2, (h 1023 (by decide) 0).2⟩

end Xv6.Raid
