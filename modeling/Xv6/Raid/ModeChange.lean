import Xv6.Raid.SingleFailure
import Xv6.Foundations.Transition

/-!
# Changing the RAID mode while pages are swapped out

`raid_mode` is one global that every transfer reads; a slot does not record the mode its page was
written in. `SwapStore` is the state that survives between calls: the swap region, the mode and
the `in_use` bits of the swap table. Its steps are `swap_out`, `swap_in`, the slot copy of
`uvmcopy` and accepted calls of `sys_setraidmode`.

A `Ledger` remembers, beside the state, which page each slot should hold and the mode it was
written in. The code keeps no such record, and `swapIn_after_mode_change` shows that a page is
lost when the mode changes between `swap_out` and `swap_in`.

`raid_mode_change_safe` says what is needed: if every page is read in the mode it was written in,
and no transfer writes over the stripes of a page of another mode or into a stripe whose parity
is wrong, then every `swap_in` restores its page and every page written in mode 5 survives the
failure of one disk.
-/

namespace Xv6.Raid

open Parity Function

/-! ## The swap store -/

/-- The state shared by all users of the swap region. -/
structure SwapStore where
  /-- The swap region. -/
  disk : SwapDisk
  /-- The global `raid_mode`. -/
  mode : RaidMode
  /-- `swaptable[i].in_use`. -/
  inUse : ℕ → Bool

/-- The search for a free slot in `swap_out` and `uvmcopy`. -/
def findFreeSlot (inUse : ℕ → Bool) : Option ℕ :=
  (List.range MAX_SWAP_PAGES).find? fun i => !inUse i

/-- `swap_out`: take the first free slot and write the page there. `none` is the panic
"swap space full". -/
def swapOut (pg : Page) (st : SwapStore) : Option (ℕ × SwapStore) :=
  match findFreeSlot st.inUse with
  | none => none
  | some slot =>
    some (slot, { st with
      inUse := update st.inUse slot true
      disk := raidWritePage slot pg st.mode (-1) st.disk })

/-- `swap_in`: read the slot into the frame, which held `pa`, and free the slot. -/
def swapIn (slot : ℕ) (pa : Page) (st : SwapStore) : Page × SwapStore :=
  let (pg, disk) := raidReadPage slot pa st.mode (-1) st.disk
  (pg, { st with disk := disk, inUse := update st.inUse slot false })

lemma swapIn_fst (slot : ℕ) (pa : Page) (st : SwapStore) :
    (swapIn slot pa st).1 = (raidReadPage slot pa st.mode (-1) st.disk).1 := rfl

/-- The branch of `uvmcopy` for a swapped page: take a free slot for the child, read the parent's
slot into a fresh page, which `kalloc` has filled with `5`, and write it to the child's slot.
`none` is the jump to `err` when the swap space is full. -/
def copySlot (slot : ℕ) (st : SwapStore) : Option (ℕ × SwapStore) :=
  match findFreeSlot st.inUse with
  | none => none
  | some child =>
    let (bounceBuffer, disk) := raidReadPage slot (Page.fill 5) st.mode (-1) st.disk
    some (child, { st with
      inUse := update st.inUse child true
      disk := raidWritePage child bounceBuffer st.mode (-1) disk })

/-! ## The step relation -/

/-- What each slot should hold. -/
structure Ledger where
  /-- The page last swapped out to the slot. -/
  page : ℕ → Page
  /-- The mode it was written in. -/
  writtenIn : ℕ → RaidMode

/-- Enter a page written to a slot. -/
def Ledger.write (l : Ledger) (slot : ℕ) (pg : Page) (mode : RaidMode) : Ledger where
  page := update l.page slot pg
  writtenIn := update l.writtenIn slot mode

/-- The operations on the swap store. -/
inductive SwapOp where
  /-- `swap_out` of a page with these contents. -/
  | swapOut (pg : Page)
  /-- `swap_in` of a slot. -/
  | swapIn (slot : ℕ)
  /-- The copy of a slot for a forked child. -/
  | copySlot (slot : ℕ)
  /-- `sys_setraidmode`. -/
  | setraidmode (mode : ℤ)

/-- One operation on the store. Slots come from page-table entries with `PTE_S`, so they are in
use. A copied slot should hold the page of the original. -/
inductive SwapStep : SwapStore × Ledger → SwapOp → SwapStore × Ledger → Prop
  /-- A page is swapped out. -/
  | swapOut {st st' : SwapStore} {l : Ledger} {pg : Page} {slot : ℕ}
      (h : swapOut pg st = some (slot, st')) :
      SwapStep (st, l) (.swapOut pg) (st', l.write slot pg st.mode)
  /-- A page is swapped in. -/
  | swapIn {st : SwapStore} {l : Ledger} {slot : ℕ} (hslot : slot < MAX_SWAP_PAGES)
      (huse : st.inUse slot = true) (pa : Page) :
      SwapStep (st, l) (.swapIn slot) ((swapIn slot pa st).2, l)
  /-- A slot is copied. -/
  | copySlot {st st' : SwapStore} {l : Ledger} {slot child : ℕ} (hslot : slot < MAX_SWAP_PAGES)
      (huse : st.inUse slot = true) (h : copySlot slot st = some (child, st')) :
      SwapStep (st, l) (.copySlot slot) (st', l.write child (l.page slot) st.mode)
  /-- The mode is changed. -/
  | setraidmode {st : SwapStore} {l : Ledger} {mode : ℤ} {mode' : RaidMode}
      (h : sysSetraidmode mode = some mode') :
      SwapStep (st, l) (.setraidmode mode) ({ st with mode := mode' }, l)

/-- The swap store after boot: mode 0 and no slot in use. -/
def swapSystem : TransitionSystem (SwapStore × Ledger) SwapOp where
  init t := t.1.mode = .striping ∧ ∀ slot, t.1.inUse slot = false
  step := SwapStep

/-! ## Layout of the modes -/

/-- The offset, on all the disks, at which a mode stores a logical block. -/
def offsetOf (mode : RaidMode) (lb : ℕ) : ℕ :=
  match mode with
  | .striping => lb / NUM_DISKS
  | .mirroring => lb / 2
  | .parity => stripeOffset lb
  | .mirroredStriping => lb / (NUM_DISKS / 2)

/-- The disk from which a mode reads a logical block when all disks are healthy. -/
def homeDisk (mode : RaidMode) (lb : ℕ) : ℕ :=
  match mode with
  | .striping => lb % NUM_DISKS
  | .mirroring => 2 * (lb % 2)
  | .parity => dataDisk lb
  | .mirroredStriping => 2 * (lb % (NUM_DISKS / 2))

/-- The page of `slot` in one mode and the page of `slot'` in another share a stripe. -/
def Overlap (mode : RaidMode) (slot : ℕ) (mode' : RaidMode) (slot' : ℕ) : Prop :=
  ∃ i j : Fin SWAP_BLOCKS_PER_PAGE, offsetOf mode (slot * 4 + i) = offsetOf mode' (slot' * 4 + j)

/-- The slot about to be written is clear: no page of another mode lies on its stripes and, in
mode 5, the parity of its stripes is right. -/
def ClearToWrite (st : SwapStore) (l : Ledger) (slot : ℕ) : Prop :=
  (∀ other, st.inUse other = true → l.writtenIn other ≠ st.mode →
    ¬Overlap st.mode slot (l.writtenIn other) other) ∧
  (st.mode = .parity → ∀ i : Fin SWAP_BLOCKS_PER_PAGE,
    IsBalanced (stripe st.disk (stripeOffset (slot * 4 + i))) disks)

/-- The condition on one step, in terms of the state before it: a slot is read in the mode it was
written in, and the slot that gets a page is clear. -/
def SwapSafe (t : SwapStore × Ledger) : SwapOp → Prop
  | .swapOut _ => ∀ slot, findFreeSlot t.1.inUse = some slot → ClearToWrite t.1 t.2 slot
  | .swapIn slot => t.2.writtenIn slot = t.1.mode
  | .copySlot slot => t.2.writtenIn slot = t.1.mode ∧
      ∀ child, findFreeSlot t.1.inUse = some child → ClearToWrite t.1 t.2 child
  | .setraidmode _ => True

/-! ## What a transfer does to the other stripes -/

lemma offsetOf_lt_of_slot (mode : RaidMode) {slot : ℕ} (hslot : slot < MAX_SWAP_PAGES)
    (i : Fin SWAP_BLOCKS_PER_PAGE) : offsetOf mode (slot * 4 + i) < SIM_DISK_SIZE := by
  have hi : i.val < 4 := i.isLt
  have hlt : slot < 1024 := hslot
  change _ < 10000
  cases mode with
  | parity => exact stripeOffset_lt_of_slot hslot i
  | striping | mirroring | mirroredStriping =>
    simp only [offsetOf, NUM_DISKS]
    omega

lemma home_inj (mode : RaidMode) {lb lb' : ℕ} (ho : offsetOf mode lb = offsetOf mode lb')
    (hd : homeDisk mode lb = homeDisk mode lb') : lb = lb' := by
  cases mode with
  | parity => exact dataDisk_inj ho hd
  | striping | mirroring | mirroredStriping =>
    simp only [offsetOf, homeDisk, NUM_DISKS] at ho hd
    omega

lemma readBlock_healthy (mode : RaidMode) (lb : ℕ) (s : SwapDisk) :
    (readBlock mode (-1) lb s).1 = stripe s (offsetOf mode lb) (homeDisk mode lb) := by
  cases mode with
  | striping | mirroring => rfl
  | parity => rw [readBlock, readParity_fst, failedPos_neg_one, readThrough_none]; rfl
  | mirroredStriping => rfl

private lemma stripe_writeMirrored (pair : ℕ) {offset o : ℕ} (c : Block) (s : SwapDisk)
    (hoff : offset < SIM_DISK_SIZE) (ho : o < SIM_DISK_SIZE) :
    stripe (writeMirrored pair offset c (-1) s) o =
      if o = offset then
        update (update (stripe s offset) (2 * pair) c) (2 * pair + 1) c
      else stripe s o := by
  have hA : ((2 * pair : ℕ) : ℤ) ≠ -1 := by omega
  have hB : ((2 * pair + 1 : ℕ) : ℤ) ≠ -1 := by omega
  unfold writeMirrored
  rw [if_pos hB, if_pos hA, stripe_bwrite _ _ _ hoff ho]
  split_ifs with h
  · rw [stripe_bwrite _ _ _ hoff hoff, if_pos rfl]
  · rw [stripe_bwrite _ _ _ hoff ho, if_neg h]

/-- A healthy block write in any mode changes one stripe: the block is on its home disk, and the
other logical blocks of that mode keep theirs. -/
private theorem exists_stripe_writeBlock (mode : RaidMode) (lb : ℕ) (c : Block) (s : SwapDisk)
    (hlb : offsetOf mode lb < SIM_DISK_SIZE) :
    ∃ f : ℕ → Block,
      (∀ o < SIM_DISK_SIZE, stripe (writeBlock mode (-1) lb c s) o =
        if o = offsetOf mode lb then f else stripe s o) ∧
      f (homeDisk mode lb) = c ∧
      ∀ lb', offsetOf mode lb' = offsetOf mode lb → lb' ≠ lb →
        f (homeDisk mode lb') = stripe s (offsetOf mode lb) (homeDisk mode lb') := by
  have hne : ∀ lb', offsetOf mode lb' = offsetOf mode lb → lb' ≠ lb →
      homeDisk mode lb' ≠ homeDisk mode lb := fun lb' ho hlb' hd => hlb' (home_inj mode ho hd)
  -- two positions written, the first of them the home disk of `lb`
  have hfst : ∀ (f : ℕ → Block) (i p : ℕ) (x : Block), i ≠ p →
      update (update f i c) p x i = c := by
    intro f i p x hip
    rw [update_of_ne hip, update_self]
  have hrest : ∀ (f : ℕ → Block) (i p j : ℕ) (x : Block), j ≠ i → j ≠ p →
      update (update f i c) p x j = f j := by
    intro f i p j x hji hjp
    rw [update_of_ne hjp, update_of_ne hji]
  cases mode with
  | striping =>
    have hok : ((lb % NUM_DISKS : ℕ) : ℤ) ≠ -1 := by omega
    refine ⟨update (stripe s (lb / NUM_DISKS)) (lb % NUM_DISKS) c, fun o ho => ?_, ?_, ?_⟩
    · simp only [writeBlock]
      rw [if_pos hok]
      exact stripe_bwrite s _ c hlb ho
    · exact update_self ..
    · intro lb' ho hlb'
      exact update_of_ne (hne lb' ho hlb') ..
  | parity =>
    have hd : (-1 : ℤ) ≠ dataDisk lb := by omega
    have hp : (-1 : ℤ) ≠ parityDisk (stripeOffset lb) := by omega
    refine ⟨_, fun o ho => stripe_writeParity lb c (-1) s hlb ho, ?_, fun lb' ho hlb' => ?_⟩
    · simp only [stripeAfterWrite, hd, hp, if_false]
      exact hfst _ _ _ _ (dataDisk_ne_parityDisk lb)
    · simp only [stripeAfterWrite, hd, hp, if_false]
      have hpar : dataDisk lb' ≠ parityDisk (stripeOffset lb) := by
        have ho' : stripeOffset lb' = stripeOffset lb := ho
        rw [← ho']
        exact dataDisk_ne_parityDisk lb'
      exact hrest _ _ _ _ _ (hne lb' ho hlb') hpar
  | mirroring | mirroredStriping =>
    refine ⟨_, fun o ho => stripe_writeMirrored _ c s hlb ho, ?_, fun lb' ho hlb' => ?_⟩
    · exact hfst _ _ _ _ (by omega)
    · exact hrest _ _ _ _ _ (hne lb' ho hlb') (by simp only [homeDisk]; omega)

lemma stripe_writeBlock_of_ne (mode : RaidMode) {lb : ℕ} (c : Block) (s : SwapDisk)
    (hlb : offsetOf mode lb < SIM_DISK_SIZE) {o : ℕ} (ho : o < SIM_DISK_SIZE)
    (hne : o ≠ offsetOf mode lb) : stripe (writeBlock mode (-1) lb c s) o = stripe s o := by
  obtain ⟨f, hf, -, -⟩ := exists_stripe_writeBlock mode lb c s hlb
  rw [hf o ho, if_neg hne]

/-- A healthy block write stores the block and keeps the other logical blocks of its mode. -/
theorem stripe_writeBlock_home (mode : RaidMode) {lb lb' : ℕ} (c : Block) (s : SwapDisk)
    (hlb : offsetOf mode lb < SIM_DISK_SIZE) (hlb' : offsetOf mode lb' < SIM_DISK_SIZE) :
    stripe (writeBlock mode (-1) lb c s) (offsetOf mode lb') (homeDisk mode lb') =
      if lb' = lb then c else stripe s (offsetOf mode lb') (homeDisk mode lb') := by
  obtain ⟨f, hf, hself, hother⟩ := exists_stripe_writeBlock mode lb c s hlb
  rw [hf _ hlb']
  by_cases h : lb' = lb
  · subst h
    rw [if_pos rfl, if_pos rfl, hself]
  · rw [if_neg h]
    split_ifs with ho
    · rw [hother lb' ho h, ho]
    · rfl

lemma readBlock_writeBlock (mode : RaidMode) {lb lb' : ℕ} (c : Block) (s : SwapDisk)
    (hlb : offsetOf mode lb < SIM_DISK_SIZE) (hlb' : offsetOf mode lb' < SIM_DISK_SIZE) :
    (readBlock mode (-1) lb' (writeBlock mode (-1) lb c s)).1 =
      if lb' = lb then c else (readBlock mode (-1) lb' s).1 := by
  rw [readBlock_healthy, readBlock_healthy, stripe_writeBlock_home mode c s hlb hlb']

lemma isBalanced_writeParity {lb : ℕ} (c : Block) (s : SwapDisk)
    (hlb : stripeOffset lb < SIM_DISK_SIZE) {o : ℕ} (ho : o < SIM_DISK_SIZE)
    (h : IsBalanced (stripe s o) disks) :
    IsBalanced (stripe (writeParity lb c (-1) s) o) disks := by
  rw [stripe_writeParity lb c (-1) s hlb ho]
  split_ifs with ho'
  · subst ho'
    exact isBalanced_stripeAfterWrite lb c h
  · exact h

/-! ## What a page write does -/

section PageWrite

variable (mode : RaidMode) {slot : ℕ} (hslot : slot < MAX_SWAP_PAGES) (pg : Page) (s : SwapDisk)
include hslot

lemma stripe_raidWritePage_of_ne {o : ℕ} (ho : o < SIM_DISK_SIZE)
    (hne : ∀ i : Fin SWAP_BLOCKS_PER_PAGE, o ≠ offsetOf mode (slot * 4 + i)) :
    stripe (raidWritePage slot pg mode (-1) s) o = stripe s o := by
  unfold raidWritePage
  induction List.finRange SWAP_BLOCKS_PER_PAGE generalizing s with
  | nil => rfl
  | cons i l ih =>
    rw [List.foldl_cons, ih]
    exact stripe_writeBlock_of_ne mode _ s (offsetOf_lt_of_slot mode hslot i) ho (hne i)

/-- A page write stores the four blocks and keeps the other logical blocks of its mode. -/
theorem stripe_raidWritePage_home {lb : ℕ} (hlb : offsetOf mode lb < SIM_DISK_SIZE) :
    stripe (raidWritePage slot pg mode (-1) s) (offsetOf mode lb) (homeDisk mode lb) =
      writeLogical slot pg (fun lb => stripe s (offsetOf mode lb) (homeDisk mode lb)) lb := by
  have hloop : ∀ (l : List (Fin SWAP_BLOCKS_PER_PAGE)) (s : SwapDisk) (L : ℕ → Block),
      (∀ lb, offsetOf mode lb < SIM_DISK_SIZE →
        stripe s (offsetOf mode lb) (homeDisk mode lb) = L lb) →
      ∀ lb, offsetOf mode lb < SIM_DISK_SIZE →
        stripe (l.foldl (fun s (i : Fin SWAP_BLOCKS_PER_PAGE) =>
          writeBlock mode (-1) (slot * 4 + i) (pg.block i) s) s) (offsetOf mode lb)
            (homeDisk mode lb) =
          l.foldl (fun L (i : Fin SWAP_BLOCKS_PER_PAGE) =>
            update L (slot * 4 + i) (pg.block i)) L lb := by
    intro l
    induction l with
    | nil => exact fun s L hL => hL
    | cons i l ih =>
      intro s L hL
      refine ih _ _ fun lb hlb => ?_
      rw [stripe_writeBlock_home mode _ s (offsetOf_lt_of_slot mode hslot i) hlb, hL lb hlb]
      exact (update_apply ..).symm
  rw [← foldl_update_eq_writeLogical]
  exact hloop _ s _ (fun _ _ => rfl) lb hlb

lemma isBalanced_raidWritePage {o : ℕ} (ho : o < SIM_DISK_SIZE)
    (h : IsBalanced (stripe s o) disks) :
    IsBalanced (stripe (raidWritePage slot pg .parity (-1) s) o) disks := by
  unfold raidWritePage
  induction List.finRange SWAP_BLOCKS_PER_PAGE generalizing s with
  | nil => exact h
  | cons i l ih =>
    exact ih _ (isBalanced_writeParity _ s (stripeOffset_lt_of_slot hslot i) ho h)

end PageWrite

/-! ## The invariant -/

/-- The disk holds the page of `slot` as `mode` lays it out, with the right parity in mode 5. -/
structure Holds (s : SwapDisk) (mode : RaidMode) (slot : ℕ) (pg : Page) : Prop where
  data : ∀ i : Fin SWAP_BLOCKS_PER_PAGE,
    stripe s (offsetOf mode (slot * 4 + i)) (homeDisk mode (slot * 4 + i)) = pg.block i
  parity : mode = .parity → ∀ i : Fin SWAP_BLOCKS_PER_PAGE,
    IsBalanced (stripe s (stripeOffset (slot * 4 + i))) disks

namespace Holds

variable {s : SwapDisk} {mode : RaidMode} {slot : ℕ} {pg : Page}

lemma raidReadPage (h : Holds s mode slot pg) (pa : Page) :
    (Raid.raidReadPage slot pa mode (-1) s).1 = pg := by
  apply Page.ext_block
  intro i
  rw [raidReadPage_block, readBlock_healthy, h.data i]

/-- A page that the disk holds in mode 5 is read back whichever disk fails. -/
theorem raidReadPage_failed (h : Holds s .parity slot pg) (pa : Page) (d : ℕ) :
    (Raid.raidReadPage slot pa .parity d s).1 = pg := by
  apply Page.ext_block
  intro i
  have hread : (readBlock .parity d (slot * 4 + i) s).1 =
      (readParity (slot * 4 + i) d s).1 := rfl
  rw [raidReadPage_block, hread, readParity_fst,
    readThrough_of_balanced disks_nodup (h.parity rfl i) _ (mem_disks.mpr (dataDisk_lt _))]
  exact h.data i

lemma of_blocks_eq (h : Holds s mode slot pg) {s' : SwapDisk} (hs : s'.blocks = s.blocks) :
    Holds s' mode slot pg := by
  have hstripe : stripe s' = stripe s := by
    funext o d
    exact congrFun hs _
  exact ⟨by rw [hstripe]; exact h.data, by rw [hstripe]; exact h.parity⟩

/-- Writing a page to a slot whose stripes have the right parity makes the disk hold it. -/
theorem of_write (hslot : slot < MAX_SWAP_PAGES) (pg : Page)
    (hbal : mode = .parity → ∀ i : Fin SWAP_BLOCKS_PER_PAGE,
      IsBalanced (stripe s (stripeOffset (slot * 4 + i))) disks) :
    Holds (raidWritePage slot pg mode (-1) s) mode slot pg where
  data i := by
    rw [stripe_raidWritePage_home mode hslot pg s (offsetOf_lt_of_slot mode hslot i),
      writeLogical_slot, if_pos rfl]
  parity hm i := by
    subst hm
    exact isBalanced_raidWritePage hslot pg s (stripeOffset_lt_of_slot hslot i) (hbal rfl i)

/-- A page write to another slot keeps what the disk holds, if it is in the same mode or on
other stripes. -/
theorem write_other (h : Holds s mode slot pg) (hslot : slot < MAX_SWAP_PAGES) {mode' : RaidMode}
    {slot' : ℕ} (hslot' : slot' < MAX_SWAP_PAGES) (hne : slot ≠ slot') (pg' : Page)
    (hclear : mode ≠ mode' → ¬Overlap mode' slot' mode slot) :
    Holds (raidWritePage slot' pg' mode' (-1) s) mode slot pg := by
  by_cases hm : mode = mode'
  · subst hm
    refine ⟨fun i => ?_, ?_⟩
    · rw [stripe_raidWritePage_home mode hslot' pg' s (offsetOf_lt_of_slot mode hslot i),
        writeLogical_slot, if_neg hne]
      exact h.data i
    · rintro rfl i
      exact isBalanced_raidWritePage hslot' pg' s (stripeOffset_lt_of_slot hslot i)
        (h.parity rfl i)
  · -- no stripe of this page is touched
    have hstripe : ∀ i : Fin SWAP_BLOCKS_PER_PAGE,
        stripe (raidWritePage slot' pg' mode' (-1) s) (offsetOf mode (slot * 4 + i)) =
          stripe s (offsetOf mode (slot * 4 + i)) := fun i =>
      stripe_raidWritePage_of_ne mode' hslot' pg' s (offsetOf_lt_of_slot mode hslot i)
        fun j hj => hclear hm ⟨j, i, hj.symm⟩
    refine ⟨fun i => by rw [hstripe]; exact h.data i, ?_⟩
    rintro rfl i
    have hbal := h.parity rfl i
    exact (hstripe i).symm ▸ hbal

end Holds

/-- Every slot in use holds the page it should, in the mode the page was written in. -/
def Intact (t : SwapStore × Ledger) : Prop :=
  ∀ slot < MAX_SWAP_PAGES, t.1.inUse slot = true →
    Holds t.1.disk (t.2.writtenIn slot) slot (t.2.page slot)

lemma findFreeSlot_lt {inUse : ℕ → Bool} {slot : ℕ} (h : findFreeSlot inUse = some slot) :
    slot < MAX_SWAP_PAGES := by
  unfold findFreeSlot at h
  exact List.mem_range.mp (List.mem_of_find?_eq_some h)

lemma findFreeSlot_free {inUse : ℕ → Bool} {slot : ℕ} (h : findFreeSlot inUse = some slot) :
    inUse slot = false := by
  unfold findFreeSlot at h
  simpa using List.find?_some h

/-- Writing a page to a clear slot keeps the store intact. -/
theorem Intact.write {st : SwapStore} {l : Ledger} (h : Intact (st, l)) {slot : ℕ}
    (hslot : slot < MAX_SWAP_PAGES) (hclear : ClearToWrite st l slot) (pg : Page)
    {s : SwapDisk} (hs : s.blocks = st.disk.blocks) :
    Intact ({ st with
      inUse := update st.inUse slot true
      disk := raidWritePage slot pg st.mode (-1) s }, l.write slot pg st.mode) := by
  have hstripe : stripe s = stripe st.disk := by
    funext o d
    exact congrFun hs _
  intro other hother huse
  simp only [Ledger.write]
  by_cases ho : other = slot
  · subst ho
    simp only [update_self]
    refine Holds.of_write hother pg ?_
    rw [hstripe]
    exact hclear.2
  · simp only [update_of_ne ho] at huse ⊢
    exact ((h other hother huse).of_blocks_eq hs).write_other hother hslot ho pg
      (hclear.1 other huse)

lemma Intact.step {t t' : SwapStore × Ledger} {op : SwapOp} (h : Intact t)
    (hsafe : SwapSafe t op) (hstep : SwapStep t op t') : Intact t' := by
  cases hstep with
  | @swapOut st st' l pg slot hout =>
    unfold Raid.swapOut at hout
    split at hout
    · cases hout
    · next hfree =>
      cases hout
      exact h.write (findFreeSlot_lt hfree) (hsafe _ hfree) pg rfl
  | @swapIn st l slot hslot huse pa =>
    -- reading leaves the disk alone; the slot read is free afterwards
    intro other hother huse'
    have hne : other ≠ slot := by
      rintro rfl
      simp [Raid.swapIn] at huse'
    have huse'' : st.inUse other = true := by
      simpa [Raid.swapIn, hne] using huse'
    exact (h other hother huse'').of_blocks_eq (raidReadPage_blocks slot pa st.mode (-1) st.disk)
  | @copySlot st st' l slot child hslot huse hcopy =>
    unfold Raid.copySlot at hcopy
    split at hcopy
    · cases hcopy
    · next hfree =>
      cases hcopy
      -- the page read from the parent's slot is the page the ledger has for it
      have hheld : Holds st.disk st.mode slot (l.page slot) := hsafe.1 ▸ h slot hslot huse
      rw [← hheld.raidReadPage (Page.fill 5)]
      exact h.write (findFreeSlot_lt hfree) (hsafe.2 _ hfree) _
        (raidReadPage_blocks slot (Page.fill 5) st.mode (-1) st.disk)
  | setraidmode _ => exact h

/-- **Mode changes are safe under `SwapSafe`.** In every run from boot in which each page is read
in the mode it was written in, and no transfer writes over a page of another mode or into a
stripe with wrong parity, every `swap_in` restores the page swapped out to its slot, and in mode 5
every page written in mode 5 can be reconstructed whichever disk fails. -/
theorem raid_mode_change_safe {t : SwapStore × Ledger}
    (h : (swapSystem.restrict SwapSafe).Reachable t) :
    (∀ slot < MAX_SWAP_PAGES, t.1.inUse slot = true → SwapSafe t (.swapIn slot) →
      ∀ pa, (swapIn slot pa t.1).1 = t.2.page slot) ∧
    (t.1.mode = .parity → ∀ slot < MAX_SWAP_PAGES, t.1.inUse slot = true →
      t.2.writtenIn slot = .parity → ∀ d < NUM_DISKS, ∀ pa,
        (raidReadPage slot pa .parity d t.1.disk).1 = t.2.page slot) := by
  have hintact : Intact t := by
    refine h.invariant (fun t ht slot _ huse => ?_)
      fun t op t' _ hI hstep => hI.step hstep.1 hstep.2
    rw [ht.2 slot] at huse
    cases huse
  refine ⟨fun slot hslot huse hsafe pa => ?_, fun _ slot hslot huse hw d _ pa => ?_⟩
  · have hheld := hintact slot hslot huse
    rw [show t.2.writtenIn slot = t.1.mode from hsafe] at hheld
    exact hheld.raidReadPage pa
  · have hheld := hintact slot hslot huse
    rw [hw] at hheld
    exact hheld.raidReadPage_failed pa d

/-! ## A mode change that loses a page -/

/-- The swap store after boot, on an all-zero device. -/
def bootStore : SwapStore :=
  { disk := SwapDisk.zero, mode := .striping, inUse := fun _ => false }

/-- The store after `swap_out` of a page of sevens in mode 0, with the mode then set to `mode`. -/
def sevensStored (mode : RaidMode) : SwapStore × Ledger :=
  ({ disk := raidWritePage 0 (Page.fill 7) .striping (-1) SwapDisk.zero
     mode := mode
     inUse := update (fun _ => false) 0 true },
    Ledger.write { page := fun _ => 0, writtenIn := fun _ => .striping } 0 (Page.fill 7) .striping)

lemma findFreeSlot_none_inUse : findFreeSlot (fun _ => false) = some 0 := by
  unfold findFreeSlot MAX_SWAP_PAGES
  rw [List.range_succ_eq_map]
  rfl

lemma swapStep_swapOut_sevens :
    SwapStep (bootStore, { page := fun _ => 0, writtenIn := fun _ => .striping })
      (.swapOut (Page.fill 7)) (sevensStored .striping) := by
  refine SwapStep.swapOut ?_
  unfold swapOut
  rw [show bootStore.inUse = fun _ => false from rfl, findFreeSlot_none_inUse]
  rfl

lemma swapStep_setraidmode {n : ℤ} {mode' : RaidMode} (h : sysSetraidmode n = some mode')
    (mode : RaidMode) : SwapStep (sevensStored mode) (.setraidmode n) (sevensStored mode') :=
  .setraidmode h

/-- Boot, swap out a page of sevens in mode 0, set mode 1, swap the page in: its third block is
now looked for at offset 1 of disk 0, which was never written. -/
theorem swapIn_after_mode_change :
    swapSystem.Reachable (sevensStored .mirroring) ∧
    (sevensStored .mirroring).1.inUse 0 = true ∧
    ∀ pa, (swapIn 0 pa (sevensStored .mirroring).1).1 ≠ (sevensStored .mirroring).2.page 0 := by
  refine ⟨?_, rfl, fun pa hpa => ?_⟩
  · have hboot : swapSystem.Reachable
        (bootStore, { page := fun _ => 0, writtenIn := fun _ => .striping }) :=
      .init ⟨rfl, fun _ => rfl⟩
    exact (hboot.step swapStep_swapOut_sevens).step (swapStep_setraidmode (n := 1) rfl _)
  · have hread : (swapIn 0 pa (sevensStored .mirroring).1).1.block ⟨2, by decide⟩ = 0 := by
      have hoff : offsetOf (sevensStored .mirroring).1.mode (0 * 4 + 2) = 1 := rfl
      rw [swapIn_fst, raidReadPage_block, readBlock_healthy, hoff]
      unfold sevensStored
      rw [stripe_raidWritePage_of_ne .striping (by decide) _ _ (by decide) (by decide)]
      rfl
    rw [hpa] at hread
    -- the first byte of the third block of the page of sevens
    have hbyte := congrFun hread (⟨0, by decide⟩ : Fin BSIZE)
    exact absurd hbyte (by decide)

/-- The same page survives two mode changes if mode 0 is back before it is swapped in. -/
theorem swapIn_after_mode_restored :
    (swapIn 0 (Page.fill 5) (sevensStored .striping).1).1 = Page.fill 7 := by
  have hboot : (swapSystem.restrict SwapSafe).Reachable
      (bootStore, { page := fun _ => 0, writtenIn := fun _ => .striping }) :=
    .init ⟨rfl, fun _ => rfl⟩
  have hclear : SwapSafe (bootStore, { page := fun _ => 0, writtenIn := fun _ => .striping })
      (.swapOut (Page.fill 7)) := by
    intro slot _
    refine ⟨fun other huse => ?_, fun hm => ?_⟩
    · cases huse
    · cases hm
  have hset : ∀ t mode, SwapSafe t (.setraidmode mode) := fun _ _ => trivial
  have hout := hboot.step ⟨hclear, swapStep_swapOut_sevens⟩
  have hmirror := hout.step ⟨hset _ _, swapStep_setraidmode (n := 1) rfl _⟩
  have hback := hmirror.step ⟨hset _ _, swapStep_setraidmode (n := 0) rfl _⟩
  exact (raid_mode_change_safe hback).1 0 (by decide) rfl rfl (Page.fill 5)

end Xv6.Raid
