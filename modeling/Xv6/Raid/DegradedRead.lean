import Xv6.Raid.Deadlock

/-!
# A degraded read and concurrent writes

A block on the failed disk is read by adding up the other blocks of its stripe, one buffer after the
other. A write to another slot changes a data block and the parity block of the same stripe. It
holds both buffers while it does so, but the reader does not hold the stripe: if it has read the one
block before the write and reads the other one after it, the sum is wrong.

Writers keep the sum of the blocks in `Readable`, taken over the contents in which a pair of writes
counts as one (`PairWrite`). The read is right if at every write to a data block the reader has
still to read both that block and the parity block of its stripe, or neither (`ReadsBothOrNeither`).
-/

namespace Xv6.Raid

open Parity Function List

/-! ## Stripes -/

/-- The blocks of a stripe by disk. -/
def column (g : ℕ → Block) (offset : ℕ) (disk : ℕ) : Block := g (diskBlock disk offset)

lemma column_update (g : ℕ → Block) (e : ℕ) (c : Block) {o o' : ℕ} (ho : o < SIM_DISK_SIZE)
    (ho' : o' < SIM_DISK_SIZE) :
    column (update g (diskBlock e o) c) o' =
      if o' = o then update (column g o) e c else column g o' := by
  funext e'
  simp only [column, update_apply, diskBlock_inj ho' ho]
  by_cases h : o' = o
  · subst h
    simp [update_apply, column]
  · simp [h, column]

/-- The disks that work when disk `d` has failed. -/
def survivors (d : ℕ) : List ℕ := (List.range NUM_DISKS).filter fun (e : ℕ) => ¬((e : ℤ) = d)

lemma mem_survivors {d e : ℕ} : e ∈ survivors d ↔ e < NUM_DISKS ∧ e ≠ d := by
  simp [survivors]

lemma survivors_nodup (d : ℕ) : (survivors d).Nodup := nodup_range.filter _

lemma survivors_eq (d : ℕ) : survivors d = disks.filter (· ≠ d) := by
  refine filter_congr fun e _ => ?_
  simp

/-- The block on disk of a logical block, and the parity block of its stripe. -/
def dataBlock (lb : ℕ) : ℕ := diskBlock (dataDisk lb) (stripeOffset lb)

def parityBlock (lb : ℕ) : ℕ := diskBlock (parityDisk (stripeOffset lb)) (stripeOffset lb)

lemma dataBlock_ne_parityBlock {lb : ℕ} (h : stripeOffset lb < SIM_DISK_SIZE) :
    dataBlock lb ≠ parityBlock lb := fun heq =>
  dataDisk_ne_parityDisk lb ((diskBlock_inj h h).mp heq).1

/-- A data block and the parity of its stripe change together. -/
def pairWrite (lb : ℕ) (c : Block) (g : ℕ → Block) : ℕ → Block :=
  update (update g (dataBlock lb) c) (parityBlock lb)
    (g (parityBlock lb) ^^^ (g (dataBlock lb) ^^^ c))

lemma column_pairWrite (lb : ℕ) (c : Block) (g : ℕ → Block) {o : ℕ}
    (hlb : stripeOffset lb < SIM_DISK_SIZE) (ho : o < SIM_DISK_SIZE) :
    column (pairWrite lb c g) o =
      if o = stripeOffset lb then
        update (update (column g o) (dataDisk lb) c)
          (parityDisk o) (column g o (parityDisk o) ^^^ (column g o (dataDisk lb) ^^^ c))
      else column g o := by
  unfold pairWrite
  rw [parityBlock, column_update _ _ _ hlb ho]
  by_cases h : o = stripeOffset lb
  · subst h
    rw [if_pos rfl, if_pos rfl, dataBlock, column_update _ _ _ hlb hlb, if_pos rfl]
    rfl
  · rw [if_neg h, if_neg h, dataBlock, column_update _ _ _ hlb ho, if_neg h]

/-- A pair of writes does not change the sum over a list with both disks or with neither. -/
theorem xorOver_pairWrite {lb : ℕ} (c : Block) (g : ℕ → Block) {o : ℕ} {l : List ℕ}
    (hlb : stripeOffset lb < SIM_DISK_SIZE) (ho : o < SIM_DISK_SIZE) (hl : l.Nodup)
    (hboth : o = stripeOffset lb → (dataDisk lb ∈ l ↔ parityDisk o ∈ l)) :
    xorOver (column (pairWrite lb c g) o) l = xorOver (column g o) l := by
  rw [column_pairWrite lb c g hlb ho]
  split_ifs with h
  · have hne : dataDisk lb ≠ parityDisk o := by
      rw [h]
      exact dataDisk_ne_parityDisk lb
    by_cases hd : dataDisk lb ∈ l
    · exact xorOver_update_subtract _ hl hd ((hboth h).mp hd) hne c
    · have hp : parityDisk o ∉ l := fun hp => hd ((hboth h).mpr hp)
      rw [xorOver_update_of_notMem _ _ hp, xorOver_update_of_notMem _ _ hd]
  · rfl

/-! ## The slot that is read -/

section Slot

variable (d r : ℕ) (pages : ℕ → Page)

/-- Slot `r` can be read from the contents `g` although disk `d` has failed. -/
structure Readable (g : ℕ → Block) : Prop where
  direct : ∀ i : Fin SWAP_BLOCKS_PER_PAGE, dataDisk (r * 4 + i) ≠ d →
    g (dataBlock (r * 4 + i)) = (pages r).block i
  lost : ∀ i : Fin SWAP_BLOCKS_PER_PAGE, dataDisk (r * 4 + i) = d →
    xorOver (column g (stripeOffset (r * 4 + i))) (survivors d) = (pages r).block i

/-- No read of slot `r` uses block `b`. -/
def Harmless (b : ℕ) : Prop :=
  ∀ i : Fin SWAP_BLOCKS_PER_PAGE, b ≠ dataBlock (r * 4 + i) ∧
    (dataDisk (r * 4 + i) = d → ∀ e, b ≠ diskBlock e (stripeOffset (r * 4 + i)))

/-- A block of another slot, stored on a stripe whose data disk and parity disk work. -/
structure OtherSlot (lb : ℕ) : Prop where
  bound : stripeOffset lb < SIM_DISK_SIZE
  ne : ∀ i : Fin SWAP_BLOCKS_PER_PAGE, r * 4 + i ≠ lb
  data : dataDisk lb ≠ d
  parity : parityDisk (stripeOffset lb) ≠ d

variable {d r pages} {g : ℕ → Block} {lb b : ℕ} {c : Block}

lemma Readable.harmless (hg : Readable d r pages g) (hb : Harmless d r b) :
    Readable d r pages (update g b c) where
  direct i hi := by
    rw [update_of_ne (hb i).1.symm]
    exact hg.direct i hi
  lost i hi := by
    rw [← hg.lost i hi]
    refine xorOver_congr fun e _ => ?_
    exact update_of_ne ((hb i).2 hi e).symm _ _

/-- The data block of another slot is not a block of slot `r`, and neither is a parity block. -/
theorem OtherSlot.dataBlock_ne (hlb : OtherSlot d r lb) (hr : r < MAX_SWAP_PAGES)
    (i : Fin SWAP_BLOCKS_PER_PAGE) :
    dataBlock (r * 4 + i) ≠ dataBlock lb ∧ dataBlock (r * 4 + i) ≠ parityBlock lb := by
  have hoff := stripeOffset_lt_of_slot hr i
  constructor
  · intro heq
    obtain ⟨hd, ho⟩ := (diskBlock_inj hoff hlb.bound).mp heq
    exact hlb.ne i (dataDisk_inj ho hd)
  · intro heq
    obtain ⟨hd, ho⟩ := (diskBlock_inj hoff hlb.bound).mp heq
    rw [← ho] at hd
    exact dataDisk_ne_parityDisk _ hd

lemma Readable.pairWrite (hg : Readable d r pages g) (hr : r < MAX_SWAP_PAGES)
    (hlb : OtherSlot d r lb) : Readable d r pages (pairWrite lb c g) where
  direct i hi := by
    obtain ⟨hdata, hparity⟩ := hlb.dataBlock_ne hr i
    rw [Raid.pairWrite, update_of_ne hparity, update_of_ne hdata]
    exact hg.direct i hi
  lost i hi := by
    rw [xorOver_pairWrite c g hlb.bound (stripeOffset_lt_of_slot hr i) (survivors_nodup d)]
    · exact hg.lost i hi
    · intro ho
      refine iff_of_true (mem_survivors.mpr ⟨dataDisk_lt lb, hlb.data⟩)
        (mem_survivors.mpr ⟨parityDisk_lt _, ?_⟩)
      rw [ho]
      exact hlb.parity

end Slot

/-! ## Writers -/

/-- A thread of a writer, which holds buffers with the contents `held`: it writes only blocks that
it holds, and either no read of slot `r` uses the block or a data block is written together with the
parity block of its stripe. -/
inductive Keeps (d r : ℕ) : (ℕ → Option Block) → Thread ℕ Block (Option Page) → Prop
  | ret {held : ℕ → Option Block} (a : Option Page) : Keeps d r held (.ret a)
  | acquire {held : ℕ → Option Block} {b : ℕ} {k : Block → Thread ℕ Block (Option Page)}
      (h : ∀ v, Keeps d r (update held b (some v)) (k v)) : Keeps d r held (.acquire b k)
  | release {held : ℕ → Option Block} {b : ℕ} {k : Thread ℕ Block (Option Page)}
      (hb : (held b).isSome) (h : Keeps d r (update held b none) k) :
      Keeps d r held (.release b k)
  | write {held : ℕ → Option Block} {b : ℕ} {c : Block} {k : Thread ℕ Block (Option Page)}
      (hb : (held b).isSome) (hharmless : Harmless d r b)
      (h : Keeps d r (update held b (some c)) k) : Keeps d r held (.write b c k)
  | pair {held : ℕ → Option Block} {lb : ℕ} {c oldData oldParity : Block}
      {k : Thread ℕ Block (Option Page)} (hlb : OtherSlot d r lb)
      (hdata : held (dataBlock lb) = some oldData)
      (hparity : held (parityBlock lb) = some oldParity)
      (h : Keeps d r (update (update held (dataBlock lb) (some c)) (parityBlock lb)
        (some (oldParity ^^^ (oldData ^^^ c)))) k) :
      Keeps d r held
        (.write (dataBlock lb) c (.write (parityBlock lb) (oldParity ^^^ (oldData ^^^ c)) k))

/-- The loop over the other disks ends with the buffers that were held before. -/
theorem keeps_xorOthersThread {d r : ℕ} (o : ℕ) (l : List ℕ)
    {K : Block → Thread ℕ Block (Option Page)} (acc : Block) (held : ℕ → Option Block)
    (hK : ∀ acc' held', (∀ b, (∀ e ∈ l, b ≠ diskBlock e o) → held' b = held b) →
      Keeps d r held' (K acc')) : Keeps d r held (xorOthersThread o l acc >>= K) := by
  induction l generalizing acc held with
  | nil => exact hK acc held fun _ _ => rfl
  | cons e l ih =>
    refine .acquire fun v => .release (by simp) (ih _ _ fun acc' held' hsame => hK acc' held' ?_)
    intro b hb
    have hbe : b ≠ diskBlock e o := hb e mem_cons_self
    rw [hsame b fun e' he' => hb e' (mem_cons_of_mem _ he'), update_of_ne hbe, update_of_ne hbe]

/-- A block of another slot than `r`. -/
structure Elsewhere (r lb : ℕ) : Prop where
  bound : stripeOffset lb < SIM_DISK_SIZE
  ne : ∀ i : Fin SWAP_BLOCKS_PER_PAGE, r * 4 + i ≠ lb

/-- Both blocks of a pair are written and given back. -/
theorem keeps_pair {d r lb : ℕ} {held : ℕ → Option Block} {c u v : Block}
    {t : Thread ℕ Block (Option Page)} (hlb : OtherSlot d r lb)
    (hdata : held (dataBlock lb) = some u)
    (hparity : held (parityBlock lb) = some v) (ht : ∀ held', Keeps d r held' t) :
    Keeps d r held (.write (dataBlock lb) c (.write (parityBlock lb) (v ^^^ (u ^^^ c))
      (.release (dataBlock lb) (.release (parityBlock lb) t)))) := by
  have hne := dataBlock_ne_parityBlock hlb.bound
  refine .pair hlb hdata hparity (.release ?_ (.release ?_ (ht _)))
  · simp [update_of_ne hne]
  · simp [update_of_ne hne.symm]

section Write

variable {d r lb : ℕ} (hr : r < MAX_SWAP_PAGES) (hlb : Elsewhere r lb)

include hr hlb

/-- The parity block of a block on the failed disk: the block that the stripe has lost is not one of
slot `r`. -/
theorem harmless_parityBlock (hd : dataDisk lb = d) : Harmless d r (parityBlock lb) := by
  intro i
  have hoff := stripeOffset_lt_of_slot hr i
  constructor
  · intro heq
    obtain ⟨hp, ho⟩ := (diskBlock_inj hlb.bound hoff).mp heq
    rw [ho] at hp
    exact dataDisk_ne_parityDisk _ hp.symm
  · intro hi e heq
    obtain ⟨-, ho⟩ := (diskBlock_inj hlb.bound hoff).mp heq
    exact hlb.ne i (dataDisk_inj ho.symm (hi.trans hd.symm))

/-- The data block of a stripe whose parity disk has failed: the stripe has lost no data block. -/
theorem harmless_dataBlock (hp : parityDisk (stripeOffset lb) = d) :
    Harmless d r (dataBlock lb) := by
  intro i
  have hoff := stripeOffset_lt_of_slot hr i
  constructor
  · intro heq
    obtain ⟨hd, ho⟩ := (diskBlock_inj hlb.bound hoff).mp heq
    exact hlb.ne i (dataDisk_inj ho.symm hd.symm)
  · intro hi e heq
    obtain ⟨-, ho⟩ := (diskBlock_inj hlb.bound hoff).mp heq
    refine dataDisk_ne_parityDisk (r * 4 + i) ?_
    rw [hi, ← ho, hp]

lemma keeps_writeParityThread (c : Block) {K : Unit → Thread ℕ Block (Option Page)}
    (held : ℕ → Option Block) (hK : ∀ held', Keeps d r held' (K ())) :
    Keeps d r held (writeParityThread lb c d >>= K) := by
  have hne := dataBlock_ne_parityBlock hlb.bound
  unfold writeParityThread
  dsimp only
  rw [← dataBlock, ← parityBlock]
  split_ifs with hdata hparity hlt
  · have hd : dataDisk lb = d := by exact_mod_cast hdata.symm
    refine .acquire fun v => ?_
    change Keeps d r _ ((xorOthersThread _ _ _ >>= _) >>= K)
    rw [Thread.bind_assoc]
    refine keeps_xorOthersThread _ _ _ _ fun np held' hsame => ?_
    -- the parity buffer is none of those that the loop locks and releases
    have hheld : held' (parityBlock lb) = some v := by
      rw [hsame]
      · exact update_self _ _ _
      · intro e he heq
        simp only [mem_filter, mem_range, decide_eq_true_eq, not_or] at he
        exact he.2.2 ((diskBlock_inj hlb.bound hlb.bound).mp heq).1.symm
    exact .write (b := parityBlock lb) (by rw [hheld]; rfl) (harmless_parityBlock hr hlb hd)
      (.release (by simp) (hK _))
  · have hp : parityDisk (stripeOffset lb) = d := by exact_mod_cast hparity.symm
    exact .acquire fun v => .write (b := dataBlock lb) (by simp)
      (harmless_dataBlock hr hlb hp) (.release (by simp) (hK _))
  all_goals
    have hother : OtherSlot d r lb :=
      ⟨hlb.bound, hlb.ne, fun h => hdata (by rw [h]), fun h => hparity (by rw [h])⟩
    refine .acquire fun u => .acquire fun v => ?_
  · exact keeps_pair hother (u := u) (v := v) (by simp [update_of_ne hne]) (by simp) hK
  · exact keeps_pair hother (u := v) (v := u) (by simp) (by simp [update_of_ne hne.symm]) hK

end Write

/-- A page write to another slot. -/
theorem keeps_write {d r slot : ℕ} (hr : r < MAX_SWAP_PAGES) (hslot : slot < MAX_SWAP_PAGES)
    (hne : slot ≠ r) (pg : Page) (held : ℕ → Option Block) :
    Keeps d r held ((Call.write slot pg).thread d) := by
  change Keeps d r held (raidWritePageThread slot pg d >>= fun _ => pure none)
  unfold raidWritePageThread
  induction List.finRange SWAP_BLOCKS_PER_PAGE generalizing held with
  | nil => exact .ret none
  | cons i l ih =>
    rw [writeBlocksThread, Thread.bind_assoc]
    refine keeps_writeParityThread hr ⟨stripeOffset_lt_of_slot hslot i, fun j heq => hne ?_⟩
      _ held ih
    have hi : i.val < 4 := i.isLt
    have hj : j.val < 4 := j.isLt
    omega

/-! ## The reader -/

/-- The rest of a page read: the blocks `l` are still to be read into `pg`. -/
def readRest (d r : ℕ) (l : List (Fin SWAP_BLOCKS_PER_PAGE)) (pg : Page) :
    Thread ℕ Block (Option Page) :=
  readBlocksThread r d l pg >>= fun pg => pure (some pg)

lemma readRest_cons (d r : ℕ) (i : Fin SWAP_BLOCKS_PER_PAGE)
    (l : List (Fin SWAP_BLOCKS_PER_PAGE)) (pg : Page) :
    readRest d r (i :: l) pg =
      if dataDisk (r * 4 + i) ≠ d then
        .acquire (dataBlock (r * 4 + i)) fun b =>
          .release (dataBlock (r * 4 + i)) (readRest d r l (pg.setBlock i b))
      else
        xorOthersThread (stripeOffset (r * 4 + i)) (survivors d) 0 >>= fun b =>
          readRest d r l (pg.setBlock i b) := by
  unfold readRest
  rw [readBlocksThread, Thread.bind_assoc]
  unfold readParityThread
  dsimp only
  by_cases hd : dataDisk (r * 4 + i) ≠ d
  · have hd' : ((dataDisk (r * 4 + i) : ℕ) : ℤ) ≠ d := by exact_mod_cast hd
    rw [if_pos hd, if_pos hd']
    rfl
  · have hd' : ¬ ((dataDisk (r * 4 + i) : ℕ) : ℤ) ≠ d := by exact_mod_cast hd
    rw [if_neg hd, if_neg hd']
    rfl

section Reader

variable (d r : ℕ) (pages : ℕ → Page)

/-- The page read so far is right except for the blocks `l`. -/
def ReadSoFar (l : List (Fin SWAP_BLOCKS_PER_PAGE)) (pg : Page) : Prop :=
  l.Nodup ∧ ∀ j, j ∉ l → pg.block j = (pages r).block j

/-- The block `i` has been rebuilt in `acc` from all disks that work but `todo`. -/
structure Rebuilding (g : ℕ → Block) (i : Fin SWAP_BLOCKS_PER_PAGE) (todo : List ℕ)
    (acc : Block) : Prop where
  lost : dataDisk (r * 4 + i) = d
  sublist : todo.Sublist (survivors d)
  sum : acc ^^^ xorOver (column g (stripeOffset (r * 4 + i))) todo = (pages r).block i

/-- What the reader has still to do, over the contents `g`, and the buffer that it holds. -/
inductive ReaderAt (g : ℕ → Block) : Option ℕ → Thread ℕ Block (Option Page) → Prop
  | idle : ReaderAt g none (.ret none)
  | between {l : List (Fin SWAP_BLOCKS_PER_PAGE)} {pg : Page} (hpg : ReadSoFar r pages l pg) :
      ReaderAt g none (readRest d r l pg)
  | rebuild {i : Fin SWAP_BLOCKS_PER_PAGE} {l : List (Fin SWAP_BLOCKS_PER_PAGE)} {pg : Page}
      {todo : List ℕ} {acc : Block} (hpg : ReadSoFar r pages (i :: l) pg)
      (hacc : Rebuilding d r pages g i todo acc) :
      ReaderAt g none (xorOthersThread (stripeOffset (r * 4 + i)) todo acc >>= fun b =>
        readRest d r l (pg.setBlock i b))
  | release {b : ℕ} {t : Thread ℕ Block (Option Page)} (h : ReaderAt g none t) :
      ReaderAt g (some b) (.release b t)

variable {d r pages} {g : ℕ → Block} {i : Fin SWAP_BLOCKS_PER_PAGE}
  {l : List (Fin SWAP_BLOCKS_PER_PAGE)} {pg : Page} {todo : List ℕ} {acc : Block} {b lb : ℕ}
  {c : Block} {t : Thread ℕ Block (Option Page)} {own : Option ℕ}

lemma ReadSoFar.setBlock (h : ReadSoFar r pages (i :: l) pg) {b : Block}
    (hb : b = (pages r).block i) : ReadSoFar r pages l (pg.setBlock i b) := by
  obtain ⟨hnodup, hpg⟩ := h
  obtain ⟨hi, hl⟩ := nodup_cons.mp hnodup
  refine ⟨hl, fun j hj => ?_⟩
  rw [Page.block_setBlock]
  split_ifs with hji
  · rw [hji, hb]
  · exact hpg j (by simp [hji, hj])

lemma Rebuilding.done (h : Rebuilding d r pages g i [] acc) : acc = (pages r).block i := by
  simpa using h.sum

lemma Rebuilding.next {e : ℕ} (h : Rebuilding d r pages g i (e :: todo) acc) :
    Rebuilding d r pages g i todo
      (acc ^^^ g (diskBlock e (stripeOffset (r * 4 + i)))) where
  lost := h.lost
  sublist := (sublist_cons_self e todo).trans h.sublist
  sum := by
    rw [xor_assoc]
    exact h.sum

lemma Rebuilding.start (hg : Readable d r pages g) (hi : dataDisk (r * 4 + i) = d) :
    Rebuilding d r pages g i (survivors d) 0 where
  lost := hi
  sublist := List.Sublist.refl _
  sum := by
    rw [zero_xor]
    exact hg.lost i hi

/-- What the reader does next. -/
inductive ReaderNext (d r : ℕ) (pages : ℕ → Page) (g : ℕ → Block) (own : Option ℕ) :
    Thread ℕ Block (Option Page) → Prop
  | idle : ReaderNext d r pages g own (.ret none)
  | returns : ReaderNext d r pages g own (.ret (some (pages r)))
  | acquire {b : ℕ} {k : Block → Thread ℕ Block (Option Page)}
      (h : ReaderAt d r pages g (some b) (k (g b))) : ReaderNext d r pages g own (.acquire b k)
  | release {b : ℕ} {t : Thread ℕ Block (Option Page)} (hown : own = some b)
      (h : ReaderAt d r pages g none t) : ReaderNext d r pages g own (.release b t)

lemma readRest_next (hg : Readable d r pages g) {l : List (Fin SWAP_BLOCKS_PER_PAGE)} {pg : Page}
    (hpg : ReadSoFar r pages l pg) : ReaderNext d r pages g own (readRest d r l pg) := by
  induction l generalizing pg with
  | nil =>
    have hpage : pg = pages r := Page.ext_block fun j => hpg.2 j (by simp)
    rw [hpage]
    exact .returns
  | cons i l ih =>
    rw [readRest_cons]
    split_ifs with hd
    · exact .acquire (.release (.between (hpg.setBlock (hg.direct i hd))))
    · -- the disk has failed, and the other disks are added up
      have hstart := Rebuilding.start hg (not_not.mp hd)
      cases hs : survivors d with
      | nil => exact ih (hpg.setBlock (hs ▸ hstart).done)
      | cons e todo => exact .acquire (.release (.rebuild hpg (hs ▸ hstart).next))

lemma ReaderAt.next (hg : Readable d r pages g) (h : ReaderAt d r pages g own t) :
    ReaderNext d r pages g own t := by
  cases h with
  | idle => exact .idle
  | between hpg => exact readRest_next hg hpg
  | @rebuild i l pg todo acc hpg hacc =>
    cases todo with
    | nil => exact readRest_next hg (hpg.setBlock hacc.done)
    | cons e todo => exact .acquire (.release (.rebuild hpg hacc.next))
  | release h => exact .release rfl h

/-! ### Writes while the reader is at work -/

/-- A write to a block that no read of slot `r` uses. -/
theorem ReaderAt.harmless (h : ReaderAt d r pages g own t) (hb : Harmless d r b) :
    ReaderAt d r pages (update g b c) own t := by
  induction h with
  | idle => exact .idle
  | between hpg => exact .between hpg
  | @rebuild i l pg todo acc hpg hacc =>
    refine .rebuild hpg ⟨hacc.lost, hacc.sublist, ?_⟩
    rw [← hacc.sum]
    congr 1
    exact xorOver_congr fun e _ => update_of_ne ((hb i).2 hacc.lost e).symm _ _
  | release _ ih => exact .release ih

lemma xorOthersThread_footprint (o : ℕ) (l : List ℕ) (acc : Block) (g : ℕ → Block) :
    (xorOthersThread o l acc).footprint g = l.map (diskBlock · o) := by
  induction l generalizing acc with
  | nil => rfl
  | cons e l ih => exact congrArg (diskBlock e o :: ·) (ih _)

/-- The rest of a page read does not use the blocks of another slot on a stripe that it does not
rebuild. -/
theorem notMem_footprint_readRest (hr : r < MAX_SWAP_PAGES) (hlb : OtherSlot d r lb)
    (hl : ∀ j ∈ l, dataDisk (r * 4 + j) = d → stripeOffset (r * 4 + j) ≠ stripeOffset lb)
    (pg : Page) (g : ℕ → Block) :
    dataBlock lb ∉ (readRest d r l pg).footprint g ∧
      parityBlock lb ∉ (readRest d r l pg).footprint g := by
  induction l generalizing pg with
  | nil => exact ⟨not_mem_nil, not_mem_nil⟩
  | cons i l ih =>
    have ih' := ih fun j hj => hl j (mem_cons_of_mem _ hj)
    rw [readRest_cons]
    split_ifs with hd
    · obtain ⟨hdata, hparity⟩ := hlb.dataBlock_ne hr i
      obtain ⟨hrest, hrest'⟩ := ih' (pg.setBlock i (g (dataBlock (r * 4 + i))))
      exact ⟨not_mem_cons_of_ne_of_not_mem hdata.symm hrest,
        not_mem_cons_of_ne_of_not_mem hparity.symm hrest'⟩
    · have ho := hl i mem_cons_self (not_not.mp hd)
      have hne : ∀ e e', diskBlock e (stripeOffset (r * 4 + i)) ≠ diskBlock e' (stripeOffset lb) :=
        fun e e' heq => ho ((diskBlock_inj (stripeOffset_lt_of_slot hr i) hlb.bound).mp heq).2
      rw [Thread.footprint_bind, xorOthersThread_footprint, xorOthersThread_run]
      simp only [mem_append, mem_map, not_or, not_exists, not_and]
      exact ⟨⟨fun e _ => hne e _, (ih' _).1⟩, fun e _ => hne e _, (ih' _).2⟩

/-- A pair of writes of another slot, of which the reader has still to read both blocks or
neither. -/
theorem ReaderAt.pairWrite (h : ReaderAt d r pages g own t) (hr : r < MAX_SWAP_PAGES)
    (hlb : OtherSlot d r lb) {g0 : ℕ → Block}
    (hboth : dataBlock lb ∈ t.footprint g0 ↔ parityBlock lb ∈ t.footprint g0) :
    ReaderAt d r pages (pairWrite lb c g) own t := by
  induction h with
  | idle => exact .idle
  | between hpg => exact .between hpg
  | @rebuild i l pg todo acc hpg hacc =>
    have hoff := stripeOffset_lt_of_slot hr i
    refine .rebuild hpg ⟨hacc.lost, hacc.sublist, ?_⟩
    rw [xorOver_pairWrite c g hlb.bound hoff (hacc.sublist.nodup (survivors_nodup d))]
    · exact hacc.sum
    · intro ho
      -- the other blocks of the slot are on stripes that the reader rebuilds at other times
      have hl : ∀ j ∈ l, dataDisk (r * 4 + j) = d → stripeOffset (r * 4 + j) ≠ stripeOffset lb := by
        intro j hj hd heq
        have hij : r * 4 + j.val = r * 4 + i.val :=
          dataDisk_inj (heq.trans ho.symm) (hd.trans hacc.lost.symm)
        have hji : j = i := Fin.ext (by omega)
        exact (nodup_cons.mp hpg.1).1 (hji ▸ hj)
      rw [Thread.footprint_bind, xorOthersThread_footprint, xorOthersThread_run, ho] at hboth
      obtain ⟨hdata, hparity⟩ := notMem_footprint_readRest hr hlb hl
        (pg.setBlock i (acc ^^^ xorOver (fun e => g0 (diskBlock e (stripeOffset lb))) todo)) g0
      have hmem : ∀ e, diskBlock e (stripeOffset lb) ∈ todo.map (diskBlock · (stripeOffset lb)) ↔
          e ∈ todo := by
        intro e
        simp only [mem_map]
        constructor
        · rintro ⟨e', he', heq⟩
          exact ((diskBlock_inj hlb.bound hlb.bound).mp heq).1 ▸ he'
        · exact fun he => ⟨e, he, rfl⟩
      simp only [mem_append, hdata, hparity, or_false] at hboth
      rw [ho]
      exact ((hmem _).symm.trans hboth).trans (hmem _)
  | release _ ih => exact .release (ih hboth)

end Reader

/-! ## The invariant of a run -/

section Run

variable {P : Type} {d r : ℕ} {pages : ℕ → Page} {ρ q p : P}
  {g g' : ℕ → Block} {m m' : Machine P ℕ Block (Option Page)} {held : ℕ → Option Block}

/-- Process `q` holds the buffers of `held`, with these contents. -/
def Agrees (g : ℕ → Block) (m : Machine P ℕ Block (Option Page)) (q : P)
    (held : ℕ → Option Block) : Prop :=
  ∀ b v, held b = some v → m.holder b = some q ∧ g b = v

/-- A writer, over the contents `g` in which the parity block of a pair is written together with the
data block: it is between pairs, or it has still to write the parity block. -/
inductive WriterAt (d r : ℕ) (g : ℕ → Block) (m : Machine P ℕ Block (Option Page)) (q : P) : Prop
  | settled {held : ℕ → Option Block} (hagrees : Agrees g m q held)
      (hkeeps : Keeps d r held (m.thread q)) (hvalue : ∀ b, m.holder b = some q → g b = m.value b)
  | midway {held : ℕ → Option Block} {b : ℕ} {c : Block} {k : Thread ℕ Block (Option Page)}
      (hagrees : Agrees g m q held) (hthread : m.thread q = .write b c k) (hb : held b = some c)
      (hkeeps : Keeps d r held k) (hvalue : ∀ b', b' ≠ b → m.holder b' = some q → g b' = m.value b')

/-- The contents `g` account for the state: slot `r` can be read from them, they are the contents of
all buffers that no writer holds, and writers and the reader stand where they may. -/
structure Sound (d r : ℕ) (pages : ℕ → Page) (ρ : P) (g : ℕ → Block)
    (m : Machine P ℕ Block (Option Page)) : Prop where
  readable : Readable d r pages g
  value : ∀ b, m.holder b = none ∨ m.holder b = some ρ → g b = m.value b
  writer : ∀ q, q ≠ ρ → WriterAt d r g m q
  reader : ∃ own, ReaderAt d r pages g own (m.thread ρ) ∧ ∀ b, own = some b → m.holder b = some ρ

/-- What the others do does not concern a writer, if they leave its buffers alone. -/
theorem WriterAt.frame (h : WriterAt d r g m p) (hthread : m'.thread p = m.thread p)
    (hholder : ∀ b, m'.holder b = some p ↔ m.holder b = some p)
    (hsame : ∀ b, m.holder b = some p → m'.value b = m.value b ∧ g' b = g b) :
    WriterAt d r g' m' p := by
  have hagrees : ∀ {held}, Agrees g m p held → Agrees g' m' p held := by
    intro held ha b v hb
    obtain ⟨hp, hv⟩ := ha b v hb
    exact ⟨(hholder b).mpr hp, (hsame b hp).2.trans hv⟩
  have hvalue : ∀ {b}, m'.holder b = some p → g b = m.value b → g' b = m'.value b := by
    intro b hp hv
    obtain ⟨h1, h2⟩ := hsame b ((hholder b).mp hp)
    rw [h1, h2, hv]
  cases h with
  | settled ha hk hv =>
    exact .settled (hagrees ha) (hthread ▸ hk) fun b hp => hvalue hp (hv b ((hholder b).mp hp))
  | midway ha ht hb hk hv =>
    exact .midway (hagrees ha) (hthread.trans ht) hb hk fun b hne hp =>
      hvalue hp (hv b hne ((hholder b).mp hp))

/-- Taking or giving back a buffer changes no other process's buffers. -/
theorem holder_update_iff {holder : ℕ → Option P} {b : ℕ} {o : Option P} (hold : holder b ≠ some p)
    (hnew : o ≠ some p) (b' : ℕ) :
    update holder b o b' = some p ↔ holder b' = some p := by
  by_cases hb : b' = b
  · subst hb
    rw [update_self]
    exact iff_of_false hnew hold
  · rw [update_of_ne hb]

lemma Agrees.update {b : ℕ} {v : Block} (h : Agrees g m q held) (hholder : m'.holder b = some q)
    (hg : g' b = v) (hsame : ∀ b', b' ≠ b → m.holder b' = some q →
      m'.holder b' = some q ∧ g' b' = g b') :
    Agrees g' m' q (update held b (some v)) := by
  intro b' v' hb'
  by_cases hbb : b' = b
  · subst hbb
    rw [update_self] at hb'
    cases hb'
    exact ⟨hholder, hg⟩
  · rw [update_of_ne hbb] at hb'
    obtain ⟨hp, hv⟩ := h b' v' hb'
    obtain ⟨h1, h2⟩ := hsame b' hbb hp
    exact ⟨h1, h2.trans hv⟩

lemma Agrees.write {b : ℕ} {v : Block} (h : Agrees g m q held) (hb : m.holder b = some q) :
    Agrees (Function.update g b v) m q (Function.update held b (some v)) :=
  h.update hb (update_self ..) fun _ hne hb' => ⟨hb', update_of_ne hne ..⟩

variable [DecidableEq P]

section

variable (hm : Sound d r pages ρ g m)

include hm

/-- A step of `q`, after which the others stand where they stood, with the buffers that they had. -/
theorem Sound.of_step (hreadable : Readable d r pages g')
    (hthread : ∀ p, p ≠ q → m'.thread p = m.thread p)
    (hholder : ∀ p, p ≠ q → ∀ b, m'.holder b = some p ↔ m.holder b = some p)
    (hsame : ∀ b, m.holder b ≠ some q → m'.value b = m.value b ∧ g' b = g b)
    (hvalue : ∀ b, m'.holder b = none ∨ m'.holder b = some ρ → g' b = m'.value b)
    (hwriter : q ≠ ρ → WriterAt d r g' m' q ∧ ∀ own, ReaderAt d r pages g own (m.thread ρ) →
      ReaderAt d r pages g' own (m.thread ρ))
    (hreader : q = ρ → ∃ own, ReaderAt d r pages g' own (m'.thread ρ) ∧
      ∀ b, own = some b → m'.holder b = some ρ) :
    Sound d r pages ρ g' m' := by
  refine ⟨hreadable, hvalue, fun p hp => ?_, ?_⟩
  · by_cases hpq : p = q
    · subst hpq
      exact (hwriter hp).1
    · refine (hm.writer p hp).frame (hthread p hpq) (hholder p hpq) fun b hb => hsame b ?_
      rw [hb]
      simpa using hpq
  · by_cases hq : q = ρ
    · exact hreader hq
    · obtain ⟨own, hat, hown⟩ := hm.reader
      rw [hthread ρ (Ne.symm hq)]
      exact ⟨own, (hwriter hq).2 own hat, fun b hb => (hholder ρ (Ne.symm hq) b).mpr (hown b hb)⟩

/-- `q` takes a buffer or gives it back. -/
theorem Sound.move {b : ℕ} {o : Option P} {k : Thread ℕ Block (Option Page)} (hgb : g b = m.value b)
    (hold : m.holder b = none ∨ m.holder b = some q) (hnew : o = none ∨ o = some q)
    (hwriter : q ≠ ρ → WriterAt d r g ({ m with holder := update m.holder b o }.resume q k) q)
    (hreader : q = ρ → ∃ own, ReaderAt d r pages g own k ∧
      ∀ b', own = some b' → update m.holder b o b' = some ρ) :
    Sound d r pages ρ g ({ m with holder := update m.holder b o }.resume q k) := by
  have hne : ∀ {o' : Option P}, o' = none ∨ o' = some q → ∀ p, p ≠ q → o' ≠ some p := by
    rintro o' (rfl | rfl) p hp
    · simp
    · simpa using hp.symm
  refine hm.of_step hm.readable (fun p hp => Machine.resume_of_ne _ _ hp)
    (fun p hp => holder_update_iff (hne hold p hp) (hne hnew p hp)) (fun _ _ => ⟨rfl, rfl⟩)
    (fun b' hb' => ?_) (fun hq => ⟨hwriter hq, fun _ h => h⟩) fun hq => ?_
  · by_cases hbb : b' = b
    · rw [hbb]
      exact hgb
    · exact hm.value b' (by rwa [← update_of_ne hbb o m.holder])
  · obtain ⟨own, hat, hown⟩ := hreader hq
    refine ⟨own, ?_, hown⟩
    rw [← hq, Machine.resume_self]
    exact hat

lemma Sound.writer_acquire {b : ℕ} {k : Block → Thread ℕ Block (Option Page)} (hq : q ≠ ρ)
    (hthread : m.thread q = .acquire b k) (hfree : m.holder b = none) :
    Sound d r pages ρ g
      ({ m with holder := update m.holder b (some q) }.resume q (k (m.value b))) := by
  have hgb : g b = m.value b := hm.value b (.inl hfree)
  refine hm.move hgb (.inl hfree) (.inr rfl) (fun _ => ?_) fun h => absurd h hq
  cases hm.writer q hq with
  | settled ha hk hv =>
    rw [hthread] at hk
    cases hk with
    | acquire hk =>
      refine .settled (ha.update (b := b) (v := m.value b) (update_self _ _ _) hgb
        fun b' hne hb' => ⟨(update_of_ne hne _ _).trans hb', rfl⟩) ?_ fun b' hb' => ?_
      · rw [Machine.resume_self]
        exact hk (m.value b)
      · by_cases hbb : b' = b
        · rw [hbb]
          exact hgb
        · exact hv b' ((update_of_ne hbb _ _).symm.trans hb')
  | midway _ ht =>
    rw [hthread] at ht
    cases ht

lemma Sound.writer_release {b : ℕ} {k : Thread ℕ Block (Option Page)} (hq : q ≠ ρ)
    (hthread : m.thread q = .release b k) :
    Sound d r pages ρ g
      ({ m with holder := update m.holder b none }.resume q k) := by
  cases hm.writer q hq with
  | midway _ ht =>
    rw [hthread] at ht
    cases ht
  | @settled held ha hk hv =>
    rw [hthread] at hk
    cases hk with
    | release hb hk =>
      obtain ⟨v, hbv⟩ := Option.isSome_iff_exists.mp hb
      obtain ⟨hholder, -⟩ := ha b v hbv
      have hkeep : ∀ b', update m.holder b none b' = some q → m.holder b' = some q := by
        intro b' hb'
        by_cases hbb : b' = b
        · rw [hbb, hholder]
        · rwa [update_of_ne hbb] at hb'
      refine hm.move (hv b hholder) (.inr hholder) (.inl rfl) (fun _ => ?_) fun h => absurd h hq
      have ha' : Agrees g ({ m with holder := update m.holder b none }.resume q k) q
          (update held b none) := by
        intro b' v' hb'
        by_cases hbb : b' = b
        · rw [hbb, update_self] at hb'
          cases hb'
        · rw [update_of_ne hbb] at hb'
          exact (ha b' v' hb').imp_left (update_of_ne hbb _ _).trans
      refine .settled ha' ?_ fun b' hb' => hv b' (hkeep b' hb')
      rw [Machine.resume_self]
      exact hk

/-- A process writes buffers of its own, and the contents `g'` follow. What the other writers hold
stays as it is. -/
theorem Sound.of_write {b : ℕ} {c : Block} {k : Thread ℕ Block (Option Page)} (hq : q ≠ ρ)
    (hb : m.holder b = some q) (hsame : ∀ b', m.holder b' ≠ some q → g' b' = g b')
    (hreadable : Readable d r pages g')
    (hreader : ∀ own, ReaderAt d r pages g own (m.thread ρ) →
      ReaderAt d r pages g' own (m.thread ρ))
    (hwriter : WriterAt d r g' ({ m with value := update m.value b c }.resume q k) q) :
    Sound d r pages ρ g' ({ m with value := update m.value b c }.resume q k) := by
  have hother : ∀ b', m.holder b' ≠ some q →
      update m.value b c b' = m.value b' ∧ g' b' = g b' := by
    refine fun b' hb' => ⟨update_of_ne ?_ _ _, hsame b' hb'⟩
    rintro rfl
    exact hb' hb
  refine hm.of_step hreadable (fun p hp => Machine.resume_of_ne _ _ hp) (fun _ _ _ => Iff.rfl)
    hother
    (fun b' hb' => ?_) (fun _ => ⟨hwriter, hreader⟩) fun h => absurd h hq
  have hne : m.holder b' ≠ some q := by
    rcases hb' with h | h
    · exact ne_of_eq_of_ne h (by simp)
    · exact ne_of_eq_of_ne h (by simpa using hq.symm)
  exact (hother b' hne).2.trans ((hm.value b' hb').trans (hother b' hne).1.symm)

/-- A writer writes a block: one that no read uses, the data block of a pair, of which the reader
has still to read both blocks or neither, or the parity block of a pair. -/
theorem Sound.writer_write {b : ℕ} {c : Block} {k : Thread ℕ Block (Option Page)}
    (hr : r < MAX_SWAP_PAGES) (hq : q ≠ ρ) (hthread : m.thread q = .write b c k)
    (hboth : ∀ lb, stripeOffset lb < SIM_DISK_SIZE → b = dataBlock lb →
      (dataBlock lb ∈ (m.thread ρ).footprint m.value ↔
        parityBlock lb ∈ (m.thread ρ).footprint m.value)) :
    ∃ g', Sound d r pages ρ g' ({ m with value := update m.value b c }.resume q k) := by
  cases hm.writer q hq with
  | @settled held ha hk hv =>
    rw [hthread] at hk
    cases hk with
    | write hb hharmless hk =>
      obtain ⟨v, hbv⟩ := Option.isSome_iff_exists.mp hb
      have hholder := (ha b v hbv).1
      refine ⟨update g b c, hm.of_write hq hholder (fun b' hb' => ?_)
        (hm.readable.harmless hharmless) (fun _ h => h.harmless hharmless)
        (.settled (m := { m with value := update m.value b c }.resume q k) (ha.write hholder) ?_
          fun b' hb' => ?_)⟩
      · refine update_of_ne ?_ _ _
        rintro rfl
        exact hb' hholder
      · rw [Machine.resume_self]
        exact hk
      · change update g b c b' = update m.value b c b'
        by_cases hbb : b' = b
        · rw [hbb, update_self, update_self]
        · rw [update_of_ne hbb, update_of_ne hbb]
          exact hv b' hb'
    | @pair _ lb _ oldData oldParity k hlb hdata hparity hk =>
      obtain ⟨hdholder, hdold⟩ := ha _ _ hdata
      obtain ⟨hpholder, hpold⟩ := ha _ _ hparity
      have hne := dataBlock_ne_parityBlock hlb.bound
      have hpair : ∀ b', b' ≠ dataBlock lb → b' ≠ parityBlock lb → pairWrite lb c g b' = g b' :=
        fun b' h1 h2 => (update_of_ne h2 _ _).trans (update_of_ne h1 _ _)
      have hpg : pairWrite lb c g (parityBlock lb) = oldParity ^^^ (oldData ^^^ c) := by
        rw [pairWrite, update_self, hdold, hpold]
      have hdg : pairWrite lb c g (dataBlock lb) = c := by
        rw [pairWrite, update_of_ne hne, update_self]
      refine ⟨pairWrite lb c g, hm.of_write hq hdholder (fun b' hb' => hpair b' ?_ ?_)
        (hm.readable.pairWrite hr hlb) (fun _ h => h.pairWrite hr hlb (hboth lb hlb.bound rfl)) ?_⟩
      · rintro rfl
        exact hb' hdholder
      · rintro rfl
        exact hb' hpholder
      · -- the parity block is still to be written, with the value that the contents already have
        have ha' := (ha.write (v := c) hdholder).write (v := oldParity ^^^ (oldData ^^^ c)) hpholder
        rw [← hpold, ← hdold] at ha' hk ⊢
        refine .midway (m := { m with value := update m.value (dataBlock lb) c }.resume q _) ha'
          (Machine.resume_self _ _ _) (update_self _ _ _) hk fun b' hbp hb' => ?_
        · change pairWrite lb c g b' = update m.value (dataBlock lb) c b'
          by_cases hbd : b' = dataBlock lb
          · rw [hbd, update_self, hdg]
          · rw [update_of_ne hbd, hpair b' hbd hbp]
            exact hv b' hb'
  | @midway held b0 c0 k0 ha ht hb hk hv =>
    rw [hthread] at ht
    cases ht
    obtain ⟨hholder, hgb⟩ := ha b c hb
    refine ⟨g, hm.of_write hq hholder (fun _ _ => rfl) hm.readable (fun _ h => h)
      (.settled (m := { m with value := update m.value b c }.resume q k) ha ?_
        fun b' hb' => ?_)⟩
    · rw [Machine.resume_self]
      exact hk
    · change g b' = update m.value b c b'
      by_cases hbb : b' = b
      · rw [hbb, update_self, hgb]
      · rw [update_of_ne hbb]
        exact hv b' hbb hb'

/-- The reader takes a buffer or gives it back. -/
theorem Sound.reader_exec (hexec : m.exec ρ = some m') : Sound d r pages ρ g m' := by
  obtain ⟨own, hreader, hown⟩ := hm.reader
  have hnext := hreader.next hm.readable
  cases Machine.exec_cases hexec with
  | acquire b k hthread hfree =>
    rw [hthread] at hnext
    cases hnext with
    | acquire h =>
      have hgb := hm.value b (.inl hfree)
      rw [hgb] at h
      refine hm.move hgb (.inl hfree) (.inr rfl) (absurd rfl ·) fun _ =>
        ⟨some b, h, fun b' hb' => ?_⟩
      cases hb'
      exact update_self _ _ _
  | write b c k hthread =>
    rw [hthread] at hnext
    cases hnext
  | release b k hthread =>
    rw [hthread] at hnext
    cases hnext with
    | release hb h =>
      exact hm.move (hm.value b (.inr (hown b hb))) (.inr (hown b hb)) (.inl rfl) (absurd rfl ·)
        fun _ => ⟨none, h, by simp⟩

/-! ## Runs -/

/-- The calls of the reader `ρ` of slot `r` and of the writers of other slots. -/
def OneReader (ρ : P) (r : ℕ) (q : P) : Call → Prop
  | .read slot _ => q = ρ ∧ slot = r
  | .write slot _ => q ≠ ρ ∧ slot ≠ r ∧ slot < MAX_SWAP_PAGES

instance (ρ : P) (r : ℕ) (q : P) : DecidablePred (OneReader ρ r q)
  | .read slot _ => inferInstanceAs (Decidable (q = ρ ∧ slot = r))
  | .write slot _ => inferInstanceAs (Decidable (q ≠ ρ ∧ slot ≠ r ∧ slot < MAX_SWAP_PAGES))

/-- The condition on one step: when a process writes a data block, the reader has still to read both
that block and the parity block of its stripe, or neither. -/
def ReadsBothOrNeither (ρ : P) (m : Machine P ℕ Block (Option Page)) : Label P → Prop
  | .call _ _ => True
  | .exec q => ∀ lb c k, stripeOffset lb < SIM_DISK_SIZE → m.thread q = .write (dataBlock lb) c k →
      (dataBlock lb ∈ (m.thread ρ).footprint m.value ↔
        parityBlock lb ∈ (m.thread ρ).footprint m.value)

lemma Sound.call {c : Call} {a : Option Page} (hr : r < MAX_SWAP_PAGES) (hc : OneReader ρ r q c)
    (hret : m.thread q = .ret a) : Sound d r pages ρ g (m.resume q (c.thread d)) := by
  refine hm.of_step hm.readable (fun p hp => Machine.resume_of_ne _ _ hp) (fun _ _ _ => Iff.rfl)
    (fun _ _ => ⟨rfl, rfl⟩) hm.value (fun hq => ⟨?_, fun _ h => h⟩) fun hq => ⟨none, ?_, by simp⟩
  all_goals cases c with
  | read slot pg => ?_
  | write slot pg => ?_
  · exact absurd hc.1 hq
  · cases hm.writer q hq with
    | @settled held ha _ hv =>
      refine .settled (m := m.resume q ((Call.write slot pg).thread d)) ha ?_ hv
      rw [Machine.resume_self]
      exact keeps_write hr hc.2.2 hc.2.1 pg held
    | midway _ ht =>
      rw [hret] at ht
      cases ht
  · obtain ⟨rfl, rfl⟩ := hc
    rw [Machine.resume_self]
    exact .between ⟨nodup_finRange _, fun j hj => absurd (mem_finRange j) hj⟩
  · exact absurd hq hc.1

lemma Sound.exec (hr : r < MAX_SWAP_PAGES) (hcond : ReadsBothOrNeither ρ m (.exec q))
    (hexec : m.exec q = some m') : ∃ g', Sound d r pages ρ g' m' := by
  by_cases hq : q = ρ
  · rw [hq] at hexec
    exact ⟨g, hm.reader_exec hexec⟩
  · cases Machine.exec_cases hexec with
    | acquire b k hthread hfree => exact ⟨g, hm.writer_acquire hq hthread hfree⟩
    | write b c k hthread =>
      refine hm.writer_write hr hq hthread fun lb hlb heq => hcond lb c k hlb ?_
      rw [hthread, heq]
    | release b k hthread => exact ⟨g, hm.writer_release hq hthread⟩

end

end Run

/-- The contents of the disks after completed writes, before and after the failure of disk `d`. -/
def writtenDisks (healthy degraded : List (ℕ × Page)) (d : ℕ) (g : ℕ → Block) : Prop :=
  g = (writePages degraded d (writePages healthy (-1) SwapDisk.zero)).blocks

/-- Slot `r` can be read after completed writes. -/
theorem readable_of_writtenDisks {healthy degraded : List (ℕ × Page)} {d r : ℕ} {g : ℕ → Block}
    (hslots : ∀ c ∈ healthy ++ degraded, c.1 < MAX_SWAP_PAGES) (hr : r < MAX_SWAP_PAGES)
    (hg : writtenDisks healthy degraded d g) :
    Readable d r (lastWritten (fun _ => 0) (healthy ++ degraded)) g := by
  have hzero : Consistent (-1) (logical fun _ => 0) SwapDisk.zero := Consistent.zero
  have h₁ := consistent_run healthy (fun c hc => hslots c (by simp [hc])) hzero
  have h₂ := consistent_run degraded (fun c hc => hslots c (by simp [hc])) (h₁.fail d)
  have hpages : lastWritten (lastWritten (fun _ => 0) healthy) degraded =
      lastWritten (fun _ => 0) (healthy ++ degraded) := foldl_append.symm
  rw [hpages] at h₂
  have hread : ∀ i : Fin SWAP_BLOCKS_PER_PAGE,
      readThrough (failedPos d) (column g (stripeOffset (r * 4 + i))) disks
        (dataDisk (r * 4 + i)) =
        (lastWritten (fun _ => 0) (healthy ++ degraded) r).block i := by
    intro i
    rw [← logical_slot, ← h₂.data _ (stripeOffset_lt_of_slot hr i), hg]
    rfl
  constructor
  · intro i hi
    rw [← hread i, readThrough_of_ne]
    · rfl
    · exact fun hc => hi (by exact_mod_cast (failedPos_eq_some.mp hc).symm)
  · intro i hi
    rw [← hread i, hi, failedPos_eq_some.mpr rfl, readThrough_self, survivors_eq]

/-- In a run of one reader of slot `r` and any writers of other slots, in which at every write of a
data block the reader has still to read both that block and the parity block of its stripe or
neither, the read returns the page last written to slot `r`. -/
theorem degraded_read_consistent {P : Type} [DecidableEq P] {ρ : P} {d r : ℕ}
    (hr : r < MAX_SWAP_PAGES) {healthy degraded : List (ℕ × Page)}
    (hslots : ∀ c ∈ healthy ++ degraded, c.1 < MAX_SWAP_PAGES)
    {m : Machine P ℕ Block (Option Page)}
    (h : ((raidSystem d (writtenDisks healthy degraded d) (OneReader ρ r)).restrict
      (ReadsBothOrNeither ρ)).Reachable m) {pg : Page} (hret : m.thread ρ = .ret (some pg)) :
    pg = lastWritten (fun _ => 0) (healthy ++ degraded) r := by
  obtain ⟨g, hm⟩ : ∃ g, Sound d r (lastWritten (fun _ => 0) (healthy ++ degraded)) ρ g m := by
    refine h.invariant
      (I := fun m => ∃ g, Sound d r (lastWritten (fun _ => 0) (healthy ++ degraded)) ρ g m) ?_ ?_
    · rintro m ⟨hdisks, hfree, hidle⟩
      refine ⟨m.value, readable_of_writtenDisks hslots hr hdisks, fun _ _ => rfl, fun q _ => ?_,
        none, ?_, by simp⟩
      · have hnone : Agrees m.value m q fun _ => none := fun b v hb => by cases hb
        refine .settled hnone ?_ fun _ _ => rfl
        rw [hidle q]
        exact .ret none
      · rw [hidle ρ]
        exact .idle
    · rintro m l m' - ⟨g, hm⟩ ⟨hcond, hstep⟩
      cases l with
      | call q c =>
        obtain ⟨hc, ⟨a, hret⟩, rfl⟩ := hstep
        exact ⟨g, hm.call hr hc hret⟩
      | exec q => exact hm.exec hr hcond hstep
  obtain ⟨own, hreader, -⟩ := hm.reader
  rw [hret] at hreader
  cases hreader.next hm.readable with
  | returns => rfl

/-- The stripe of a block in mode 5. -/
def stripeOf (b : ℕ) : ℕ := (b - SWAP_START_BLOCK) % SIM_DISK_SIZE

lemma stripeOf_diskBlock {d offset : ℕ} (h : offset < SIM_DISK_SIZE) :
    stripeOf (diskBlock d offset) = offset := by
  unfold stripeOf diskBlock
  rw [Nat.add_assoc, Nat.add_sub_cancel_left, Nat.mul_add_mod_of_lt h]

/-- Check that a call is one of the reader of slot 2 or of a writer, and that no block of a stripe
is written from which the reader has still to read. -/
def checkOtherStripes (m : Machine Bool ℕ Block (Option Page)) : Label Bool → Bool
  | .call q c => OneReader false 2 q c
  | .exec q =>
    match m.thread q with
    | .write b _ _ => ((m.thread false).footprint m.value).all (stripeOf · ≠ stripeOf b)
    | _ => true

/-- The byte at the start of the page that the reader has returned. -/
def firstByte (m : Machine Bool ℕ Block (Option Page)) : Option UInt8 :=
  match m.thread false with
  | .ret (some pg) => some (pg ⟨0, by decide⟩)
  | _ => none

lemma exists_page_of_firstByte {m : Machine Bool ℕ Block (Option Page)} {v : UInt8}
    (h : firstByte m = some v) :
    ∃ pg : Page, m.thread false = .ret (some pg) ∧ pg ⟨0, by decide⟩ = v := by
  unfold firstByte at h
  split at h
  · next pg hret =>
    cases h
    exact ⟨pg, hret, rfl⟩
  · cases h

lemma init_idleMachine :
    (raidSystem (3 : ℕ) (writtenDisks [] [] 3) (OneReader false 2)).init idleMachine := by
  refine ⟨?_, fun _ => rfl, fun _ => rfl⟩
  unfold writtenDisks
  rfl

/-- With disk 3 failed, slot 1 is written while slot 2 is read: first its blocks on stripe 1, and
when the reader is through with stripe 2 those on that stripe. -/
def overlappingRun : List (Label Bool) :=
  [.call false (.read 2 0)] ++ List.replicate 2 (.exec false) ++
    [.call true (.write 1 (Page.fill 1))] ++ List.replicate 6 (.exec true) ++
    List.replicate 4 (.exec false) ++ List.replicate 19 (.exec true) ++
    List.replicate 6 (.exec false)

theorem degraded_read_consistent_overlapping :
    ∃ (m : Machine Bool ℕ Block (Option Page)) (pg : Page),
    ((raidSystem (3 : ℕ) (writtenDisks [] [] 3) (OneReader false 2)).restrict
      (ReadsBothOrNeither false)).Reachable m ∧
    m.thread false = .ret (some pg) ∧ pg = 0 := by
  have heval : (overlappingRun.foldlM (execLabel (3 : ℕ) checkOtherStripes) idleMachine).bind
      firstByte = some 0 := by
    decide +kernel
  obtain ⟨m, hrun, hbyte⟩ := Option.bind_eq_some_iff.mp heval
  obtain ⟨pg, hret, -⟩ := exists_page_of_firstByte hbyte
  have hm : ((raidSystem (3 : ℕ) (writtenDisks [] [] 3) (OneReader false 2)).restrict
      (ReadsBothOrNeither false)).Reachable m := by
    refine reachable_execLabels (fun m a ha => ?_) (fun m q c hc => ?_)
      init_idleMachine hrun
    · cases a with
      | call q c => trivial
      | exec q =>
        -- the reader has no block of the stripe left to read
        intro lb c k hlb hthread
        have hother : ∀ d, diskBlock d (stripeOffset lb) ∉ (m.thread false).footprint m.value := by
          intro d hd
          simp only [checkOtherStripes, hthread, all_eq_true] at ha
          simpa [dataBlock, stripeOf_diskBlock hlb] using ha _ hd
        exact iff_of_false (hother _) (hother _)
    · exact of_decide_eq_true hc
  exact ⟨m, pg, hm, hret, degraded_read_consistent (by decide) (by simp) hm hret⟩

/-- Check that a call is one of the reader of slot 2 or of a writer. -/
def checkOneReader : Label Bool → Bool
  | .call q c => OneReader false 2 q c
  | .exec _ => true

/-- With disk 3 failed, the reader of slot 2 has read the first disk of stripe 2 when slot 1, which
has two blocks on that stripe, is written. -/
def tornRun : List (Label Bool) :=
  [.call false (.read 2 0), .exec false, .exec false] ++
    [.call true (.write 1 (Page.fill 1))] ++ List.replicate 25 (.exec true) ++
    List.replicate 10 (.exec false)

/-- A read of slot 2, to which nothing was ever written, returns bytes that are not zero while slot
1 is written. -/
theorem degraded_read_torn : ∃ (m : Machine Bool ℕ Block (Option Page)) (pg : Page),
    (raidSystem (3 : ℕ) (writtenDisks [] [] 3) (OneReader false 2)).Reachable m ∧
    m.thread false = .ret (some pg) ∧ pg ≠ lastWritten (fun _ => 0) [] 2 := by
  have heval : (tornRun.foldlM (execLabel (3 : ℕ) fun _ => checkOneReader) idleMachine).bind
      firstByte = some 1 := by
    decide +kernel
  obtain ⟨m, hrun, hbyte⟩ := Option.bind_eq_some_iff.mp heval
  obtain ⟨pg, hret, hone⟩ := exists_page_of_firstByte hbyte
  have hm : ((raidSystem (3 : ℕ) (writtenDisks [] [] 3) (OneReader false 2)).restrict
      fun _ _ => True).Reachable m := by
    exact reachable_execLabels (fun _ _ _ => trivial) (fun m q c hc => of_decide_eq_true hc)
      init_idleMachine hrun
  refine ⟨m, pg, .of_restrict hm, hret, ?_⟩
  rintro rfl
  exact absurd hone (by decide)

end Xv6.Raid
