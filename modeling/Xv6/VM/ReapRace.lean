import Xv6.VM.State
import Xv6.Raid.ModeChange

/-!
# An eviction of a page whose process is reaped

`kalloc_user` keeps three things across `release(&framelock)` while it evicts a page of a process:
the pointer `pte` into the last-level page table, the pointer `victim_p` into the process table, and
from `swap_out` on the index of the swap slot. The process may be a zombie, and then its parent may
run `freeproc` at the same time, which gives all three away: `uvmunmap` and `free_proc_swap` free
the slot, `freewalk` frees the page table, and `state = UNUSED` frees the entry of the process
table.

The steps of the eviction, of the reaping and of any number of evictions of pages of other processes
interleave freely here. `reap_ignores_eviction` has a schedule for each of the three stale uses, and
`reap_race_safe` says that there is none if the reaper gives away only what the eviction has
finished with.
-/

namespace Xv6.VM

open Raid Function Option

/-! ## The threads -/

/-- Where `kalloc_user` is in the eviction of the page. -/
inductive SwapOutPc where
  /-- `PTE_V` is cleared and the frame is pinned; `framelock` is still held. -/
  | selected
  /-- `framelock` is released. -/
  | released
  /-- `swap_out` has taken the slot. -/
  | allocated (slot : ℕ)
  /-- `PTE_FLAGS(*victim_pte)` is read. -/
  | flagged (slot : ℕ) (flags : Flags)
  /-- `*victim_pte` is written, and so are the first `n` of the three counters. -/
  | counting (slot n : ℕ)
  /-- The first `i` blocks are written. -/
  | writing (slot i : ℕ)
  | finished
  deriving DecidableEq

/-- Where the reaping is, and what becomes of the process-table entry after it. -/
inductive ReapPc where
  | zombie
  /-- In `uvmunmap`, before the entry of the page. -/
  | unmap
  /-- In `uvmunmap`, about to call `free_swap_slot(idx)` for the page. -/
  | freeSlot (idx : ℕ)
  | freewalk
  | freeProcSwap
  | reset
  /-- `freeproc` has returned and the locks are released. -/
  | unused
  /-- `allocproc` has taken the entry for a new process. -/
  | reused
  deriving DecidableEq

/-- Where a page of another process is. -/
inductive OtherPc where
  | resident
  | writing (slot i : ℕ)
  | swapped (slot : ℕ)
  deriving DecidableEq

/-- The pages that swap slots are allocated to: the page that the eviction is about, the other pages
of the same process, and the pages of other processes. -/
inductive SlotPage (O : Type) where
  | victim
  | sibling
  | other (o : O)
  deriving DecidableEq

/-- The state that the threads share, and their program points. -/
structure Reaping (O : Type) where
  /-- The word that `pte` points to. -/
  pte : Pte
  /-- `freewalk` has freed the page that `pte` points into. -/
  tableFreed : Bool
  swaptable : ℕ → SwapSlot
  /-- The page that each slot was last allocated to. The code does not keep it. -/
  page : ℕ → Option (SlotPage O)
  disk : SwapDisk
  /-- The counters in the process-table entry. -/
  stats : VmStats
  evict : SwapOutPc
  reap : ReapPc
  other : O → OtherPc

namespace Reaping

variable {O : Type}

/-- The first part of `swap_out`: the first free slot goes to the page `pg` of `p`. -/
def takeSlot (s : Reaping O) (pg : SlotPage O) (p : ProcId) : Option (ℕ × Reaping O) :=
  (findFreeSlot fun i => (s.swaptable i).inUse).map fun slot =>
    (slot, { s with
      swaptable := update s.swaptable slot { inUse := true, p := some p }
      page := update s.page slot (some pg) })

/-- `free_swap_slot`. -/
def freeSwapSlot (s : Reaping O) (idx : ℕ) : Reaping O :=
  { s with swaptable :=
      if idx < MAX_SWAP_PAGES then update s.swaptable idx {} else s.swaptable }

/-- `free_proc_swap`. -/
def freeProcSwap (s : Reaping O) (p : ProcId) : Reaping O :=
  { s with swaptable := fun i =>
      if i < MAX_SWAP_PAGES ∧ (s.swaptable i).inUse = true ∧ (s.swaptable i).p = some p then {}
      else s.swaptable i }

end Reaping

/-- The three counter updates of `swap_out`, in order. -/
def countSwapOut : ℕ → VmStats → VmStats
  | 0, st => { st with residentPages := st.residentPages - 1 }
  | 1, st => { st with pagesEvicted := st.pagesEvicted + 1 }
  | _, st => { st with pagesSwappedOut := st.pagesSwappedOut + 1 }

/-- A word of a page that `kfree` has filled with ones. -/
def junkPte : Pte where
  num := 0x0101010101010101 / 2 ^ 10
  flags := Pte.flagsOfWord 0x0101010101010101

section Steps

variable {O : Type} [DecidableEq O] (mode : RaidMode) (victim : ProcId)
  (owner : O → { q : ProcId // q ≠ victim }) (contents : SlotPage O → Page)

/-- The next step of the eviction. -/
def swapOutStep (s : Reaping O) : Option (Reaping O) :=
  match s.evict with
  | .selected => some { s with evict := .released }
  | .released =>
    -- otherwise the panic "swap space full"
    (s.takeSlot .victim victim).map fun (slot, s) => { s with evict := .allocated slot }
  | .allocated slot => some { s with evict := .flagged slot s.pte.flags }
  | .flagged slot flags => some { s with pte := .toSwap slot flags, evict := .counting slot 0 }
  | .counting slot n =>
    some { s with
      stats := countSwapOut n s.stats
      evict := if n < 2 then .counting slot (n + 1) else .writing slot 0 }
  | .writing slot i =>
    if h : i < SWAP_BLOCKS_PER_PAGE then
      some { s with
        disk := writeBlock mode (-1) (slot * 4 + i) ((contents .victim).block ⟨i, h⟩) s.disk
        evict := .writing slot (i + 1) }
    else some { s with evict := .finished }
  | .finished => none

/-- The next step of the reaping. -/
def reapStep (s : Reaping O) : Option (Reaping O) :=
  match s.reap with
  | .zombie => some { s with reap := .unmap }
  | .unmap =>
    -- `uvmunmap` passes over an entry with neither bit, as it is while the page is being evicted
    if s.pte.flags.v = false ∧ s.pte.flags.s = false then some { s with reap := .freewalk }
    else if s.pte.flags.s then some { s with pte := {}, reap := .freeSlot s.pte.num }
    else some { s with pte := {}, reap := .freewalk }
  | .freeSlot idx => some { s.freeSwapSlot idx with reap := .freewalk }
  | .freewalk =>
    -- otherwise the panic "freewalk: leaf"
    if s.pte.flags.v = false then
      some { s with pte := junkPte, tableFreed := true, reap := .freeProcSwap }
    else none
  | .freeProcSwap => some { s.freeProcSwap victim with reap := .reset }
  | .reset => some { s with stats := {}, reap := .unused }
  | .unused => some { s with stats := {}, reap := .reused }
  | .reused => none

/-- `uvmunmap` frees the slot of another page of the process. -/
def unmapSibling (idx : ℕ) (s : Reaping O) : Option (Reaping O) :=
  if s.reap = .unmap ∧ s.page idx = some .sibling then some (s.freeSwapSlot idx) else none

/-- The next step of a page of another process: it is swapped out block by block, and later its slot
is freed by `swap_in` or `uvmunmap`. -/
def otherStep (o : O) (s : Reaping O) : Option (Reaping O) :=
  match s.other o with
  | .resident =>
    (s.takeSlot (.other o) (owner o)).map fun (slot, s) =>
      { s with other := update s.other o (.writing slot 0) }
  | .writing slot i =>
    if h : i < SWAP_BLOCKS_PER_PAGE then
      some { s with
        disk := writeBlock mode (-1) (slot * 4 + i) ((contents (.other o)).block ⟨i, h⟩) s.disk
        other := update s.other o (.writing slot (i + 1)) }
    else some { s with other := update s.other o (.swapped slot) }
  | .swapped slot =>
    some { s.freeSwapSlot slot with other := update s.other o .resident }

/-- Which thread takes a step. -/
inductive ReapAct (O : Type) where
  | evict
  | reap
  | sibling (idx : ℕ)
  | other (o : O)
  /-- The page that held the page table is allocated again, and its owner writes to it. -/
  | scribble (word : Pte)

/-- One step of one of the threads. -/
def reapRaceStep (s : Reaping O) : ReapAct O → Option (Reaping O)
  | .evict => swapOutStep mode victim contents s
  | .reap => reapStep victim s
  | .sibling idx => unmapSibling idx s
  | .other o => otherStep mode victim owner contents o s
  | .scribble word => if s.tableFreed then some { s with pte := word } else none

end Steps

/-! ## The claims on slots -/

/-- The slot that a page of another process occupies. -/
def OtherPc.slot : OtherPc → Option ℕ
  | .resident => none
  | .writing slot _ | .swapped slot => some slot

/-- The slot that the eviction has taken, as long as it has blocks left to write there. -/
def SwapOutPc.slot : SwapOutPc → Option ℕ
  | .allocated slot | .flagged slot _ | .counting slot _ => some slot
  | .writing slot i => if i < SWAP_BLOCKS_PER_PAGE then some slot else none
  | .selected | .released | .finished => none

/-- The eviction has yet to write `*victim_pte`. -/
def SwapOutPc.beforeStore : SwapOutPc → Bool
  | .selected | .released | .allocated _ | .flagged _ _ => true
  | .counting _ _ | .writing _ _ | .finished => false

/-- The eviction has yet to write one of the counters. -/
def SwapOutPc.beforeCount : SwapOutPc → Bool
  | .selected | .released | .allocated _ | .flagged _ _ | .counting _ _ => true
  | .writing _ _ | .finished => false

/-- `uvmunmap` has yet to see the entry of the page. -/
def ReapPc.BeforeUnmap : ReapPc → Prop
  | .zombie | .unmap => True
  | .freeSlot _ | .freewalk | .freeProcSwap | .reset | .unused | .reused => False

/-- The reaper is done with the process-table entry. -/
def ReapPc.Done : ReapPc → Prop
  | .unused | .reused => True
  | .zombie | .unmap | .freeSlot _ | .freewalk | .freeProcSwap | .reset => False

/-- The slot is in use for the page `pg` of `p`. -/
def Reaping.Holds {O : Type} (s : Reaping O) (slot : ℕ) (pg : SlotPage O) (p : ProcId) : Prop :=
  s.page slot = some pg ∧ s.swaptable slot = { inUse := true, p := some p }

namespace Reaping.Holds

variable {O : Type} {s s' : Reaping O} {slot idx : ℕ} {pg pg' : SlotPage O} {p q : ProcId}

/-- `swap_out` takes a free slot, so the slots that are held stay so. -/
theorem takeSlot (h : s.Holds slot pg p) (htake : s.takeSlot pg' q = some (idx, s')) :
    s'.Holds slot pg p := by
  obtain ⟨j, hfree, heq⟩ := map_eq_some_iff.mp htake
  cases heq
  have hne : slot ≠ idx := by
    rintro rfl
    have hfalse := findFreeSlot_free hfree
    rw [h.2] at hfalse
    cases hfalse
  exact ⟨(update_of_ne hne ..).trans h.1, (update_of_ne hne ..).trans h.2⟩

/-- The slot that `swap_out` takes is held by the page. -/
theorem of_takeSlot (htake : s.takeSlot pg p = some (slot, s')) : s'.Holds slot pg p := by
  obtain ⟨j, -, heq⟩ := map_eq_some_iff.mp htake
  cases heq
  exact ⟨update_self .., update_self ..⟩

lemma freeSwapSlot (h : s.Holds slot pg p) (hne : slot ≠ idx) :
    (s.freeSwapSlot idx).Holds slot pg p := by
  refine ⟨h.1, ?_⟩
  unfold Reaping.freeSwapSlot
  split_ifs
  · exact (update_of_ne hne ..).trans h.2
  · exact h.2

/-- Slots of different pages are different. -/
theorem ne (h : s.Holds slot pg p) (hidx : s.page idx = some pg') (hne : pg ≠ pg') :
    slot ≠ idx := by
  rintro rfl
  exact hne (Option.some.inj (h.1.symm.trans hidx))

lemma freeProcSwap (h : s.Holds slot pg p) (hne : p ≠ q) :
    (s.freeProcSwap q).Holds slot pg p := by
  refine ⟨h.1, ?_⟩
  have hkeep : ¬(slot < MAX_SWAP_PAGES ∧ (s.swaptable slot).inUse = true ∧
      (s.swaptable slot).p = some q) := by
    rintro ⟨-, -, hp⟩
    rw [h.2] at hp
    exact hne (Option.some.inj hp)
  exact (if_neg hkeep).trans h.2

end Reaping.Holds

section Safety

variable {O : Type} [DecidableEq O] (mode : RaidMode) (victim : ProcId)
  (owner : O → { q : ProcId // q ≠ victim }) (contents : SlotPage O → Page)

/-- All interleavings, from a state where the page of a zombie has just been selected. -/
def reapSystem : TransitionSystem (Reaping O) (ReapAct O) where
  init s := s.evict = .selected ∧ s.reap = .zombie ∧ s.pte.flags.v = false ∧
    s.pte.flags.s = false ∧ s.tableFreed = false ∧
    ∀ o slot, (s.other o).slot = some slot → s.Holds slot (.other o) (owner o)
  step s act s' := reapRaceStep mode victim owner contents s act = some s'

/-- The next step of the eviction is none of the stale uses: it writes a block only to a slot that
was not allocated to another page since, writes `*victim_pte` only in a page table, and changes the
counters only of the process whose page it evicts. -/
def NoStaleUse (s : Reaping O) : Prop :=
  (∀ slot i, s.evict = .writing slot i → i < SWAP_BLOCKS_PER_PAGE →
    s.page slot = some .victim) ∧
  (∀ slot flags, s.evict = .flagged slot flags → s.tableFreed = false) ∧
  (∀ slot n, s.evict = .counting slot n → s.reap ≠ .reused)

/-- The eviction has finished with what the next step of the reaper gives away. -/
def FinishedWith (evict : SwapOutPc) : ReapPc → Prop
  | .freeSlot idx => evict.slot ≠ some idx
  | .freewalk => evict.beforeStore = false
  | .freeProcSwap => evict.slot = none
  | .reset => evict.beforeCount = false
  | .zombie | .unmap | .unused | .reused => True

instance (evict : SwapOutPc) : DecidablePred (FinishedWith evict)
  | .freeSlot idx => inferInstanceAs (Decidable (evict.slot ≠ some idx))
  | .freewalk => inferInstanceAs (Decidable (evict.beforeStore = false))
  | .freeProcSwap => inferInstanceAs (Decidable (evict.slot = none))
  | .reset => inferInstanceAs (Decidable (evict.beforeCount = false))
  | .zombie | .unmap | .unused | .reused => isTrue trivial

/-- The condition on a step: the reaper does not free a slot that the eviction still writes to, nor
the page table before the eviction has stored to it, nor the process-table entry before the eviction
has counted in it. -/
def ReapSafe (s : Reaping O) : ReapAct O → Prop
  | .reap => FinishedWith s.evict s.reap
  | .evict | .sibling _ | .other _ | .scribble _ => True

instance (s : Reaping O) : DecidablePred (ReapSafe s)
  | .reap => inferInstanceAs (Decidable (FinishedWith s.evict s.reap))
  | .evict | .sibling _ | .other _ | .scribble _ => isTrue trivial

/-- The invariant of the runs that meet the condition. -/
structure ReapInv (s : Reaping O) : Prop where
  /-- The eviction holds its slot until its last block is written. -/
  window : ∀ slot, s.evict.slot = some slot → s.Holds slot .victim victim
  /-- A swapped entry that `uvmunmap` has yet to see names the slot of the page. -/
  entry : s.reap.BeforeUnmap → s.pte.flags.s = true → s.Holds s.pte.num .victim victim
  freeing : ∀ idx, s.reap = .freeSlot idx → s.Holds idx .victim victim
  others : ∀ o slot, (s.other o).slot = some slot → s.Holds slot (.other o) (owner o)
  table : s.evict.beforeStore = true → s.tableFreed = false
  freed : s.tableFreed = true → ¬s.reap.BeforeUnmap
  count : s.evict.beforeCount = true → ¬s.reap.Done

variable {mode victim owner contents} {s s' : Reaping O}

omit [DecidableEq O] in
lemma ReapInv.swapOutStep (h : ReapInv victim owner s)
    (hstep : swapOutStep mode victim contents s = some s') : ReapInv victim owner s' := by
  obtain ⟨pte, tableFreed, swaptable, page, disk, stats, evict, reap, other⟩ := s
  cases evict with
  | selected =>
    cases hstep
    exact { h with window := nofun }
  | released =>
    simp only [VM.swapOutStep] at hstep
    obtain ⟨⟨slot, t⟩, htake, rfl⟩ := map_eq_some_iff.mp hstep
    have hkeep := fun {j pg p} (hj : Reaping.Holds _ j pg p) => hj.takeSlot htake
    have hslot := Reaping.Holds.of_takeSlot htake
    obtain ⟨j, -, heq⟩ := map_eq_some_iff.mp htake
    cases heq
    exact {
      window := by
        rintro _ ⟨⟩
        exact hslot
      entry := fun hreap hs => hkeep (h.entry hreap hs)
      freeing := fun idx hidx => hkeep (h.freeing idx hidx)
      others := fun o k hk => hkeep (h.others o k hk)
      table := fun _ => h.table rfl
      freed := h.freed
      count := fun _ => h.count rfl }
  | allocated slot =>
    cases hstep
    exact { h with }
  | flagged slot flags =>
    cases hstep
    exact { h with
      entry := fun _ _ => h.window slot rfl
      table := nofun }
  | counting slot n =>
    cases hstep
    by_cases hn : n < 2
    · simp only [hn, if_true]
      exact { h with }
    · simp only [hn, if_false]
      exact { h with
        window := h.window
        count := nofun }
  | writing slot i =>
    simp only [VM.swapOutStep] at hstep
    split_ifs at hstep with hi
    · cases hstep
      refine { h with window := fun k hk => h.window k ?_ }
      simp only [SwapOutPc.slot, hi, if_true]
      exact (ite_none_right_eq_some.mp hk).2
    · cases hstep
      exact { h with window := nofun }
  | finished => cases hstep

omit [DecidableEq O] in
/-- Once `uvmunmap` has passed the page, nothing depends on the entry any more. -/
private theorem ReapInv.of_passed (hreap : ¬s.reap.BeforeUnmap)
    (hfreeing : ∀ idx, s.reap ≠ .freeSlot idx)
    (window : ∀ slot, s.evict.slot = some slot → s.Holds slot .victim victim)
    (others : ∀ o slot, (s.other o).slot = some slot → s.Holds slot (.other o) (owner o))
    (table : s.evict.beforeStore = true → s.tableFreed = false)
    (count : s.evict.beforeCount = true → ¬s.reap.Done) : ReapInv victim owner s where
  window := window
  entry := fun hc => absurd hc hreap
  freeing := fun idx hc => absurd hc (hfreeing idx)
  others := others
  table := table
  freed := fun _ => hreap
  count := count

omit [DecidableEq O] in
lemma ReapInv.reapStep (h : ReapInv victim owner s) (hsafe : ReapSafe s .reap)
    (hstep : reapStep victim s = some s') : ReapInv victim owner s' := by
  obtain ⟨pte, tableFreed, swaptable, page, disk, stats, evict, reap, other⟩ := s
  cases reap with
  | zombie =>
    cases hstep
    exact { h with freeing := fun _ hc => by cases hc }
  | unmap =>
    simp only [VM.reapStep] at hstep
    split_ifs at hstep with hskip hs <;> cases hstep
    · exact .of_passed id (by simp) h.window h.others h.table fun _ => id
    · exact { h with
        entry := fun hc => hc.elim
        freed := fun _ => id
        freeing := by
          rintro _ ⟨⟩
          exact h.entry trivial hs }
    · exact .of_passed id (by simp) h.window h.others h.table fun _ => id
  | freeSlot idx =>
    cases hstep
    have hidx : page idx = some .victim := (h.freeing idx rfl).1
    refine .of_passed id (by simp) (fun slot hslot => ?_) (fun o slot hslot => ?_) h.table
      fun _ => id
    · -- by the condition, this is not the slot that the eviction writes to
      have hne : slot ≠ idx := by
        rintro rfl
        exact hsafe hslot
      exact (h.window slot hslot).freeSwapSlot hne
    · have hheld := h.others o slot hslot
      exact hheld.freeSwapSlot (hheld.ne hidx (by simp))
  | freewalk =>
    simp only [VM.reapStep] at hstep
    split_ifs at hstep
    cases hstep
    refine .of_passed id (by simp) h.window h.others ?_ fun _ => id
    exact fun hc => absurd (hc.symm.trans hsafe) (by decide)
  | freeProcSwap =>
    cases hstep
    refine .of_passed id (by simp) (fun slot hslot => ?_)
      (fun o slot hslot => (h.others o slot hslot).freeProcSwap (owner o).2) h.table fun _ => id
    have hnone : evict.slot = none := hsafe
    have hsome : evict.slot = some slot := hslot
    rw [hnone] at hsome
    cases hsome
  | reset =>
    cases hstep
    refine .of_passed id (by simp) h.window h.others h.table ?_
    exact fun hc => absurd (hc.symm.trans hsafe) (by decide)
  | unused =>
    cases hstep
    exact .of_passed id (by simp) h.window h.others h.table fun hc => absurd trivial (h.count hc)
  | reused => cases hstep

/-- `uvmunmap` frees the slots of the other pages of the process; the invariant is not about
them. -/
theorem ReapInv.unmapSibling {idx : ℕ} (h : ReapInv victim owner s)
    (hstep : unmapSibling idx s = some s') : ReapInv victim owner s' := by
  unfold VM.unmapSibling at hstep
  split_ifs at hstep with hcond
  cases hstep
  have hkeep : ∀ {slot pg p}, pg ≠ .sibling → s.Holds slot pg p →
      (s.freeSwapSlot idx).Holds slot pg p :=
    fun hne hheld => hheld.freeSwapSlot (hheld.ne hcond.2 hne)
  exact {
    window := fun slot hslot => hkeep (by simp) (h.window slot hslot)
    entry := fun hreap hs => hkeep (by simp) (h.entry hreap hs)
    freeing := fun j hj => hkeep (by simp) (h.freeing j hj)
    others := fun o slot hslot => hkeep (by simp) (h.others o slot hslot)
    table := h.table
    freed := h.freed
    count := h.count }

/-- The steps of the other pages keep the invariant: they take free slots and free their own. -/
theorem ReapInv.otherStep {o : O} (h : ReapInv victim owner s)
    (hstep : otherStep mode victim owner contents o s = some s') : ReapInv victim owner s' := by
  cases hother : s.other o with
  | resident =>
    simp only [VM.otherStep, hother] at hstep
    obtain ⟨⟨slot, t⟩, htake, rfl⟩ := map_eq_some_iff.mp hstep
    have hkeep := fun {j pg p} (hj : s.Holds j pg p) => hj.takeSlot htake
    have hslot := Reaping.Holds.of_takeSlot htake
    obtain ⟨j, -, heq⟩ := map_eq_some_iff.mp htake
    cases heq
    exact {
      window := fun k hk => hkeep (h.window k hk)
      entry := fun hreap hs => hkeep (h.entry hreap hs)
      freeing := fun idx hidx => hkeep (h.freeing idx hidx)
      others := by
        intro q k hk
        by_cases hq : q = o
        · subst hq
          simp only [update_self] at hk
          cases hk
          exact hslot
        · simp only [update_of_ne hq] at hk
          exact hkeep (h.others q k hk)
      table := h.table
      freed := h.freed
      count := h.count }
  | writing slot i =>
    have hheld := h.others o slot (by rw [hother]; rfl)
    simp only [VM.otherStep, hother] at hstep
    split_ifs at hstep with hi <;> cases hstep <;>
      exact { h with
        others := by
          intro q k hk
          by_cases hq : q = o
          · subst hq
            simp only [update_self] at hk
            cases hk
            exact hheld
          · simp only [update_of_ne hq] at hk
            exact h.others q k hk }
  | swapped slot =>
    have hheld := h.others o slot (by rw [hother]; rfl)
    simp only [VM.otherStep, hother] at hstep
    cases hstep
    have hkeep : ∀ {k pg p}, pg ≠ .other o → s.Holds k pg p →
        (s.freeSwapSlot slot).Holds k pg p :=
      fun hne hk => hk.freeSwapSlot (hk.ne hheld.1 hne)
    exact {
      window := fun k hk => hkeep (by simp) (h.window k hk)
      entry := fun hreap hs => hkeep (by simp) (h.entry hreap hs)
      freeing := fun idx hidx => hkeep (by simp) (h.freeing idx hidx)
      others := by
        intro q k hk
        by_cases hq : q = o
        · subst hq
          simp only [update_self] at hk
          cases hk
        · simp only [update_of_ne hq] at hk
          exact hkeep (by simpa using hq) (h.others q k hk)
      table := h.table
      freed := h.freed
      count := h.count }

/-- **Reaping in step with the eviction is safe.** Take any interleaving of the eviction of a page
of a zombie, the reaping of the zombie and evictions of pages of other processes. If the reaper
frees the slot, the page table and the process-table entry only once the eviction has finished with
each, no stale use is ever about to happen. -/
theorem reap_race_safe
    (h : ((reapSystem mode victim owner contents).restrict ReapSafe).Reachable s) :
    NoStaleUse s := by
  have hinv : ReapInv victim owner s := by
    refine h.invariant (I := ReapInv victim owner) ?_ ?_
    · rintro s ⟨he, hr, -, hs, ht, ho⟩
      exact {
        window := fun slot hc => by rw [he] at hc; cases hc
        entry := fun _ hc => by rw [hs] at hc; cases hc
        freeing := fun idx hc => by rw [hr] at hc; cases hc
        others := ho
        table := fun _ => ht
        freed := fun hc => by rw [ht] at hc; cases hc
        count := fun _ hc => by rw [hr] at hc; exact hc }
    · rintro s (_ | _ | idx | o | word) s' - hI ⟨hsafe, hstep⟩
      · exact hI.swapOutStep hstep
      · exact hI.reapStep hsafe hstep
      · exact hI.unmapSibling hstep
      · exact hI.otherStep hstep
      · simp only [reapSystem, reapRaceStep] at hstep
        split_ifs at hstep with hfreed
        cases hstep
        exact { hI with entry := fun hc => absurd hc (hI.freed hfreed) }
  refine ⟨fun slot i he hi => ?_, fun slot flags he => ?_, fun slot n he hc => ?_⟩
  · exact (hinv.window slot (by rw [he]; exact if_pos hi)).1
  · exact hinv.table (by rw [he]; rfl)
  · exact hinv.count (by rw [he]; rfl) (by rw [hc]; trivial)

end Safety

/-! ## Schedules -/

/-- A page of process 3, a zombie, is about to be swapped out; no slot is in use, and one page of
process 4 is resident. -/
def zombieSelected : Reaping Unit where
  pte := { num := 8, flags := { r := true, w := true, u := true } }
  tableFreed := false
  swaptable _ := {}
  page _ := none
  disk := SwapDisk.zero
  stats := { residentPages := 1 }
  evict := .selected
  reap := .zombie
  other _ := .resident

/-- The process of the page of another process. -/
def processFour (_ : Unit) : { q : ProcId // q ≠ ⟨3, by decide⟩ } :=
  ⟨⟨4, by decide⟩, by decide⟩

/-- The steps with RAID 0. -/
def zombieStep : Reaping Unit → ReapAct Unit → Option (Reaping Unit) :=
  reapRaceStep .striping ⟨3, by decide⟩ processFour fun _ => 0

/-- The interleavings with RAID 0. -/
def zombieSystem : TransitionSystem (Reaping Unit) (ReapAct Unit) :=
  reapSystem .striping ⟨3, by decide⟩ processFour fun _ => 0

private lemma zombieSelected_init : zombieSystem.init zombieSelected :=
  ⟨rfl, rfl, rfl, rfl, rfl, fun _ _ h => by cases h⟩

/-- A schedule from `zombieSelected` that ends in a state with the decidable property `P`. -/
private theorem zombie_reachable {P : Reaping Unit → Prop} [DecidablePred P]
    (acts : List (ReapAct Unit))
    (h : (acts.foldlM zombieStep zombieSelected).any (fun s => decide (P s)) = true) :
    ∃ s, zombieSystem.Reachable s ∧ P s := by
  have hstart : zombieSystem.Reachable zombieSelected := .init zombieSelected_init
  exact hstart.exists_of_foldlM (fun _ _ _ => id) h

/-- **The reaper does not wait for the eviction.** In the first schedule the reaper frees slot 0
when two of its blocks are written, and a page of process 4 gets the slot before the other two are.
In the second one it frees the page table before `swap_out` stores to it: `uvmunmap` passed over the
entry, which had neither bit. In the third one a new process gets the process-table entry before
`swap_out` counts the eviction there. -/
theorem reap_ignores_eviction :
    (∃ s, zombieSystem.Reachable s ∧ s.evict = .writing 0 2 ∧ s.page 0 = some (.other ())) ∧
    (∃ s, zombieSystem.Reachable s ∧ s.evict = .flagged 0 zombieSelected.pte.flags ∧
      s.tableFreed = true) ∧
    ∃ s, zombieSystem.Reachable s ∧ s.evict = .counting 0 0 ∧ s.reap = .reused := by
  refine ⟨?_, ?_, ?_⟩
  · exact zombie_reachable
      (List.replicate 9 .evict ++ List.replicate 3 .reap ++ [.other ()]) (by decide +kernel)
  · exact zombie_reachable (List.replicate 3 .evict ++ List.replicate 3 .reap) (by decide +kernel)
  · exact zombie_reachable (List.replicate 4 .evict ++ List.replicate 7 .reap) (by decide +kernel)

/-- The reaper waits before `free_swap_slot` until the four blocks are written; then it goes on, and
process 4 swaps out its page. -/
theorem reap_race_safe_waiting :
    ∃ s, (zombieSystem.restrict ReapSafe).Reachable s ∧ s.reap = .reused ∧
      s.page 0 = some (.other ()) ∧ NoStaleUse s := by
  let acts : List (ReapAct Unit) := List.replicate 7 .evict ++ List.replicate 2 .reap ++
    List.replicate 4 .evict ++ List.replicate 5 .reap ++ [.other ()]
  have hany : (acts.foldlM (fun s act => if ReapSafe s act then zombieStep s act else none)
      zombieSelected).any
        (fun s => decide (s.reap = .reused ∧ s.page 0 = some (.other ()))) = true := by
    decide +kernel
  have hstart : (zombieSystem.restrict ReapSafe).Reachable zombieSelected :=
    .init zombieSelected_init
  obtain ⟨s, hreach, hreap, hpage⟩ :=
    hstart.exists_of_foldlM (TransitionSystem.restrict_step_of_ite fun _ _ _ => id) hany
  exact ⟨s, hreach, hreap, hpage, reap_race_safe hreach⟩

end Xv6.VM
