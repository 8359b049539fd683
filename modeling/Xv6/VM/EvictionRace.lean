import Xv6.VM.Pte
import Xv6.Raid.ModeChange

/-!
# An eviction that interleaves with a fault of its victim

`kalloc_user` evicts a page in several steps: under `framelock` it clears `PTE_V` and marks the
frame as being written (`in_use = 2`); then it releases the lock, `swap_out` picks a slot and sets
`PTE_S`, and `raid_write_page` writes the four blocks, sleeping between them. Meanwhile the victim
may fault on the same page: `vmfault` tests `PTE_V`, allocates a frame, tests `PTE_S`, and then
either reads the four blocks back or maps a page of zeros.

No lock spans these steps, and two windows are open: between clearing `PTE_V` and setting `PTE_S`
the page looks like one that was never allocated, and from setting `PTE_S` on it looks swapped out
although its blocks are not yet written. `fault_between_bits_loses_page` is a schedule through the
first window. `eviction_race_safe` says that a schedule that stays out of both keeps the page.
-/

namespace Xv6.VM

open Raid Function Page

/-! ## The two threads -/

/-- Where the eviction is. -/
inductive EvictPc where
  | start
  | cleared
  | released
  | writing (slot i : ℕ)
  | finished (slot : ℕ)
  deriving DecidableEq

/-- Where the fault is; `pa` is the frame it has allocated. -/
inductive FaultPc where
  | testV
  | alloc
  | testS (pa : ℕ)
  | getIndex (pa : ℕ)
  | reading (pa slot i : ℕ)
  | zeroFilled (pa : ℕ)
  | finished
  deriving DecidableEq

/-- The state that the two threads share, and their program points. -/
structure Race where
  /-- The page-table entry of the page. -/
  pte : Pte
  /-- The contents of the frames. -/
  mem : ℕ → Page
  /-- The swap region. -/
  disk : SwapDisk
  /-- `swaptable[i].in_use`. -/
  swapInUse : ℕ → Bool
  /-- `framelock` is held. -/
  framelock : Bool
  /-- The frame of the victim has `in_use = 2`. -/
  pinned : Bool
  evict : EvictPc
  fault : FaultPc

variable (mode : RaidMode) (victimPa : ℕ) (old : Page)

/-- The next step of the eviction of the page in frame `victimPa`. -/
def evictStep (r : Race) : Option Race :=
  match r.evict with
  | .start =>
    if r.framelock = false ∧ r.pte.flags.v = true ∧ r.pte.num = victimPa then
      some { r with
        pte := r.pte.clearV
        pinned := true
        framelock := true
        evict := .cleared }
    else none
  | .cleared => some { r with framelock := false, evict := .released }
  | .released =>
    (findFreeSlot r.swapInUse).map fun slot =>
      { r with
        pte := .toSwap slot r.pte.flags
        swapInUse := update r.swapInUse slot true
        evict := .writing slot 0 }
  | .writing slot i =>
    if h : i < SWAP_BLOCKS_PER_PAGE then
      some { r with
        disk := writeBlock mode (-1) (slot * 4 + i) ((r.mem victimPa).block ⟨i, h⟩) r.disk
        evict := .writing slot (i + 1) }
    else if r.framelock = false then
      -- the frame now belongs to the evicting process
      some { r with
        mem := update r.mem victimPa (fill 5)
        pinned := false
        evict := .finished slot }
    else none
  | .finished _ => none

/-- The next step of the fault. `frame` is the frame that `kalloc_user` returns, which is not one
with `in_use = 2`. -/
def faultStep (frame : ℕ) (r : Race) : Option Race :=
  match r.fault with
  | .testV => some { r with fault := if r.pte.flags.v then .finished else .alloc }
  | .alloc =>
    if r.framelock = false ∧ ¬(r.pinned = true ∧ frame = victimPa) then
      some { r with
        mem := update r.mem frame (fill 5)
        fault := .testS frame }
    else none
  | .testS pa =>
    if r.pte.flags.s then some { r with fault := .getIndex pa }
    else some { r with mem := update r.mem pa 0, fault := .zeroFilled pa }
  | .getIndex pa =>
    -- otherwise the panic "swap_in_page: invalid index"
    if r.pte.num < MAX_SWAP_PAGES then some { r with fault := .reading pa r.pte.num 0 } else none
  | .reading pa slot i =>
    if h : i < SWAP_BLOCKS_PER_PAGE then
      let (b, disk) := readBlock mode (-1) (slot * 4 + i) r.disk
      some { r with
        mem := update r.mem pa ((r.mem pa).setBlock ⟨i, h⟩ b)
        disk := disk
        fault := .reading pa slot (i + 1) }
    else
      some { r with
        swapInUse := update r.swapInUse slot false
        pte := .toFrame pa r.pte.flags
        fault := .finished }
  | .zeroFilled pa =>
    -- otherwise the panic "mappages: remap"
    if r.pte.flags.v = false then
      some { r with pte := .map pa { w := true, u := true, r := true }, fault := .finished }
    else none
  | .finished => none

/-- Which thread takes a step. -/
inductive RaceAct where
  | evict
  | fault (frame : ℕ)

/-- One step of one of the threads. -/
def raceStep (r : Race) : RaceAct → Option Race
  | .evict => evictStep mode victimPa r
  | .fault frame => faultStep mode victimPa frame r

/-- All interleavings of the two threads, from a resident page with contents `old`. -/
def raceSystem : TransitionSystem Race RaceAct where
  init r := r.evict = .start ∧ r.fault = .testV ∧ r.pte.flags.v = true ∧ r.pte.flags.s = false ∧
    r.pte.num = victimPa ∧ r.mem victimPa = old ∧ r.framelock = false
  step r act r' := raceStep mode victimPa r act = some r'

/-- The contents of the page: its frame, its slot, or zeros. -/
def pageContents (r : Race) : Page :=
  if r.pte.flags.v then r.mem r.pte.num
  else if r.pte.flags.s then (raidReadPage r.pte.num 0 mode (-1) r.disk).1
  else 0

/-- Block `i` of the page has been written by the eviction. -/
def Written (r : Race) (i : ℕ) : Prop :=
  match r.evict with
  | .writing _ k => i < k
  | .finished _ => True
  | _ => False

/-- The condition on a step: `mappages` does not run with `PTE_S` set, and `swap_in` reads only
blocks that the eviction has written. -/
def RaceSafe (r : Race) : RaceAct → Prop
  | .evict => True
  | .fault _ =>
    match r.fault with
    | .zeroFilled _ => r.pte.flags.s = false
    | .reading _ _ i => i < SWAP_BLOCKS_PER_PAGE → Written r i
    | _ => True

/-! ## The invariant -/

/-- The first `k` blocks of `old` are in the slot. -/
def Stored (r : Race) (slot k : ℕ) : Prop :=
  ∀ i : Fin SWAP_BLOCKS_PER_PAGE, i.val < k →
    (readBlock mode (-1) (slot * 4 + i) r.disk).1 = old.block i

/-- The entry says that the page is in `slot`. -/
def SwappedTo (r : Race) (slot : ℕ) : Prop :=
  r.pte.flags.v = false ∧ r.pte.flags.s = true ∧ r.pte.num = slot

/-- The frame `pa` of the fault is not the one that is being evicted. -/
def Apart (r : Race) (pa : ℕ) : Prop := r.pinned = true → pa ≠ victimPa

/-- Before `PTE_S` is set, the fault can at most map zeros, which `swap_out` then overrides. -/
def FaultBefore (r : Race) : FaultPc → Prop
  | .testV | .alloc | .finished => True
  | .testS pa | .zeroFilled pa => Apart victimPa r pa
  | .getIndex _ | .reading _ _ _ => False

/-- After `PTE_S` is set with the first `k` blocks written, the fault has either not changed the
entry or has completed with the page restored. -/
def FaultAfter (r : Race) (slot k : ℕ) : FaultPc → Prop
  | .testV | .alloc => SwappedTo r slot
  | .testS pa | .zeroFilled pa | .getIndex pa => SwappedTo r slot ∧ Apart victimPa r pa
  | .reading pa slot' i =>
      SwappedTo r slot ∧ Apart victimPa r pa ∧ slot' = slot ∧ i ≤ k ∧
        ∀ j : Fin SWAP_BLOCKS_PER_PAGE, j.val < i → (r.mem pa).block j = old.block j
  | .finished => SwappedTo r slot ∨
      (r.pte.flags.v = true ∧ r.mem r.pte.num = old ∧ Apart victimPa r r.pte.num)

/-- What holds at each point of the eviction. -/
def RaceInvAt (r : Race) : EvictPc → Prop
  | .start => r.pte.flags.v = true ∧ r.pte.flags.s = false ∧ r.mem victimPa = old ∧
      r.pte.num = victimPa ∧ (r.fault = .testV ∨ r.fault = .finished)
  | .cleared | .released => r.pinned = true ∧ r.pte.flags.s = false ∧ r.mem victimPa = old ∧
      FaultBefore victimPa r r.fault
  | .writing slot i => r.pinned = true ∧ r.mem victimPa = old ∧ slot < MAX_SWAP_PAGES ∧
      i ≤ SWAP_BLOCKS_PER_PAGE ∧ Stored mode old r slot i ∧ FaultAfter victimPa old r slot i r.fault
  | .finished slot => Stored mode old r slot SWAP_BLOCKS_PER_PAGE ∧
      FaultAfter victimPa old r slot SWAP_BLOCKS_PER_PAGE r.fault

variable {mode victimPa old} {r r' : Race}

/-! ## Steps of the eviction -/

private lemma Stored.write {slot i : ℕ} (h : Stored mode old r slot i)
    (hslot : slot < MAX_SWAP_PAGES) (hi : i < SWAP_BLOCKS_PER_PAGE) :
    Stored mode old
      { r with disk := writeBlock mode (-1) (slot * 4 + i) (old.block ⟨i, hi⟩) r.disk } slot
      (i + 1) := by
  intro j hj
  have hoff := offsetOf_lt_of_slot mode hslot j
  have hoff' := offsetOf_lt_of_slot mode hslot ⟨i, hi⟩
  refine (readBlock_writeBlock mode _ r.disk hoff' hoff).trans ?_
  by_cases hji : j.val = i
  · rw [if_pos (by rw [hji])]
    exact congrArg old.block (Fin.ext hji.symm)
  · rw [if_neg (fun hc => hji (by simpa using hc))]
    exact h j (by omega)

lemma raceInv_evictStep (h : RaceInvAt mode victimPa old r r.evict)
    (hstep : evictStep mode victimPa r = some r') : RaceInvAt mode victimPa old r' r'.evict := by
  obtain ⟨pte, mem, disk, swapInUse, framelock, pinned, evict, fault⟩ := r
  cases evict with
  | start =>
    obtain ⟨-, hs, hmem, -, hfault⟩ := h
    simp only [evictStep] at hstep
    split_ifs at hstep
    cases hstep
    refine ⟨rfl, hs, hmem, ?_⟩
    rcases hfault with hf | hf <;>
      · simp only at hf
        subst hf
        trivial
  | cleared =>
    obtain ⟨hpin, hs, hmem, hfault⟩ := h
    cases hstep
    exact ⟨hpin, hs, hmem, by cases fault <;> exact hfault⟩
  | released =>
    obtain ⟨hpin, hs, hmem, hfault⟩ := h
    simp only [evictStep] at hstep
    obtain ⟨slot, hfree, rfl⟩ := Option.map_eq_some_iff.mp hstep
    have hslot : slot < MAX_SWAP_PAGES := findFreeSlot_lt hfree
    refine ⟨hpin, hmem, hslot, Nat.zero_le _, fun i hi => absurd hi (Nat.not_lt_zero _), ?_⟩
    have hswapped : SwappedTo ⟨.toSwap slot pte.flags, mem, disk,
        update swapInUse slot true, framelock, pinned, .writing slot 0, fault⟩ slot :=
      ⟨rfl, rfl, rfl⟩
    cases fault with
    | testV | alloc => exact hswapped
    | testS | zeroFilled => exact ⟨hswapped, hfault⟩
    | getIndex | reading => exact hfault.elim
    | finished => exact Or.inl hswapped
  | writing slot i =>
    obtain ⟨hpin, hmem, hslot, hi, hstored, hfault⟩ := h
    simp only at hpin hmem
    subst hpin
    simp only [evictStep] at hstep
    split_ifs at hstep with hlt hlock
    · cases hstep
      refine ⟨rfl, hmem, hslot, hlt, ?_, ?_⟩
      · simp only [hmem]
        exact hstored.write hslot hlt
      · cases fault with
        | reading pa slot' j =>
          obtain ⟨hsw, hap, hsl, hle, hblocks⟩ := hfault
          exact ⟨hsw, hap, hsl, Nat.le_succ_of_le hle, hblocks⟩
        | _ => exact hfault
    · cases hstep
      -- the frame is reused from here on; the fault has a frame of its own
      have hi4 : i = SWAP_BLOCKS_PER_PAGE := by omega
      subst hi4
      refine ⟨hstored, ?_⟩
      cases fault with
      | testV | alloc => exact hfault
      | testS | zeroFilled | getIndex => exact ⟨hfault.1, fun hc => by cases hc⟩
      | reading pa slot' j =>
        obtain ⟨hsw, hap, hsl, hle, hblocks⟩ := hfault
        refine ⟨hsw, fun hc => (by cases hc), hsl, hle, fun k hk => ?_⟩
        simp only [update_of_ne (hap rfl)]
        exact hblocks k hk
      | finished =>
        rcases hfault with hsw | ⟨hv, hold, hap⟩
        · exact Or.inl hsw
        · refine Or.inr ⟨hv, ?_, fun hc => by cases hc⟩
          simp only [update_of_ne (hap rfl)]
          exact hold
  | finished slot => cases hstep

/-! ## Steps of the fault -/

/-- What the fault needs of the invariant once `PTE_S` is set, at both points of the eviction. -/
private theorem faultAfter_step {frame slot k : ℕ} (hk : k ≤ SWAP_BLOCKS_PER_PAGE)
    (hwritten : ∀ i < SWAP_BLOCKS_PER_PAGE, Written r i → i < k)
    (hstored : Stored mode old r slot k) (h : FaultAfter victimPa old r slot k r.fault)
    (hsafe : RaceSafe r (.fault frame)) (hstep : faultStep mode victimPa frame r = some r') :
    FaultAfter victimPa old r' slot k r'.fault ∧ Stored mode old r' slot k ∧
      (r.pinned = true → r'.mem victimPa = r.mem victimPa) ∧ r'.pinned = r.pinned ∧
      r'.evict = r.evict := by
  obtain ⟨pte, mem, disk, swapInUse, framelock, pinned, evict, fault⟩ := r
  cases fault with
  | testV =>
    have hsw : pte.flags.v = false ∧ pte.flags.s = true ∧ pte.num = slot := h
    cases hstep
    refine ⟨?_, hstored, fun _ => rfl, rfl, rfl⟩
    simp only [hsw.1, Bool.false_eq_true, if_false]
    exact h
  | alloc =>
    simp only [faultStep] at hstep
    split_ifs at hstep with hcond
    cases hstep
    have hap : Apart victimPa ⟨pte, update mem frame (fill 5), disk, swapInUse,
        framelock, pinned, evict, .testS frame⟩ frame := fun hp hc => hcond.2 ⟨hp, hc⟩
    exact ⟨⟨h, hap⟩, hstored, fun hp => update_of_ne (Ne.symm (hap hp)) .., rfl, rfl⟩
  | testS pa =>
    obtain ⟨hsw, hap⟩ := h
    have hs : pte.flags.s = true := hsw.2.1
    simp only [faultStep, hs, if_true] at hstep
    cases hstep
    exact ⟨⟨hsw, hap⟩, hstored, fun _ => rfl, rfl, rfl⟩
  | getIndex pa =>
    obtain ⟨hsw, hap⟩ := h
    simp only [faultStep] at hstep
    split_ifs at hstep
    cases hstep
    exact ⟨⟨hsw, hap, hsw.2.2, Nat.zero_le _, fun j hj => absurd hj (Nat.not_lt_zero _)⟩, hstored,
      fun _ => rfl, rfl, rfl⟩
  | reading pa slot' i =>
    obtain ⟨hsw, hap, rfl, hle, hblocks⟩ := h
    simp only [faultStep] at hstep
    split_ifs at hstep with hlt
    · cases hstep
      have hik : i < k := hwritten i hlt (hsafe hlt)
      have hread := hstored ⟨i, hlt⟩ hik
      refine ⟨⟨hsw, hap, rfl, hik, fun j hj => ?_⟩, fun j hj => ?_, fun hp => ?_, rfl, rfl⟩
      · simp only [update_self, block_setBlock]
        split_ifs with hji
        · rw [hji]
          exact hread
        · have hne : j.val ≠ i := fun hc => hji (Fin.ext hc)
          exact hblocks j (by omega)
      · refine (readBlock_fst_congr mode (-1) _ ?_).trans (hstored j hj)
        exact readBlock_blocks ..
      · exact update_of_ne (Ne.symm (hap hp)) ..
    · cases hstep
      refine ⟨Or.inr ⟨rfl, ext_block fun j => ?_, hap⟩, hstored, fun _ => rfl, rfl, rfl⟩
      exact hblocks j (by have := j.isLt; omega)
  | zeroFilled pa =>
    -- the page is swapped out, so `mappages` would lose it
    obtain ⟨hsw, -⟩ := h
    have hs : pte.flags.s = true := hsw.2.1
    rw [show pte.flags.s = false from hsafe] at hs
    cases hs
  | finished => cases hstep

/-- The steps of the fault before `PTE_S` is set. -/
private theorem faultBefore_step {frame : ℕ} (hpin : r.pinned = true)
    (hs : r.pte.flags.s = false) (h : FaultBefore victimPa r r.fault)
    (hstep : faultStep mode victimPa frame r = some r') :
    FaultBefore victimPa r' r'.fault ∧ r'.pte.flags.s = false ∧
      r'.mem victimPa = r.mem victimPa ∧ r'.pinned = r.pinned ∧ r'.evict = r.evict := by
  obtain ⟨pte, mem, disk, swapInUse, framelock, pinned, evict, fault⟩ := r
  cases fault with
  | testV =>
    cases hstep
    refine ⟨?_, hs, rfl, rfl, rfl⟩
    simp only
    split_ifs <;> trivial
  | alloc =>
    simp only [faultStep] at hstep
    split_ifs at hstep with hcond
    cases hstep
    have hne : frame ≠ victimPa := fun hc => hcond.2 ⟨hpin, hc⟩
    exact ⟨fun _ => hne, hs, update_of_ne hne.symm .., rfl, rfl⟩
  | testS pa =>
    have hs' : pte.flags.s = false := hs
    simp only [faultStep, hs', Bool.false_eq_true, if_false] at hstep
    cases hstep
    exact ⟨h, hs, update_of_ne (Ne.symm (h hpin)) .., rfl, rfl⟩
  | zeroFilled pa =>
    simp only [faultStep] at hstep
    split_ifs at hstep
    cases hstep
    exact ⟨trivial, rfl, rfl, rfl, rfl⟩
  | getIndex | reading => exact h.elim
  | finished => cases hstep

lemma raceInv_faultStep {frame : ℕ} (h : RaceInvAt mode victimPa old r r.evict)
    (hsafe : RaceSafe r (.fault frame)) (hstep : faultStep mode victimPa frame r = some r') :
    RaceInvAt mode victimPa old r' r'.evict := by
  cases hevict : r.evict with
  | start =>
    rw [hevict] at h
    obtain ⟨hv, hs, hmem, hnum, hfault⟩ := h
    rcases hfault with hf | hf
    · -- the page is resident: `vmfault` returns at once
      simp only [faultStep, hf, hv, if_true] at hstep
      cases hstep
      rw [hevict]
      exact ⟨hv, hs, hmem, hnum, Or.inr rfl⟩
    · simp only [faultStep, hf] at hstep
      cases hstep
  | cleared | released =>
    rw [hevict] at h
    obtain ⟨hpin, hs, hmem, hfault⟩ := h
    obtain ⟨hfault', hs', hmem', hpin', he⟩ := faultBefore_step hpin hs hfault hstep
    rw [he, hevict]
    exact ⟨hpin'.trans hpin, hs', hmem'.trans hmem, hfault'⟩
  | writing slot i =>
    rw [hevict] at h
    obtain ⟨hpin, hmem, hslot, hi, hstored, hfault⟩ := h
    have hwritten : ∀ j < SWAP_BLOCKS_PER_PAGE, Written r j → j < i := by
      intro j _ hj
      simpa only [Written, hevict] using hj
    obtain ⟨hfault', hstored', hmem', hpin', he⟩ :=
      faultAfter_step hi hwritten hstored hfault hsafe hstep
    rw [he, hevict]
    exact ⟨hpin'.trans hpin, (hmem' hpin).trans hmem, hslot, hi, hstored', hfault'⟩
  | finished slot =>
    rw [hevict] at h
    obtain ⟨hstored, hfault⟩ := h
    obtain ⟨hfault', hstored', -, -, he⟩ :=
      faultAfter_step (le_refl _) (fun j hj _ => hj) hstored hfault hsafe hstep
    rw [he, hevict]
    exact ⟨hstored', hfault'⟩

/-- **No page is lost outside the two windows.** Take any interleaving of the eviction and the
fault in which `mappages` does not run while `PTE_S` is set and `swap_in` reads a block only after
the eviction has written it. Once both have finished, the page holds the bytes it held before the
eviction began. -/
theorem eviction_race_safe
    (h : ((raceSystem mode victimPa old).restrict RaceSafe).Reachable r) {slot : ℕ}
    (hevict : r.evict = .finished slot) (hfault : r.fault = .finished) :
    pageContents mode r = old := by
  have hinv : RaceInvAt mode victimPa old r r.evict := by
    refine h.invariant (I := fun r => RaceInvAt mode victimPa old r r.evict) ?_ ?_
    · rintro r ⟨he, hf, hv, hs, hnum, hmem, -⟩
      rw [he]
      exact ⟨hv, hs, hmem, hnum, Or.inl hf⟩
    · rintro r (_ | frame) r' - hI ⟨hsafe, hstep⟩
      · exact raceInv_evictStep hI hstep
      · exact raceInv_faultStep hI hsafe hstep
  rw [hevict] at hinv
  obtain ⟨hstored, hafter⟩ := hinv
  rw [hfault] at hafter
  unfold pageContents
  rcases hafter with ⟨hv, hs, hnum⟩ | ⟨hv, hold, -⟩
  · rw [hv, hs, hnum, if_neg (by decide), if_pos rfl]
    apply ext_block
    intro i
    rw [raidReadPage_block]
    exact hstored i i.isLt
  · rw [hv, if_pos rfl]
    exact hold

/-! ## Schedules -/

/-- A page of sevens, resident in frame 8, about to be evicted in mode 0. -/
def sevensResident : Race where
  pte := { num := 8, flags := { v := true, r := true, w := true, u := true } }
  mem := update (fun _ => 0) 8 (fill 7)
  disk := SwapDisk.zero
  swapInUse _ := false
  framelock := false
  pinned := false
  evict := .start
  fault := .testV

private lemma reachable_step {cond : Race → RaceAct → Prop}
    (h : ((raceSystem mode victimPa old).restrict cond).Reachable r) (act : RaceAct)
    (hcond : cond r act) (hstep : raceStep mode victimPa r act = some r') :
    ((raceSystem mode victimPa old).restrict cond).Reachable r' :=
  h.step ⟨hcond, hstep⟩

/-- `swap_out` takes slot 0 when no slot is in use. -/
private theorem evictStep_released (h : r.evict = .released) (huse : r.swapInUse = fun _ => false) :
    raceStep mode victimPa r .evict = some { r with
      pte := .toSwap 0 r.pte.flags
      swapInUse := update r.swapInUse 0 true
      evict := .writing 0 0 } := by
  simp only [raceStep, evictStep, h]
  rw [huse, findFreeSlot_none_inUse]
  rfl

/-- The rest of an eviction that has set `PTE_S` runs without the fault taking a step. -/
private theorem reachable_written {cond : Race → RaceAct → Prop} (hcond : ∀ r, cond r .evict)
    (h : ((raceSystem mode victimPa old).restrict cond).Reachable r)
    (hevict : r.evict = .writing 0 0) (hlock : r.framelock = false) :
    ∃ r', ((raceSystem mode victimPa old).restrict cond).Reachable r' ∧ r'.evict = .finished 0 ∧
      r'.fault = r.fault ∧ r'.pte = r.pte ∧
      r'.mem = update r.mem victimPa (fill 5) := by
  obtain ⟨pte, mem, disk, swapInUse, framelock, pinned, evict, fault⟩ := r
  simp only at hevict hlock
  subst hevict hlock
  have h₁ := reachable_step h .evict (hcond _) rfl
  have h₂ := reachable_step h₁ .evict (hcond _) rfl
  have h₃ := reachable_step h₂ .evict (hcond _) rfl
  have h₄ := reachable_step h₃ .evict (hcond _) rfl
  exact ⟨_, reachable_step h₄ .evict (hcond _) rfl, rfl, rfl, rfl, rfl⟩

/-- The victim faults after `PTE_V` is cleared and tests `PTE_S` before it is set; the eviction
completes, and then `vmfault` maps its page of zeros over the swapped-out entry. -/
theorem fault_between_bits_loses_page :
    ∃ r, (raceSystem .striping 8 (fill 7)).Reachable r ∧ r.evict = .finished 0 ∧
      r.fault = .finished ∧ pageContents .striping r ≠ fill 7 := by
  have h₀ : ((raceSystem .striping 8 (fill 7)).restrict fun _ _ => True).Reachable
      sevensResident := .init ⟨rfl, rfl, rfl, rfl, rfl, rfl, rfl⟩
  have hcleared := reachable_step h₀ .evict trivial rfl
  have hreleased := reachable_step hcleared .evict trivial rfl
  have htested := reachable_step hreleased (.fault 9) trivial rfl
  have halloc := reachable_step htested (.fault 9) trivial rfl
  have hzeroed := reachable_step halloc (.fault 9) trivial rfl
  have hswapped := reachable_step hzeroed .evict trivial (evictStep_released rfl rfl)
  obtain ⟨r, hr, hevict, hfault, hpte, hmem⟩ := reachable_written (fun _ => trivial)
    hswapped rfl rfl
  have hmap : raceStep .striping 8 r (.fault 9) = some { r with
      pte := .map 9 { w := true, u := true, r := true }
      fault := .finished } := by
    simp only [raceStep, faultStep, hfault, hpte]
    rfl
  refine ⟨_, (hr.step ⟨trivial, hmap⟩).of_restrict, hevict, rfl, fun hc => ?_⟩
  have hzero : pageContents .striping { r with
      pte := .map 9 { w := true, u := true, r := true }, fault := .finished } = 0 := by
    change r.mem 9 = 0
    rw [hmem]
    rfl
  rw [hzero] at hc
  exact absurd (congrFun hc ⟨0, by decide⟩) (by decide)

/-- The victim faults in the same window, but `mappages` runs before `PTE_S` is set: `swap_out` then
overrides the entry, and the page survives. -/
theorem mappages_before_swapped_bit_keeps_page :
    ∃ r, ((raceSystem .striping 8 (fill 7)).restrict RaceSafe).Reachable r ∧
      pageContents .striping r = fill 7 := by
  have h₀ : ((raceSystem .striping 8 (fill 7)).restrict RaceSafe).Reachable
      sevensResident := .init ⟨rfl, rfl, rfl, rfl, rfl, rfl, rfl⟩
  have hsafe : ∀ r, RaceSafe r .evict := fun _ => trivial
  have hcleared := reachable_step h₀ .evict (hsafe _) rfl
  have hreleased := reachable_step hcleared .evict (hsafe _) rfl
  have htested := reachable_step hreleased (.fault 9) trivial rfl
  have halloc := reachable_step htested (.fault 9) trivial rfl
  have hzeroed := reachable_step halloc (.fault 9) trivial rfl
  have hmapped := reachable_step hzeroed (.fault 9) rfl rfl
  have hswapped := reachable_step hmapped .evict (hsafe _) (evictStep_released rfl rfl)
  obtain ⟨r, hr, hevict, hfault, -, -⟩ := reachable_written hsafe hswapped rfl rfl
  exact ⟨r, hr, eviction_race_safe hr hevict hfault⟩

end Xv6.VM
