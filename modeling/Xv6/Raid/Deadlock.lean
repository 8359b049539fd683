import Xv6.Raid.SingleFailure
import Xv6.Raid.Threads

/-!
# Buffer locks of concurrent mode-5 transfers

A block number tells a buffer, and most branches lock buffers in the order of block numbers: a read
holds one buffer at a time, a write to a healthy stripe locks the lower of the two buffers first,
and a write whose parity disk has failed locks one buffer. The branch for a failed data disk locks
the parity buffer first and then the other disks in turn, which is in order only if the parity disk
comes before them (`ParityFirst`). Calls for which this is so never wait for each other in a cycle.
Others can: the degraded write holds the parity buffer and waits for a data buffer, whose holder
waits for the parity buffer. No call locks a buffer twice, so that a call which is not interleaved
with others completes, and does what the sequential model says.
-/

namespace Xv6.Raid

/-! ## Order of locking -/

/-- On the stripe of every block of the slot that lies on the failed disk, the parity disk comes
before the other disks that work. -/
def ParityFirst (diskFailed : ℤ) (slot : ℕ) : Prop :=
  ∀ i : Fin SWAP_BLOCKS_PER_PAGE, (dataDisk (slot * 4 + i) : ℤ) = diskFailed →
    ∀ d < NUM_DISKS, (d : ℤ) ≠ diskFailed → d ≠ parityDisk (stripeOffset (slot * 4 + i)) →
      parityDisk (stripeOffset (slot * 4 + i)) < d

lemma diskBlock_lt {d d' o : ℕ} (h : d < d') : diskBlock d o < diskBlock d' o := by
  simp only [diskBlock, SIM_DISK_SIZE]
  omega

section Ordered

variable {r : ℕ → ℕ → Prop} (hirrefl : ∀ b, ¬ r b b) (hlt : ∀ {a b}, a < b → r a b)

include hirrefl

/-- The loop over the other disks locks one buffer at a time, after those that are held. -/
theorem xorOthersThread_ordered (offset : ℕ) (l : List ℕ) (acc : Block) {held : Set ℕ}
    (hafter : ∀ d ∈ l, ∀ b ∈ held, r b (diskBlock d offset)) :
    (xorOthersThread offset l acc).Ordered r held held := by
  induction l generalizing acc with
  | nil => exact rfl
  | cons d l ih =>
    have hd := hafter d List.mem_cons_self
    refine ⟨hd, fun other => ⟨Set.mem_insert _ _, ?_⟩⟩
    rw [Set.insert_sdiff_self_of_notMem fun hmem => hirrefl _ (hd _ hmem)]
    exact ih _ fun d' hd' => hafter d' (List.mem_cons_of_mem _ hd')

omit hirrefl in
/-- One buffer is locked, written and released. -/
theorem ordered_single (b : ℕ) (k : Block → Block) :
    Thread.Ordered (V := Block) r ∅
      (.acquire b fun v => .write b (k v) (.release b (.ret ()))) ∅ := by
  refine ⟨by simp, fun v => ⟨Set.mem_insert _ _, Set.mem_insert _ _, ?_⟩⟩
  exact Set.insert_sdiff_self_of_notMem (Set.notMem_empty b)

/-- Two buffers are locked in order, written and released. -/
theorem ordered_pair {a b : ℕ} (hab : r a b) (x y : ℕ) (hxy : x = a ∧ y = b ∨ x = b ∧ y = a)
    (f g : Block → Block → Block) :
    Thread.Ordered (V := Block) r ∅
      (.acquire a fun u => .acquire b fun v =>
        .write x (f u v) (.write y (g u v) (.release x (.release y (.ret ()))))) ∅ := by
  have hmem : ∀ z, z = a ∨ z = b → z ∈ (insert b (insert a ∅) : Set ℕ) := by
    rintro z (rfl | rfl)
    · exact .inr (.inl rfl)
    · exact .inl rfl
  have hx : x = a ∨ x = b := by tauto
  have hy : y = a ∨ y = b := by tauto
  refine ⟨by simp, fun u => ⟨by simpa using hab, fun v => ⟨hmem x hx, hmem y hy, hmem x hx,
    ⟨hmem y hy, ?_⟩, ?_⟩⟩⟩
  · rintro rfl
    obtain rfl : a = b := by omega
    exact hirrefl a hab
  · change ((insert b (insert a ∅) : Set ℕ) \ {x}) \ {y} = ∅
    ext z
    simp only [Set.mem_sdiff, Set.mem_insert_iff, Set.mem_empty_iff_false, or_false,
      Set.mem_singleton_iff, iff_false]
    rcases hxy with ⟨rfl, rfl⟩ | ⟨rfl, rfl⟩ <;> tauto

include hlt

lemma writeParityThread_ordered (lb : ℕ) (c : Block) (diskFailed : ℤ)
    (hfirst : (dataDisk lb : ℤ) = diskFailed → ∀ d < NUM_DISKS, (d : ℤ) ≠ diskFailed →
      d ≠ parityDisk (stripeOffset lb) →
        r (diskBlock (parityDisk (stripeOffset lb)) (stripeOffset lb))
          (diskBlock d (stripeOffset lb))) :
    (writeParityThread lb c diskFailed).Ordered r ∅ ∅ := by
  unfold writeParityThread
  dsimp only
  split_ifs with hdata hparity hdp
  · -- the parity buffer is held while the other disks are read
    refine ⟨by simp, fun v => ?_⟩
    change Thread.Ordered r ∅ (xorOthersThread _ _ _ >>= _) _
    refine (xorOthersThread_ordered hirrefl _ _ _ ?_).bind fun np => ?_
    · intro d hd b hb
      obtain rfl : b = _ := by simpa using hb
      simp only [List.mem_filter, List.mem_range, decide_eq_true_eq, not_or] at hd
      exact hfirst hdata.symm d hd.1 hd.2.1 hd.2.2
    · exact ⟨Set.mem_insert _ _, Set.mem_insert _ _,
        Set.insert_sdiff_self_of_notMem (Set.notMem_empty _)⟩
  · exact ordered_single _ fun _ => c
  · exact ordered_pair hirrefl (hlt hdp) _ _ (.inl ⟨rfl, rfl⟩) (fun _ _ => c)
      fun u v => v ^^^ (u ^^^ c)
  · have hne : diskBlock (parityDisk (stripeOffset lb)) (stripeOffset lb) ≠
        diskBlock (dataDisk lb) (stripeOffset lb) := by
      have := dataDisk_ne_parityDisk lb
      simp only [diskBlock, SIM_DISK_SIZE]
      omega
    exact ordered_pair hirrefl (hlt (lt_of_le_of_ne (not_lt.mp hdp) hne)) _ _ (.inr ⟨rfl, rfl⟩)
      (fun _ _ => c) fun u v => u ^^^ (v ^^^ c)

omit hlt in
lemma readParityThread_ordered (lb : ℕ) (diskFailed : ℤ) :
    (readParityThread lb diskFailed).Ordered r ∅ ∅ := by
  unfold readParityThread
  dsimp only
  split_ifs
  · exact ⟨by simp, fun _ => ⟨Set.mem_insert _ _,
      Set.insert_sdiff_self_of_notMem (Set.notMem_empty _)⟩⟩
  · exact xorOthersThread_ordered hirrefl _ _ _ (by simp)

omit hirrefl hlt in
lemma raidWritePageThread_ordered {diskFailed : ℤ} {slot : ℕ} (pg : Page)
    (hblock : ∀ (i : Fin SWAP_BLOCKS_PER_PAGE) (c : Block),
      (writeParityThread (slot * 4 + i) c diskFailed).Ordered r ∅ ∅) :
    (raidWritePageThread slot pg diskFailed).Ordered r ∅ ∅ := by
  unfold raidWritePageThread
  induction List.finRange SWAP_BLOCKS_PER_PAGE with
  | nil => exact rfl
  | cons i l ih => exact (hblock i _).bind fun _ => ih

omit hlt in
lemma raidReadPageThread_ordered (diskFailed : ℤ) (slot : ℕ) (pg : Page) :
    (raidReadPageThread slot pg diskFailed).Ordered r ∅ ∅ := by
  unfold raidReadPageThread
  induction List.finRange SWAP_BLOCKS_PER_PAGE generalizing pg with
  | nil => exact rfl
  | cons i l ih => exact (readParityThread_ordered hirrefl _ _).bind fun b => ih _

end Ordered

/-! ## Runs -/

/-- The condition on one step: a page is written only to a slot on whose degraded stripes the parity
disk comes first. -/
def LocksInOrder {P : Type} (diskFailed : ℤ) : Label P → Prop
  | .call _ (.write slot _) => ParityFirst diskFailed slot
  | _ => True

lemma Call.thread_ordered {P : Type} {diskFailed : ℤ} {q : P} (c : Call)
    (hc : LocksInOrder diskFailed (.call q c)) : (c.thread diskFailed).Ordered (· < ·) ∅ ∅ := by
  cases c with
  | write slot pg =>
    refine (raidWritePageThread_ordered pg fun i b => ?_).bind fun _ => rfl
    refine writeParityThread_ordered lt_irrefl id _ b _ fun hi d hd hfailed hparity => ?_
    exact diskBlock_lt (hc i hi d hd hfailed hparity)
  | read slot pg =>
    exact (raidReadPageThread_ordered lt_irrefl diskFailed slot pg).bind fun _ => rfl

/-- Calls on any slots of the swap space. -/
def Call.InSwapSpace : Call → Prop
  | .write slot _ => slot < MAX_SWAP_PAGES
  | .read slot _ => slot < MAX_SWAP_PAGES

instance : DecidablePred Call.InSwapSpace
  | .write slot _ => inferInstanceAs (Decidable (slot < MAX_SWAP_PAGES))
  | .read slot _ => inferInstanceAs (Decidable (slot < MAX_SWAP_PAGES))

/-- In a run of any number of processes whose writes lock in order, no process waits for a buffer
through a cycle of waiting processes. -/
theorem raid5_no_deadlock {P : Type} [DecidableEq P] {diskFailed : ℤ}
    {m : Machine P ℕ Block (Option Page)}
    (h : ((raidSystem diskFailed (fun _ => True) fun _ c => c.InSwapSpace).restrict
      fun _ l => LocksInOrder diskFailed l).Reachable m) (q : P) :
    ¬ Relation.TransGen m.Waits q q := by
  have hordered : m.Ordered := by
    refine h.invariant (I := Machine.Ordered) ?_ ?_
    · rintro m ⟨-, hfree, hidle⟩ q
      rw [hidle q]
      change m.held q = ∅
      ext b
      simp [Machine.held, hfree b]
    · rintro m l m' - hm ⟨hcond, hstep⟩
      cases l with
      | call q c =>
        obtain ⟨-, ⟨a, hret⟩, rfl⟩ := hstep
        exact hm.resume hret (c.thread_ordered hcond)
      | exec q => exact hm.exec hstep
  exact Machine.not_waits_cycle hordered q

instance (diskFailed : ℤ) (slot : ℕ) : Decidable (ParityFirst diskFailed slot) := by
  unfold ParityFirst
  infer_instance

/-- Check that a call is on a slot of the swap space and locks in order. -/
def checkOrder {P : Type} (diskFailed : ℤ) : Label P → Bool
  | .call _ (.write slot _) => slot < MAX_SWAP_PAGES ∧ ParityFirst diskFailed slot
  | .call _ c => c.InSwapSpace
  | .exec _ => true

/-- With disk 3 failed, one process writes slot 0 until it holds the parity buffer of stripe 0 in
the degraded branch, and the other one begins to write the same slot. -/
def waitingRun : List (Label Bool) :=
  [.call true (.write 0 0)] ++ List.replicate 13 (.exec true) ++ [.call false (.write 0 0)]

theorem raid5_no_deadlock_waiting : ∃ m : Machine Bool ℕ Block (Option Page),
    ((raidSystem 3 (fun _ => True) fun _ c => c.InSwapSpace).restrict
      fun _ l => LocksInOrder 3 l).Reachable m ∧
    m.Waits false true ∧ ∀ q, ¬ Relation.TransGen m.Waits q q := by
  have heval : (waitingRun.foldlM (execLabel 3 fun _ => checkOrder 3) idleMachine).map
      (fun m => m.waitsFor false) = some (some true) := by
    decide +kernel
  obtain ⟨m, hrun, hwaits⟩ := Option.map_eq_some_iff.mp heval
  have hm : ((raidSystem 3 (fun _ => True) fun _ c => c.InSwapSpace).restrict
      fun _ l => LocksInOrder 3 l).Reachable m := by
    refine reachable_execLabels (fun m a ha => ?_) (fun m q c hc => ?_)
      ⟨trivial, fun _ => rfl, fun _ => rfl⟩ hrun
    · cases a with
      | call q c =>
        cases c with
        | write slot pg => exact (of_decide_eq_true ha).2
        | read slot pg => trivial
      | exec q => trivial
    · cases c with
      | write slot pg => exact (of_decide_eq_true hc).1
      | read slot pg => exact of_decide_eq_true hc
  exact ⟨m, hm, Machine.waits_of_waitsFor hwaits, raid5_no_deadlock hm⟩

/-! ## A deadlock -/

/-- Check that a call is on a slot of the swap space. -/
def checkSlot {P : Type} : Label P → Bool
  | .call _ c => c.InSwapSpace
  | .exec _ => true

/-- One process writes slot 1 until it holds the first data buffer of stripe 2. The other one begins
to write slot 2, whose first block lies on the failed disk 3 of stripe 2, and takes the parity
buffer. -/
def deadlockRun : List (Label Bool) :=
  [.call true (.write 1 0)] ++ List.replicate 14 (.exec true) ++
    [.call false (.write 2 0), .exec false]

/-- With disk 3 failed, two processes that write slots 1 and 2 can wait for each other's buffer. -/
theorem raid5_deadlock : ∃ m : Machine Bool ℕ Block (Option Page),
    (raidSystem 3 (fun _ => True) fun _ c => c.InSwapSpace).Reachable m ∧
      m.Waits false true ∧ m.Waits true false := by
  have heval : (deadlockRun.foldlM (execLabel 3 fun _ => checkSlot) idleMachine).map
      (fun m => (m.waitsFor false, m.waitsFor true)) = some (some true, some false) := by
    decide +kernel
  obtain ⟨m, hrun, hwaits⟩ := Option.map_eq_some_iff.mp heval
  have hm : ((raidSystem 3 (fun _ => True) fun _ c => c.InSwapSpace).restrict
      fun _ _ => True).Reachable m := by
    exact reachable_execLabels (fun _ _ _ => trivial) (fun m q c hc => of_decide_eq_true hc)
      ⟨trivial, fun _ => rfl, fun _ => rfl⟩ hrun
  exact ⟨m, .of_restrict hm, Machine.waits_of_waitsFor (congrArg Prod.fst hwaits),
    Machine.waits_of_waitsFor (congrArg Prod.snd hwaits)⟩

/-! ## Calls that are not interleaved -/

/-- What a call returns, and the blocks after it, in the sequential model. -/
def Call.sequential (diskFailed : ℤ) (s : SwapDisk) : Call → Option Page × (ℕ → Block)
  | .write slot pg => (none, (raidWritePage slot pg .parity diskFailed s).blocks)
  | .read slot pg => (some (raidReadPage slot pg .parity diskFailed s).1, s.blocks)

lemma Call.thread_run (diskFailed : ℤ) (s : SwapDisk) (c : Call) :
    (c.thread diskFailed).run s.blocks = c.sequential diskFailed s := by
  cases c with
  | write slot pg =>
    rw [Call.thread, Thread.run_bind, raidWritePageThread_run]
    rfl
  | read slot pg =>
    rw [Call.thread, Thread.run_bind, raidReadPageThread_run]
    rfl

lemma Call.thread_locks_once (diskFailed : ℤ) (c : Call) :
    (c.thread diskFailed).Ordered (· ≠ ·) ∅ ∅ := by
  have hirrefl : ∀ b : ℕ, ¬ b ≠ b := fun b hb => hb rfl
  cases c with
  | write slot pg =>
    refine (raidWritePageThread_ordered pg fun i b => ?_).bind fun _ => rfl
    refine writeParityThread_ordered hirrefl ne_of_lt _ b _ fun hi d hd hfailed hparity => ?_
    simp only [diskBlock, SIM_DISK_SIZE]
    omega
  | read slot pg => exact (raidReadPageThread_ordered hirrefl diskFailed slot pg).bind fun _ => rfl

/-- A call that is made while all buffers are free completes if no other process takes a step, with
the result and the effect of the sequential model. -/
theorem call_alone {P : Type} [DecidableEq P] {m : Machine P ℕ Block (Option Page)} {q : P}
    {c : Call} {diskFailed : ℤ} {s : SwapDisk} (hcall : m.thread q = c.thread diskFailed)
    (hfree : ∀ b, m.holder b = none) (hvalue : m.value = s.blocks) :
    ∃ m', Relation.ReflTransGen (fun m m' => m.exec q = some m') m m' ∧
      (∀ b, m'.holder b = none) ∧ m'.thread q = .ret (c.sequential diskFailed s).1 ∧
      m'.value = (c.sequential diskFailed s).2 := by
  have hheld : m.held q = ∅ := by
    ext b
    simp [Machine.held, hfree b]
  have honce : (m.thread q).Ordered (· ≠ ·) ∅ (m.held q) := by
    rw [hcall, hheld]
    exact c.thread_locks_once diskFailed
  obtain ⟨m', hrun, hdone⟩ := Machine.exists_runAlone (fun b hb => hb rfl) honce fun b p hb => by
    simp [hfree] at hb
  rw [hcall, hvalue, Call.thread_run] at hdone
  exact ⟨m', hrun, hdone⟩

/-- With disk 3 failed, a process writes slot 2, whose first block is on the failed disk. -/
theorem call_alone_degraded :
    ∃ m', Relation.ReflTransGen (fun m m' : Machine Bool ℕ Block (Option Page) =>
        m.exec true = some m')
      (idleMachine.resume true ((Call.write 2 (Page.fill 7)).thread 3)) m' ∧
      m'.value = (raidWritePage 2 (Page.fill 7) .parity 3 SwapDisk.zero).blocks := by
  obtain ⟨m', hrun, -, -, hvalue⟩ := call_alone (s := SwapDisk.zero)
    (Machine.resume_self idleMachine true _) (fun _ => rfl) rfl
  exact ⟨m', hrun, hvalue⟩

end Xv6.Raid
