import Xv6.Log.Group

/-!
# Reservation of log space

`begin_op` admits an operation if the log has room for `MAXOPBLOCKS` blocks of it and of each open
operation. `reservationSystem` is the machine of the group commit with, for each open operation, the
set of the blocks that it has logged, which has at most `MAXOPBLOCKS` elements. What is left of the
reservations of the open operations always fits beside the logged blocks (`Reserved`), so the log
has room for every new block.

The test of `log_write` comes before the search for the block, so that it also stops a `log_write`
that needs no room, because its block is logged already, when the log is full
(`tooBig_iff`, `rewrite_panics`). `log_space_sufficient` is about the runs without such a step.
-/

namespace Xv6.Log

open Function Finset GroupState

/-! ## The system -/

/-- The state of the log, with the blocks that each operation has logged since its `begin_op`. -/
structure Reserving (P : Type) where
  group : GroupState P
  wrote : P → Finset (BitVec 32)
  /-- The message of the panic that stopped the machine. -/
  panic : Option String

namespace Reserving

variable {P : Type} [DecidableEq P]

/-- What the operations have logged after a step of `p`. -/
def wroteAfter (s : Reserving P) (p : P) : Act → P → Finset (BitVec 32)
  | .test => if s.group.MustWait then s.wrote else update s.wrote p ∅
  | .logWrite b _ => update s.wrote p (insert b (s.wrote p))
  | _ => s.wrote

/-- The operation logs at most `MAXOPBLOCKS` distinct blocks. -/
def WithinBudget (s : Reserving P) (p : P) : Act → Prop
  | .logWrite b _ => (insert b (s.wrote p)).card ≤ MAXOPBLOCKS
  | _ => True

instance (s : Reserving P) (p : P) (a : Act) : Decidable (s.WithinBudget p a) := by
  unfold WithinBudget
  split <;> infer_instance

/-- The block of a `log_write` is logged already and the log is full. -/
def RewritesWhenFull (s : Reserving P) : Act → Prop
  | .logWrite b _ => s.group.lh.n.toInt = LOGBLOCKS ∧ s.group.lh.Has b
  | _ => False

end Reserving

/-- The runs of operations that log at most `MAXOPBLOCKS` distinct blocks each. A panic stops the
machine. -/
def reservationSystem (P : Type) [DecidableEq P] (start : ℕ) :
    TransitionSystem (Reserving P) (P × Act) where
  init s := (groupSystem P start).init s.group ∧ s.panic = none
  step s l s' := s.panic = none ∧ s.WithinBudget l.1 l.2 ∧
    ((∃ g', s.group.exec start l.1 l.2 = some (.ok g') ∧
        s' = { s with group := g', wrote := s.wroteAfter l.1 l.2 }) ∨
      ∃ msg, s.group.exec start l.1 l.2 = some (.error msg) ∧ s' = { s with panic := some msg })

/-! ## The invariant -/

section Invariant

variable {P : Type} [DecidableEq P] [Fintype P] {start : ℕ} {s : Reserving P} {g' : GroupState P}
  {p : P} {a : Act} {b : BitVec 32}

/-- What is left of the reservations of the open operations. -/
def unused (phase : P → Phase) (wrote : P → Finset (BitVec 32)) : ℤ :=
  ∑ p ∈ ops phase, ((MAXOPBLOCKS : ℤ) - (wrote p).card)

/-- The open operations have room for the blocks that they may still log. -/
structure Reserved (g : GroupState P) (wrote : P → Finset (BitVec 32)) : Prop where
  room : g.lh.n.toInt + unused g.phase wrote ≤ LOGBLOCKS
  budget : ∀ {p}, g.phase p = .inOp → (wrote p).card ≤ MAXOPBLOCKS
  logged : ∀ {p b}, g.phase p = .inOp → b ∈ wrote p → g.lh.Has b

omit [DecidableEq P] in
lemma unused_le (phase : P → Phase) (wrote : P → Finset (BitVec 32)) :
    unused phase wrote ≤ (ops phase).card * MAXOPBLOCKS := by
  have hsum : unused phase wrote ≤ ∑ _p ∈ ops phase, (MAXOPBLOCKS : ℤ) :=
    sum_le_sum fun p _ => by omega
  rwa [sum_const, nsmul_eq_mul] at hsum

omit [DecidableEq P] in
lemma unused_nonneg {phase : P → Phase} {wrote : P → Finset (BitVec 32)}
    (h : ∀ p, phase p = .inOp → (wrote p).card ≤ MAXOPBLOCKS) : 0 ≤ unused phase wrote := by
  refine sum_nonneg fun p hp => ?_
  have := h p (mem_ops.mp hp)
  omega

lemma unused_eq {phase : P → Phase} {wrote : P → Finset (BitVec 32)} (hp : phase p = .inOp) :
    unused phase wrote = ((MAXOPBLOCKS : ℤ) - (wrote p).card) +
      ∑ q ∈ (ops phase).erase p, ((MAXOPBLOCKS : ℤ) - (wrote q).card) :=
  (add_sum_erase _ _ (mem_ops.mpr hp)).symm

lemma unused_update {phase : P → Phase} {wrote : P → Finset (BitVec 32)} {w : Finset (BitVec 32)}
    (hp : phase p = .inOp) : unused phase (update wrote p w) =
      unused phase wrote + (wrote p).card - w.card := by
  have hrest : ∑ q ∈ (ops phase).erase p,
      ((MAXOPBLOCKS : ℤ) - (update wrote p w q).card) =
      ∑ q ∈ (ops phase).erase p, ((MAXOPBLOCKS : ℤ) - (wrote q).card) := by
    refine sum_congr rfl fun q hq => ?_
    rw [update_of_ne (ne_of_mem_erase hq)]
  rw [unused_eq hp, unused_eq hp, hrest, update_self]
  omega

namespace Reserved

variable {g : GroupState P} {wrote : P → Finset (BitVec 32)}

omit [DecidableEq P] in
lemma n_le (h : Reserved g wrote) : g.lh.n.toInt ≤ LOGBLOCKS := by
  have hroom := h.room
  have hnonneg : 0 ≤ unused g.phase wrote := unused_nonneg fun _ => h.budget
  omega

/-- There is room for a block that is not logged, within the budget of the operation. -/
theorem n_lt (h : Reserved g wrote) (hp : g.phase p = .inOp) (hb : ¬g.lh.Has b)
    (hbudget : (insert b (wrote p)).card ≤ MAXOPBLOCKS) : g.lh.n.toInt < LOGBLOCKS := by
  -- the block is new to the operation as well
  have hnew : b ∉ wrote p := fun hmem => hb (h.logged hp hmem)
  rw [card_insert_of_notMem hnew] at hbudget
  have hroom := h.room
  have hrest : 0 ≤ ∑ q ∈ (ops g.phase).erase p, ((MAXOPBLOCKS : ℤ) - (wrote q).card) := by
    refine sum_nonneg fun q hq => ?_
    have := h.budget (mem_ops.mp (mem_of_mem_erase hq))
    omega
  rw [unused_eq hp] at hroom
  omega

omit [DecidableEq P] in
lemma congr (h : Reserved g wrote) (hlh : g'.lh = g.lh) (hops : ops g'.phase = ops g.phase) :
    Reserved g' wrote := by
  have hopen : ∀ {p}, g'.phase p = .inOp → g.phase p = .inOp := by
    intro p hp
    rw [← mem_ops, ← hops]
    exact mem_ops.mpr hp
  refine ⟨?_, fun hp => h.budget (hopen hp), fun hp hb => ?_⟩
  · unfold unused
    rw [hlh, hops]
    exact h.room
  · rw [hlh]
    exact h.logged (hopen hp) hb

lemma beginOp (h : Reserved g wrote) (hg : GroupInv g) (hp : g.phase p ≠ .inOp)
    (hwait : ¬g.MustWait) (hlh : g'.lh = g.lh)
    (hphase : g'.phase = update g.phase p .inOp) :
    Reserved g' (update wrote p ∅) := by
  have hother : ∀ {q}, q ≠ p → g'.phase q = .inOp → g.phase q = .inOp := by
    intro q hqp hq
    rwa [hphase, update_of_ne hqp] at hq
  refine ⟨?_, fun {q} hq => ?_, fun {q b} hq hb => ?_⟩
  · -- the test is about the whole reservations
    have htest : g.lh.n.toInt + (g.outstanding + 1) * MAXOPBLOCKS ≤ LOGBLOCKS := by
      by_contra hc
      exact hwait (.inr (not_le.mp hc))
    have hle := unused_le g'.phase (update wrote p ∅)
    have hcard : ((ops g'.phase).card : ℤ) = g.outstanding + 1 := by
      rw [hphase, card_ops_begin hp, hg.counters.outstanding_eq]
      simp
    rw [hcard] at hle
    rw [hlh]
    omega
  · by_cases hqp : q = p
    · subst hqp
      simp
    · rw [update_of_ne hqp]
      exact h.budget (hother hqp hq)
  · by_cases hqp : q = p
    · subst hqp
      simp at hb
    · rw [update_of_ne hqp] at hb
      rw [hlh]
      exact h.logged (hother hqp hq) hb

lemma logWrite (h : Reserved g wrote) (hg : GroupInv g) (hp : g.phase p = .inOp)
    (hfull : g.lh.n.toInt < LOGBLOCKS) (hbudget : (insert b (wrote p)).card ≤ MAXOPBLOCKS)
    (hlh : g'.lh = g.lh.absorb b) (hphase : g'.phase = g.phase) :
    Reserved g' (update wrote p (insert b (wrote p))) := by
  have hhas : ∀ {b'}, g'.lh.Has b' ↔ b = b' ∨ g.lh.Has b' := by
    rw [hlh]
    exact LogHeader.has_absorb hg.header.n_nonneg hfull
  refine ⟨?_, fun {q} hq => ?_, fun {q b'} hq hb' => hhas.mpr ?_⟩
  · rw [hphase, unused_update hp, hlh]
    have hroom := h.room
    have hgrow := card_le_card (subset_insert b (wrote p))
    by_cases hb : g.lh.Has b
    · have hsame : (g.lh.absorb b).n.toInt = g.lh.n.toInt :=
        congrArg (fun lh => lh.n.toInt) (LogHeader.absorb_of_has hb)
      omega
    · have hnext : (g.lh.absorb b).n.toInt = g.lh.n.toInt + 1 :=
        LogHeader.absorb_n hg.header.n_nonneg hfull hb
      have hnew : b ∉ wrote p := fun hmem => hb (h.logged hp hmem)
      have hcard := card_insert_of_notMem hnew
      omega
  · rw [hphase] at hq
    by_cases hqp : q = p
    · subst hqp
      rw [update_self]
      exact hbudget
    · rw [update_of_ne hqp]
      exact h.budget hq
  · rw [hphase] at hq
    by_cases hqp : q = p
    · subst hqp
      rw [update_self, mem_insert] at hb'
      exact hb'.imp Eq.symm (h.logged hq)
    · rw [update_of_ne hqp] at hb'
      exact .inr (h.logged hq hb')

lemma endOp (h : Reserved g wrote) (hp : g.phase p = .inOp) (hlh : g'.lh = g.lh)
    (hops : ops g'.phase = (ops g.phase).erase p) : Reserved g' wrote := by
  have hopen : ∀ {q}, g'.phase q = .inOp → g.phase q = .inOp := by
    intro q hq
    rw [← mem_ops, hops] at hq
    exact mem_ops.mp (mem_of_mem_erase hq)
  refine ⟨?_, fun hq => h.budget (hopen hq), fun hq hb => ?_⟩
  · have hroom := h.room
    have hbudget := h.budget hp
    rw [unused_eq hp] at hroom
    unfold unused
    rw [hlh, hops]
    omega
  · rw [hlh]
    exact h.logged (hopen hq) hb

omit [DecidableEq P] in
/-- While no operation is open, the log may only get shorter. -/
theorem of_no_op (hops : ops g.phase = ∅) (hn : g.lh.n.toInt ≤ LOGBLOCKS) : Reserved g wrote := by
  have hnone : ∀ {p}, g.phase p ≠ .inOp := by
    intro p hp
    have hmem := mem_ops.mpr hp
    rw [hops] at hmem
    simp at hmem
  refine ⟨?_, fun hp => absurd hp hnone, fun hp => absurd hp hnone⟩
  unfold unused
  rw [hops, sum_empty, add_zero]
  exact hn

end Reserved

omit [DecidableEq P] in
lemma ops_eq_empty {g : GroupState P} (hg : GroupInv g) (hcom : g.committing = true) :
    ops g.phase = ∅ := by
  have hzero := hg.counters.outstanding_zero hcom
  rw [hg.counters.outstanding_eq] at hzero
  exact card_eq_zero.mp (by omega)

lemma Reserved.step (h : Reserved s.group s.wrote) (hg : GroupInv s.group)
    (hbudget : s.WithinBudget p a) (hstep : s.group.exec start p a = some (.ok g')) :
    Reserved g' (s.wroteAfter p a) := by
  have hg' : GroupInv g' := hg.step hstep
  unfold Reserving.wroteAfter
  cases exec_cases hstep with
  | call hp | kill hp => exact h.congr rfl (ops_update (by simp [hp]) (by decide))
  | wait hp hwait =>
    rw [if_pos hwait]
    exact h.congr rfl (ops_update (by simp [hp]) (by decide))
  | admits hp hwait =>
    rw [if_neg hwait]
    exact h.beginOp hg (by simp [hp]) hwait rfl rfl
  | logWrite hp hfull => exact h.logWrite hg hp hfull hbudget rfl rfl
  | endLast hp => exact h.endOp hp rfl (ops_end (by decide))
  | endOp hp =>
    refine h.endOp hp rfl ?_
    change ops (update (wake s.group.phase) p .outside) = _
    rw [ops_end (by decide), ops_wake]
  | commit hp =>
    exact .of_no_op (ops_eq_empty hg' (hg.counters.committer hp)) hg'.header.n_le
  | finish hp =>
    refine h.congr rfl ?_
    change ops (update (wake s.group.phase) p .outside) = _
    rw [ops_update (by simp [hp]) (by decide), ops_wake]

/-- The invariant holds in every run, up to a panic. -/
theorem reserved_of_reachable (hs : (reservationSystem P start).Reachable s) :
    GroupInv s.group ∧ Reserved s.group s.wrote := by
  refine hs.invariant (I := fun s => GroupInv s.group ∧ Reserved s.group s.wrote) ?_ ?_
  · rintro s ⟨hinit, -⟩
    have hg := groupInv_init hinit
    obtain ⟨-, -, -, -, -, hphase⟩ := hinit
    refine ⟨hg, .of_no_op ?_ hg.header.n_le⟩
    ext p
    simp [hphase p]
  · rintro s ⟨p, a⟩ s' - ⟨hg, hr⟩ ⟨-, hbudget, ⟨g', hstep, rfl⟩ | ⟨msg, -, rfl⟩⟩
    · exact ⟨hg.step hstep, hr.step hg hbudget hstep⟩
    · exact ⟨hg, hr⟩

omit [Fintype P] in
lemma exec_tooBig {g : GroupState P}
    (h : g.exec start p a = some (.error "too big a transaction")) :
    g.phase p = .inOp ∧ ∃ b data, a = .logWrite b data := by
  cases a with
  | logWrite b data =>
    simp only [exec] at h
    split_ifs at h with hp
    exact ⟨hp, b, data, rfl⟩
  | endOp =>
    simp only [exec] at h
    split_ifs at h with hp
    have herr := Option.some.inj h
    unfold endOp at herr
    dsimp only at herr
    split_ifs at herr
    exact absurd (Except.error.inj herr) (by decide)
  | commit =>
    simp only [exec] at h
    split_ifs at h
    obtain ⟨log, -, heq⟩ := Option.map_eq_some_iff.mp h
    cases heq
  | _ =>
    simp only [exec] at h
    split_ifs at h <;> cases h

/-- A `log_write` of an open operation, within its budget, panics for lack of room exactly when the
log is full and the block is one of those that it has. -/
theorem tooBig_iff {data : Block} (hs : (reservationSystem P start).Reachable s)
    (hp : s.group.phase p = .inOp) (hbudget : s.WithinBudget p (.logWrite b data)) :
    s.group.exec start p (.logWrite b data) = some (.error "too big a transaction") ↔
      s.RewritesWhenFull (.logWrite b data) := by
  obtain ⟨hg, hr⟩ := reserved_of_reachable hs
  have hle := hr.n_le
  unfold exec Reserving.RewritesWhenFull logWrite
  dsimp only
  rw [if_pos hp]
  constructor
  · intro h
    split_ifs at h with hfull
    · refine ⟨le_antisymm hle hfull, ?_⟩
      by_contra hb
      exact absurd (hr.n_lt hp hb hbudget) (not_lt.mpr hfull)
    all_goals simp at h
  · rintro ⟨hfull, -⟩
    rw [if_pos hfull.ge]

end Invariant

/-- In every run of operations that log at most `MAXOPBLOCKS` distinct blocks each, in which none
logs a block again when the log is full, there are never more than `LOGBLOCKS` blocks in the log,
and the log does not run out of room. -/
theorem log_space_sufficient {P : Type} [DecidableEq P] [Fintype P] {start : ℕ} {s : Reserving P}
    (hs : ((reservationSystem P start).restrict fun s l => ¬s.RewritesWhenFull l.2).Reachable s) :
    s.group.lh.n.toInt ≤ LOGBLOCKS ∧ s.panic ≠ some "too big a transaction" := by
  refine ⟨(reserved_of_reachable hs.of_restrict).2.n_le, ?_⟩
  induction hs with
  | init hs =>
    rw [hs.2]
    simp
  | step hr hstep ih =>
    rename_i s s' l
    obtain ⟨hroom, -, hbudget, ⟨g', -, rfl⟩ | ⟨msg, hpanic, rfl⟩⟩ := hstep
    · exact ih
    · intro heq
      cases heq
      obtain ⟨p, a⟩ := l
      obtain ⟨hp, b, data, rfl⟩ := exec_tooBig hpanic
      exact hroom ((tooBig_iff hr.of_restrict hp hbudget).mp hpanic)

/-! ## Runs -/

namespace Reserving

variable {P : Type} [DecidableEq P] {start : ℕ} {s s' : Reserving P} {l : P × Act}

instance (s : Reserving P) (a : Act) : Decidable (s.RewritesWhenFull a) := by
  unfold RewritesWhenFull LogHeader.Has
  split <;> infer_instance

/-- Execute a step. -/
def perform (start : ℕ) (s : Reserving P) (l : P × Act) : Option (Reserving P) :=
  if s.panic = none ∧ s.WithinBudget l.1 l.2 then
    match s.group.exec start l.1 l.2 with
    | some (.ok g) => some { s with group := g, wrote := s.wroteAfter l.1 l.2 }
    | some (.error msg) => some { s with panic := some msg }
    | none => none
  else none

lemma step_of_perform (h : s.perform start l = some s') :
    (reservationSystem P start).step s l s' := by
  unfold perform at h
  split_ifs at h with hen
  split at h
  · rename_i g hexec
    cases h
    exact ⟨hen.1, hen.2, .inl ⟨g, hexec, rfl⟩⟩
  · rename_i msg hexec
    cases h
    exact ⟨hen.1, hen.2, .inr ⟨msg, hexec, rfl⟩⟩
  · cases h

end Reserving

/-- The log of three processes after the recovery, on a disk of zeros. -/
def emptyReserving : Reserving (Fin 3) where
  group :=
    { log :=
        { mem := { disk := fun _ _ => 0, cache := fun _ => none,
                   lh := { n := 0, block := fun _ => 0 } }
          pc := .idle
          txn := { lh := { n := 0, block := fun _ => 0 }, pre := fun _ _ => 0, new := fun _ _ => 0,
                   headWritten := false } }
      outstanding := 0, committing := false, pins := fun _ => 0, phase := fun _ => .outside }
  wrote _ := ∅
  panic := none

/-- Three operations are open and each logs ten blocks. -/
def threeOperations : List (Fin 3 × Act) :=
  (List.finRange 3).flatMap (fun p => [(p, .call), (p, .test)]) ++
    (List.finRange 3).flatMap fun p =>
      (List.range 10).map fun i => (p, .logWrite (BitVec.ofNat 32 (100 + 10 * p + i)) fun _ => 1)

/-- A run of the three processes, of steps that meet the decidable condition `cond`, that ends in a
state with the decidable property `Q`. -/
theorem Reserving.exists_reachable (cond : Reserving (Fin 3) → Fin 3 × Act → Prop)
    [∀ s, DecidablePred (cond s)] {Q : Reserving (Fin 3) → Prop} [DecidablePred Q]
    (ls : List (Fin 3 × Act))
    (h : (ls.foldlM (fun s l => if cond s l then s.perform 2 l else none) emptyReserving).any
      (fun s => decide (Q s)) = true) :
    ∃ s, ((reservationSystem (Fin 3) 2).restrict cond).Reachable s ∧ Q s := by
  have hstart : ((reservationSystem (Fin 3) 2).restrict cond).Reachable emptyReserving :=
    .init ⟨⟨rfl, rfl, rfl, rfl, fun _ => rfl, fun _ => rfl⟩, rfl⟩
  exact hstart.exists_of_foldlM
    (TransitionSystem.restrict_step_of_ite fun _ _ _ => step_of_perform) h

/-- **The log may be full when nothing has to be added.** After ten blocks of each of three
operations, the first one logs its first block again, and `log_write` panics. -/
theorem rewrite_panics : ∃ s, (reservationSystem (Fin 3) 2).Reachable s ∧
    s.panic = some "too big a transaction" := by
  obtain ⟨s, hs, hpanic⟩ := Reserving.exists_reachable (fun _ _ => True)
    (Q := fun s => s.panic = some "too big a transaction")
    (threeOperations ++ [(0, .logWrite 100 fun _ => 2)]) (by decide +kernel)
  exact ⟨s, hs.of_restrict, hpanic⟩

/-- The three operations fill the log and do not exceed it. -/
theorem log_space_sufficient_three : ∃ s,
    ((reservationSystem (Fin 3) 2).restrict fun s l => ¬s.RewritesWhenFull l.2).Reachable s ∧
    s.group.lh.n.toInt = 30 ∧ s.panic ≠ some "too big a transaction" := by
  obtain ⟨s, hs, hn⟩ := Reserving.exists_reachable (fun s l => ¬s.RewritesWhenFull l.2)
    (Q := fun s => s.group.lh.n.toInt = 30) threeOperations (by decide +kernel)
  exact ⟨s, hs, hn, (log_space_sufficient hs).2⟩

end Xv6.Log
