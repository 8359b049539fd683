import Xv6.Log.CrashAtomicity

/-!
# The machine of the group commit

Any number of processes call `begin_op`, `log_write` and `end_op` of `kernel/log.c`. A step is one
critical section of `log.lock`, or one step of the commit, which runs without the lock: the steps of
the commit are those of `kernelStep`, and `install_trans` also drops the pins.

`GroupInv` says how the counters of the log, the phases of the processes, the header and the pins
fit together. It consists of `Counters`, which the steps of `begin_op` and `end_op` change, and of
`HeaderInv`, which `log_write` and the steps of the commit change.
-/

namespace Xv6.Log

open Function

/-! ## The machine -/

/-- Where a process is. -/
inductive Phase where
  | outside
  /-- In the loop of `begin_op`, before a test. -/
  | testing
  /-- In the `sleep` of `begin_op`. -/
  | asleep
  /-- Between `begin_op` and `end_op`. -/
  | inOp
  /-- In `end_op` after `log.committing = 1`. -/
  | committing
  deriving DecidableEq, Repr

/-- The state of the log, with the phases of the processes. -/
structure GroupState (P : Type) where
  log : LogMachine
  outstanding : ℤ
  committing : Bool
  /-- The references to the buffers that `bpin` has taken and `bunpin` has not dropped. -/
  pins : BitVec 32 → ℤ
  phase : P → Phase

/-- The phases after `wakeup(&log)`. -/
def wake {P : Type} (phase : P → Phase) : P → Phase := fun q =>
  if phase q = .asleep then .testing else phase q

/-- What a process does next. -/
inductive Act where
  /-- Call `begin_op`. -/
  | call
  /-- A test of the loop of `begin_op`. -/
  | test
  /-- `kkill` ends the `sleep`. -/
  | kill
  /-- `log_write` of a buffer that the caller has filled. -/
  | logWrite (b : BitVec 32) (data : Block)
  /-- `end_op` up to the release of the lock. -/
  | endOp
  /-- A step of `commit`. -/
  | commit
  /-- The end of `end_op` after `commit`. -/
  | finish

/-- The index at which the loop of `log_write` stops. -/
def LogHeader.find (lh : LogHeader) (b : BitVec 32) : ℕ :=
  ((List.range lh.count).find? fun i => lh.block i = b).getD lh.count

/-- The header that `log_write` leaves. -/
def LogHeader.absorb (lh : LogHeader) (b : BitVec 32) : LogHeader where
  n := if lh.find b = lh.count then lh.n + 1 else lh.n
  block := update lh.block (lh.find b) b

/-- The pins after a step of `commit`: an iteration of `install_trans` drops one. -/
def LogMachine.pinsAfter (m : LogMachine) (pins : BitVec 32 → ℤ) : BitVec 32 → ℤ :=
  match m.pc with
  | .install tail =>
    if tail < m.mem.lh.count then
      update pins (m.mem.lh.block tail) (pins (m.mem.lh.block tail) - 1)
    else pins
  | _ => pins

namespace GroupState

variable {P : Type} [DecidableEq P] (start : ℕ) (g : GroupState P)

/-- `log.lh`. -/
abbrev lh : LogHeader := g.log.mem.lh

/-- The tests of `begin_op` by which an operation has to wait. -/
def MustWait : Prop :=
  g.committing ∨ (LOGBLOCKS : ℤ) < g.lh.n.toInt + (g.outstanding + 1) * MAXOPBLOCKS

instance : Decidable g.MustWait := by
  unfold MustWait
  infer_instance

/-- The process gets to another phase. -/
def setPhase (p : P) (ph : Phase) : GroupState P :=
  { g with phase := update g.phase p ph }

/-- `wakeup(&log)`. -/
def wakeup : GroupState P := { g with phase := wake g.phase }

/-- `log_write`. -/
def logWrite (b : BitVec 32) (data : Block) : Except String (GroupState P) :=
  if (LOGBLOCKS : ℤ) ≤ g.lh.n.toInt then .error "too big a transaction"
  else if g.outstanding < 1 then .error "log_write outside of trans"
  else
    .ok { g with
      log.mem.cache := update g.log.mem.cache b.toNat (some data)
      log.mem.lh := g.lh.absorb b
      pins := if g.lh.find b = g.lh.count then update g.pins b (g.pins b + 1) else g.pins }

/-- `end_op` up to the release of the lock. -/
def endOp (p : P) : Except String (GroupState P) :=
  let g := { g with outstanding := g.outstanding - 1 }
  if g.committing then .error "log.committing"
  else if g.outstanding = 0 then
    .ok ({ g with
      committing := true
      log := beginCommit g.log.mem.disk g.log.mem.cache g.lh }.setPhase p .committing)
  else .ok (g.wakeup.setPhase p .outside)

/-- One step of a process; an error is a panic. -/
def exec (p : P) : Act → Option (Except String (GroupState P))
  | .call => if g.phase p = .outside then some (.ok (g.setPhase p .testing)) else none
  | .test =>
    if g.phase p = .testing then
      some (.ok (if g.MustWait then g.setPhase p .asleep
        else { g with outstanding := g.outstanding + 1 }.setPhase p .inOp))
    else none
  | .kill => if g.phase p = .asleep then some (.ok (g.setPhase p .testing)) else none
  | .logWrite b data => if g.phase p = .inOp then some (g.logWrite b data) else none
  | .endOp => if g.phase p = .inOp then some (g.endOp p) else none
  | .commit =>
    if g.phase p = .committing then
      (kernelStep start g.log).map fun log =>
        .ok { g with log := log, pins := g.log.pinsAfter g.pins }
    else none
  | .finish =>
    if g.phase p = .committing ∧ g.log.pc = .idle then
      some (.ok ({ g with committing := false }.wakeup.setPhase p .outside))
    else none

end GroupState

/-- The runs of the log from the end of the recovery on. -/
def groupSystem (P : Type) [DecidableEq P] (start : ℕ) :
    TransitionSystem (GroupState P) (P × Act) where
  init g := g.log.pc = .idle ∧ g.lh.n = 0 ∧ g.outstanding = 0 ∧ g.committing = false ∧
    (∀ b, g.pins b = 0) ∧ ∀ p, g.phase p = .outside
  step g l g' := g.exec start l.1 l.2 = some (.ok g')

section Steps

variable {P : Type} [DecidableEq P] {start : ℕ} {g g' : GroupState P} {p : P} {a : Act}

/-- The steps of the process `p` that do not panic. -/
inductive GroupStep (start : ℕ) (g : GroupState P) (p : P) : Act → GroupState P → Prop
  | call (hp : g.phase p = .outside) : GroupStep start g p .call (g.setPhase p .testing)
  | kill (hp : g.phase p = .asleep) : GroupStep start g p .kill (g.setPhase p .testing)
  | wait (hp : g.phase p = .testing) (hwait : g.MustWait) :
      GroupStep start g p .test (g.setPhase p .asleep)
  | admits (hp : g.phase p = .testing) (hwait : ¬g.MustWait) : GroupStep start g p .test
      ({ g with outstanding := g.outstanding + 1 }.setPhase p .inOp)
  | logWrite {b : BitVec 32} {data : Block} (hp : g.phase p = .inOp)
      (hfull : g.lh.n.toInt < LOGBLOCKS) : GroupStep start g p (.logWrite b data)
      { g with
        log.mem.cache := update g.log.mem.cache b.toNat (some data)
        log.mem.lh := g.lh.absorb b
        pins := if g.lh.find b = g.lh.count then update g.pins b (g.pins b + 1) else g.pins }
  /-- The last operation ends. -/
  | endLast (hp : g.phase p = .inOp) (hzero : g.outstanding - 1 = 0) : GroupStep start g p .endOp
      ({ g with
        outstanding := g.outstanding - 1
        committing := true
        log := beginCommit g.log.mem.disk g.log.mem.cache g.lh }.setPhase p .committing)
  | endOp (hp : g.phase p = .inOp) : GroupStep start g p .endOp
      ({ g with outstanding := g.outstanding - 1 }.wakeup.setPhase p .outside)
  | commit {log : LogMachine} (hp : g.phase p = .committing)
      (hlog : kernelStep start g.log = some log) : GroupStep start g p .commit
      { g with log := log, pins := g.log.pinsAfter g.pins }
  | finish (hp : g.phase p = .committing) (hpc : g.log.pc = .idle) : GroupStep start g p .finish
      ({ g with committing := false }.wakeup.setPhase p .outside)

lemma GroupState.exec_cases (hstep : g.exec start p a = some (.ok g')) :
    GroupStep start g p a g' := by
  cases a <;> obtain ⟨hp, hstep⟩ := Option.ite_none_right_eq_some.mp hstep
  case commit =>
    obtain ⟨log, hlog, heq⟩ := Option.map_eq_some_iff.mp hstep
    cases heq
    exact .commit hp hlog
  all_goals replace hstep := Option.some.inj hstep
  case test =>
    split_ifs at hstep with hwait <;> cases hstep
    · exact .wait hp hwait
    · exact .admits hp hwait
  case logWrite b data =>
    unfold logWrite at hstep
    split at hstep
    · cases hstep
    next hfull =>
    split at hstep <;> cases hstep
    exact .logWrite hp (not_le.mp hfull)
  case endOp =>
    unfold endOp at hstep
    dsimp only at hstep
    split_ifs at hstep with hcom hzero <;> cases hstep
    · exact .endLast hp hzero
    · exact .endOp hp
  all_goals cases hstep
  · exact .call hp
  · exact .kill hp
  · exact .finish hp.1 hp.2

end Steps

/-! ## The header -/

namespace LogHeader

variable {lh : LogHeader} {b : BitVec 32}

/-- The block is one of the logged blocks. -/
def Has (lh : LogHeader) (b : BitVec 32) : Prop := ∃ i < lh.count, lh.block i = b

/-- The loop of `log_write` stops at the block, or at the end if the block is not logged. -/
theorem find_cases (lh : LogHeader) (b : BitVec 32) :
    lh.find b < lh.count ∧ lh.block (lh.find b) = b ∨ lh.find b = lh.count ∧ ¬lh.Has b := by
  unfold find
  cases hf : (List.range lh.count).find? fun i => lh.block i = b with
  | some i =>
    have hmem := List.mem_range.mp (List.mem_of_find?_eq_some hf)
    have hb := List.find?_some hf
    exact .inl ⟨hmem, by simpa using hb⟩
  | none =>
    refine .inr ⟨rfl, ?_⟩
    rintro ⟨i, hi, hb⟩
    have hnone := List.find?_eq_none.mp hf i (List.mem_range.mpr hi)
    simp [hb] at hnone

lemma find_eq_count_iff : lh.find b = lh.count ↔ ¬lh.Has b := by
  obtain ⟨hlt, hb⟩ | ⟨heq, hnot⟩ := lh.find_cases b
  · exact iff_of_false hlt.ne (not_not.mpr ⟨_, hlt, hb⟩)
  · exact iff_of_true heq hnot

lemma absorb_of_has (h : lh.Has b) : lh.absorb b = lh := by
  obtain ⟨hlt, hb⟩ | ⟨-, hnot⟩ := lh.find_cases b
  · have hne : lh.find b ≠ lh.count := hlt.ne
    unfold absorb
    rw [if_neg hne]
    congr 1
    exact update_eq_self_iff.mpr hb.symm
  · exact absurd h hnot

section NotHas

variable (hn : 0 ≤ lh.n.toInt) (hlt : lh.n.toInt < LOGBLOCKS) (h : ¬lh.Has b)

include hn hlt h

lemma absorb_n : (lh.absorb b).n.toInt = lh.n.toInt + 1 := by
  have hlog : LOGBLOCKS = 30 := rfl
  unfold absorb
  rw [if_pos (find_eq_count_iff.mpr h), BitVec.toInt_add]
  exact Int.bmod_eq_of_le (by simp; omega) (by simp; omega)

lemma absorb_count : (lh.absorb b).count = lh.count + 1 := by
  unfold count
  rw [absorb_n hn hlt h]
  omega

end NotHas

lemma absorb_block (h : ¬lh.Has b) :
    (lh.absorb b).block = update lh.block lh.count b := by
  unfold absorb
  rw [find_eq_count_iff.mpr h]

lemma has_absorb (hn : 0 ≤ lh.n.toInt) (hlt : lh.n.toInt < LOGBLOCKS) {b' : BitVec 32} :
    (lh.absorb b).Has b' ↔ b = b' ∨ lh.Has b' := by
  by_cases h : lh.Has b
  · rw [absorb_of_has h]
    refine ⟨.inr, fun hor => hor.elim (fun heq => heq ▸ h) id⟩
  · unfold Has
    rw [absorb_count hn hlt h, absorb_block h]
    constructor
    · rintro ⟨i, hi, heq⟩
      obtain hi | rfl := Nat.lt_succ_iff_lt_or_eq.mp hi
      · rw [update_of_ne hi.ne] at heq
        exact .inr ⟨i, hi, heq⟩
      · rw [update_self] at heq
        exact .inl heq
    · rintro (rfl | ⟨i, hi, heq⟩)
      · exact ⟨lh.count, by omega, update_self _ _ _⟩
      · exact ⟨i, by omega, by rwa [update_of_ne hi.ne]⟩

end LogHeader

/-! ## Counters and phases -/

section Counters

variable {P : Type} {phase : P → Phase} {outstanding : ℤ} {committing : Bool} {p q : P} {ph : Phase}

@[simp]
lemma wake_eq_inOp : wake phase q = .inOp ↔ phase q = .inOp := by
  unfold wake
  split_ifs with h <;> simp [h]

@[simp]
lemma wake_eq_committing : wake phase q = .committing ↔ phase q = .committing := by
  unfold wake
  split_ifs with h <;> simp [h]

variable [Fintype P]

/-- The processes between `begin_op` and `end_op`. -/
def ops (phase : P → Phase) : Finset P := Finset.univ.filter fun p => phase p = .inOp

@[simp]
lemma mem_ops : p ∈ ops phase ↔ phase p = .inOp := by simp [ops]

@[simp]
lemma ops_wake : ops (wake phase) = ops phase := by
  ext q
  simp

/-- The counters of the log agree with the phases of the processes. -/
structure Counters (outstanding : ℤ) (committing : Bool) (phase : P → Phase) : Prop where
  outstanding_eq : outstanding = (ops phase).card
  outstanding_zero : committing = true → outstanding = 0
  /-- A process in a commit has set `log.committing`. -/
  committer : ∀ {p}, phase p = .committing → committing = true
  unique : ∀ {p q}, phase p = .committing → phase q = .committing → p = q

/-- While an operation is open there is no commit. -/
theorem Counters.not_committing (h : Counters outstanding committing phase)
    (hp : phase p = .inOp) : committing = false := by
  by_contra hc
  have hzero := h.outstanding_zero (by simpa using hc)
  rw [h.outstanding_eq] at hzero
  have hpos : 0 < (ops phase).card := Finset.card_pos.mpr ⟨p, by simpa using hp⟩
  omega

lemma Counters.wake (h : Counters outstanding committing phase) :
    Counters outstanding committing (wake phase) := by
  refine ⟨?_, h.outstanding_zero, fun hq => h.committer (by simpa using hq),
    fun hq hq' => h.unique (by simpa using hq) (by simpa using hq')⟩
  rw [ops_wake]
  exact h.outstanding_eq

variable [DecidableEq P]

lemma ops_begin : ops (update phase p .inOp) = insert p (ops phase) := by
  ext q
  by_cases hq : q = p <;> simp [hq]

lemma ops_end (hph : ph ≠ .inOp) :
    ops (update phase p ph) = (ops phase).erase p := by
  ext q
  by_cases hq : q = p <;> simp [hq, hph]

lemma card_ops_begin (h : phase p ≠ .inOp) :
    (ops (update phase p .inOp)).card = (ops phase).card + 1 := by
  rw [ops_begin, Finset.card_insert_of_notMem (by simpa using h)]

lemma card_ops_end (h : phase p = .inOp) (hph : ph ≠ .inOp) :
    (ops (update phase p ph)).card + 1 = (ops phase).card := by
  rw [ops_end hph, Finset.card_erase_add_one (by simpa using h)]

lemma ops_update (h : phase p ≠ .inOp) (hph : ph ≠ .inOp) :
    ops (update phase p ph) = ops phase := by
  ext q
  by_cases hq : q = p <;> simp [hq, h, hph]

omit [Fintype P] in
/-- Only the process that changes its phase can get into a commit. -/
theorem eq_committing_of_update (hph : ph ≠ .committing)
    (hq : update phase p ph q = .committing) : q ≠ p ∧ phase q = .committing := by
  by_cases hqp : q = p
  · simp [hqp, hph] at hq
  · exact ⟨hqp, by simpa [hqp] using hq⟩

namespace Counters

lemma setPhase (h : Counters outstanding committing phase) (hph : ph ≠ .committing) {n : ℤ}
    (hcard : n = (ops (update phase p ph)).card) (hzero : committing = true → n = 0) :
    Counters n committing (update phase p ph) :=
  have hold {q} hq := (eq_committing_of_update (q := q) hph hq).2
  ⟨hcard, hzero, fun hq => h.committer (hold hq), fun hq hq' => h.unique (hold hq) (hold hq')⟩

/-- A process outside of an operation gets to another phase outside of operations and commits. -/
theorem move (h : Counters outstanding committing phase) (hp : phase p ≠ .inOp)
    (hph : ph ≠ .inOp) (hph' : ph ≠ .committing) :
    Counters outstanding committing (update phase p ph) := by
  refine h.setPhase hph' ?_ h.outstanding_zero
  rw [ops_update hp hph]
  exact h.outstanding_eq

section

variable (h : Counters outstanding false phase)

include h

lemma beginOp (hp : phase p ≠ .inOp) :
    Counters (outstanding + 1) false (update phase p .inOp) := by
  refine h.setPhase (by decide) ?_ (by simp)
  rw [card_ops_begin hp, h.outstanding_eq]
  simp

lemma endOp (hp : phase p = .inOp) :
    Counters (outstanding - 1) false (update phase p .outside) := by
  refine h.setPhase (by decide) ?_ (by simp)
  have hcard := card_ops_end hp (show Phase.outside ≠ .inOp by decide)
  have hout := h.outstanding_eq
  omega

/-- The last operation ends, and its process commits. -/
theorem commit (hp : phase p = .inOp) (hzero : outstanding - 1 = 0) :
    Counters (outstanding - 1) true (update phase p .committing) := by
  -- no other process is in a commit
  have hself : ∀ {q}, update phase p .committing q = .committing → q = p := by
    intro q hq
    by_contra hqp
    have hq : phase q = .committing := by simpa [hqp] using hq
    exact absurd (h.committer hq) (by simp)
  refine ⟨?_, fun _ => hzero, fun _ => rfl, fun hq hq' => (hself hq).trans (hself hq').symm⟩
  have hcard := card_ops_end hp (show Phase.committing ≠ .inOp by decide)
  have hout := h.outstanding_eq
  omega

end

lemma finish (h : Counters outstanding committing phase) (hp : phase p = .committing) :
    Counters outstanding false (update phase p .outside) := by
  have hnone : ∀ {q}, update phase p .outside q ≠ .committing := by
    intro q hq
    obtain ⟨hqp, hq⟩ := eq_committing_of_update (by decide) hq
    exact hqp (h.unique hq hp)
  refine ⟨?_, by simp, fun hq => absurd hq hnone, fun hq => absurd hq hnone⟩
  rw [ops_update (by simp [hp]) (by decide)]
  exact h.outstanding_eq

end Counters

end Counters

/-! ## The header and the pins -/

/-- The entries of the header that `install_trans` has installed. -/
def Pc.installed : Pc → ℕ
  | .install tail => tail
  | _ => 0

/-- The program points of `commit`. -/
def Pc.InCommit : Pc → Prop
  | .idle | .writeLog _ | .writeHead | .install _ | .clearHead => True
  | _ => False

/-- The block is logged and not installed. -/
def LogMachine.Awaits (m : LogMachine) (b : BitVec 32) : Prop :=
  ∃ i < m.mem.lh.count, m.mem.lh.block i = b ∧ m.pc.installed ≤ i

/-- The header has distinct entries, and every block that awaits its installation has one pin. -/
structure HeaderInv (committing : Bool) (m : LogMachine) (pins : BitVec 32 → ℤ) : Prop where
  idle : committing = false → m.pc = .idle
  inCommit : m.pc.InCommit
  /-- When the commit has cleared the header it is empty. -/
  cleared : committing = true → m.pc = .idle ∨ m.pc = .clearHead → m.mem.lh.count = 0
  n_nonneg : 0 ≤ m.mem.lh.n.toInt
  n_le : m.mem.lh.n.toInt ≤ LOGBLOCKS
  inj : ∀ {i j}, i < m.mem.lh.count → j < m.mem.lh.count →
    m.mem.lh.block i = m.mem.lh.block j → i = j
  pinned : ∀ {b}, m.Awaits b → pins b = 1
  unpinned : ∀ {b}, ¬m.Awaits b → pins b = 0

namespace HeaderInv

variable {committing : Bool} {m m' : LogMachine} {pins pins' : BitVec 32 → ℤ} {b : BitVec 32}

lemma congr (h : HeaderInv committing m pins) {committing' : Bool}
    (hlh : m'.mem.lh = m.mem.lh) (hinst : m'.pc.installed = m.pc.installed)
    (hidle : committing' = false → m'.pc = .idle) (hin : m'.pc.InCommit)
    (hcleared : committing' = true → m'.pc = .idle ∨ m'.pc = .clearHead → m.mem.lh.count = 0) :
    HeaderInv committing' m' pins := by
  have hawaits : ∀ {b}, m'.Awaits b ↔ m.Awaits b := by
    intro b
    unfold LogMachine.Awaits
    rw [hlh, hinst]
  refine ⟨hidle, hin, ?_, ?_, ?_, ?_, fun hb => h.pinned (hawaits.mp hb),
    fun hb => h.unpinned fun hb' => hb (hawaits.mpr hb')⟩ <;> rw [hlh]
  · exact hcleared
  · exact h.n_nonneg
  · exact h.n_le
  · exact h.inj

/-- `log_write` adds a block that is not logged, and pins it. -/
theorem append (h : HeaderInv false m pins) (hn : m.mem.lh.n.toInt < LOGBLOCKS)
    (hb : ¬m.mem.lh.Has b) (cache : ℕ → Option Block) :
    HeaderInv false { m with mem := { m.mem with cache := cache, lh := m.mem.lh.absorb b } }
      (update pins b (pins b + 1)) := by
  have hidle := h.idle rfl
  have hcount := LogHeader.absorb_count h.n_nonneg hn hb
  have hblock := LogHeader.absorb_block hb
  have hzero : m.pc.installed = 0 := by rw [hidle]; rfl
  -- the entries are the old ones and the new one at the end
  have hold : ∀ {i}, i < m.mem.lh.count → (m.mem.lh.absorb b).block i = m.mem.lh.block i := by
    intro i hi
    rw [hblock, update_of_ne hi.ne]
  have hlast : (m.mem.lh.absorb b).block m.mem.lh.count = b := by
    rw [hblock, update_self]
  have hne : ∀ {i}, i < m.mem.lh.count → m.mem.lh.block i ≠ b := fun hi heq => hb ⟨_, hi, heq⟩
  have hnot : ¬m.Awaits b := fun ⟨i, hi, heq, _⟩ => hne hi heq
  refine ⟨fun _ => hidle, h.inCommit, by simp, ?_, ?_, fun {i j} hi hj heq => ?_,
    fun {b'} hb' => ?_, fun {b'} hb' => ?_⟩
  · rw [LogHeader.absorb_n h.n_nonneg hn hb]
    have := h.n_nonneg
    omega
  · rw [LogHeader.absorb_n h.n_nonneg hn hb]
    omega
  · simp only [hcount] at hi hj
    obtain hi | rfl := Nat.lt_succ_iff_lt_or_eq.mp hi <;>
      obtain hj | rfl := Nat.lt_succ_iff_lt_or_eq.mp hj
    · exact h.inj hi hj (by rwa [hold hi, hold hj] at heq)
    · rw [hold hi, hlast] at heq
      exact absurd heq (hne hi)
    · rw [hold hj, hlast] at heq
      exact absurd heq.symm (hne hj)
    · rfl
  · obtain ⟨i, hi, heq, -⟩ := hb'
    simp only [hcount] at hi heq
    obtain hi | rfl := Nat.lt_succ_iff_lt_or_eq.mp hi
    · rw [hold hi] at heq
      have hbb : b' ≠ b := fun hbb => hne hi (heq.trans hbb)
      rw [update_of_ne hbb]
      exact h.pinned ⟨i, hi, heq, by omega⟩
    · rw [hlast] at heq
      subst heq
      rw [update_self, h.unpinned hnot]
      rfl
  · have hbb : b' ≠ b := by
      rintro rfl
      exact hb' ⟨_, by simp [hcount], hlast, by simp [hzero]⟩
    rw [update_of_ne hbb]
    refine h.unpinned fun ⟨i, hi, heq, hle⟩ => hb' ⟨i, ?_, ?_, hle⟩
    · simp only [hcount]
      omega
    · exact (hold hi).trans heq

lemma beginCommit (h : HeaderInv false m pins) :
    HeaderInv true (beginCommit m.mem.disk m.mem.cache m.mem.lh) pins := by
  have hidle := h.idle rfl
  refine h.congr rfl ?_ (by simp) ?_ fun _ hpc => ?_ <;> unfold Log.beginCommit at * <;>
    simp only at *
  · rw [hidle]
    split_ifs <;> rfl
  · split_ifs <;> trivial
  · split_ifs at hpc with hpos
    · simp at hpc
    · omega

lemma install {tail : ℕ} (h : HeaderInv true m pins) (hpc : m.pc = .install tail)
    (htail : tail < m.mem.lh.count) (hlh : m'.mem.lh = m.mem.lh)
    (hpc' : m'.pc = .install (tail + 1)) :
    HeaderInv true m' (update pins (m.mem.lh.block tail)
      (pins (m.mem.lh.block tail) - 1)) := by
  refine ⟨by simp, by rw [hpc']; trivial, by simp [hpc'], ?_, ?_, ?_, fun {b} hb => ?_,
    fun {b} hb => ?_⟩
  · rw [hlh]
    exact h.n_nonneg
  · rw [hlh]
    exact h.n_le
  · rw [hlh]
    exact h.inj
  · obtain ⟨i, hi, rfl, hle⟩ := hb
    rw [hlh] at hi
    rw [hpc'] at hle
    have hle : tail + 1 ≤ i := hle
    -- another entry of the header is another block
    have hne : m'.mem.lh.block i ≠ m.mem.lh.block tail := by
      rw [hlh]
      intro heq
      have := h.inj hi htail heq
      omega
    rw [update_of_ne hne]
    refine h.pinned ⟨i, hi, by rw [hlh], ?_⟩
    rw [hpc]
    exact (Nat.le_succ tail).trans hle
  · by_cases heq : b = m.mem.lh.block tail
    · subst heq
      rw [update_self, h.pinned ⟨tail, htail, rfl, by rw [hpc]; exact le_rfl⟩]
      rfl
    · rw [update_of_ne heq]
      refine h.unpinned fun ⟨i, hi, hbi, hle⟩ => hb ⟨i, ?_, ?_, ?_⟩
      · rwa [hlh]
      · rwa [hlh]
      · rw [hpc] at hle
        rw [hpc']
        have hle : tail ≤ i := hle
        have hne : tail ≠ i := fun h => heq (by rw [← hbi, h])
        exact lt_of_le_of_ne hle hne

lemma clear {tail : ℕ} (h : HeaderInv true m pins) (hpc : m.pc = .install tail)
    (htail : ¬tail < m.mem.lh.count) (hn : m'.mem.lh.n = 0) (hpc' : m'.pc = .clearHead) :
    HeaderInv true m' pins := by
  have hcount := LogHeader.count_zero hn
  refine ⟨by simp, by rw [hpc']; trivial, fun _ _ => hcount, by rw [hn]; decide, by rw [hn]; decide,
    fun hi => by omega, fun ⟨i, hi, _⟩ => by omega, fun _ => ?_⟩
  -- everything has been installed
  refine h.unpinned fun ⟨i, hi, _, hle⟩ => ?_
  rw [hpc] at hle
  have hle : tail ≤ i := hle
  omega

lemma kernelStep {start : ℕ} (h : HeaderInv true m pins)
    (hstep : kernelStep start m = some m') : HeaderInv true m' (m.pinsAfter pins) := by
  have hpins (hin : ∀ t, m.pc = .install t → ¬t < m.mem.lh.count) : m.pinsAfter pins = pins := by
    unfold LogMachine.pinsAfter
    split
    · rw [if_neg (hin _ ‹_›)]
    · rfl
  unfold Log.kernelStep at hstep
  have hin := h.inCommit
  cases hpc : m.pc with rw [hpc] at hstep hin
  | idle => cases hstep
  | writeLog tail =>
    rw [hpins (by simp [hpc])]
    dsimp only at hstep
    split_ifs at hstep <;> cases hstep <;>
      exact h.congr rfl (by simp [hpc, Pc.installed]) (by simp) trivial (by simp)
  | writeHead =>
    rw [hpins (by simp [hpc])]
    cases hstep
    exact h.congr rfl (by simp [hpc, Pc.installed]) (by simp) trivial (by simp)
  | install tail =>
    dsimp only at hstep
    split_ifs at hstep with htail <;> cases hstep
    · have hpins : m.pinsAfter pins = update pins (m.mem.lh.block tail)
          (pins (m.mem.lh.block tail) - 1) := by
        simp [LogMachine.pinsAfter, hpc, htail]
      rw [hpins]
      exact h.install hpc htail rfl rfl
    · rw [hpins (by simpa [hpc] using htail)]
      exact h.clear hpc htail rfl rfl
  | clearHead =>
    rw [hpins (by simp [hpc])]
    cases hstep
    exact h.congr rfl (by simp [hpc, Pc.installed]) (by simp) trivial
      fun _ _ => h.cleared rfl (.inr hpc)
  -- the program points of the recovery
  | _ => exact hin.elim

end HeaderInv

/-! ## The invariant -/

section Invariant

variable {P : Type} [DecidableEq P] [Fintype P] {start : ℕ} {g g' : GroupState P} {p : P} {a : Act}

/-- The invariant of the log. -/
structure GroupInv (g : GroupState P) : Prop where
  counters : Counters g.outstanding g.committing g.phase
  header : HeaderInv g.committing g.log g.pins

lemma groupInv_init (h : (groupSystem P start).init g) : GroupInv g := by
  obtain ⟨hpc, hn, hout, hcom, hpins, hphase⟩ := h
  have hcount := LogHeader.count_zero hn
  have hops : ops g.phase = ∅ := by
    ext p
    simp [hphase p]
  refine ⟨⟨?_, fun _ => hout, fun hp => ?_, fun hp => ?_⟩, ⟨fun _ => hpc, ?_, fun _ _ => hcount,
    by rw [hn]; decide, by rw [hn]; decide, fun hi => ?_, fun ⟨i, hi, _⟩ => ?_, fun _ => hpins _⟩⟩
  · rw [hout, hops]
    rfl
  · simp [hphase] at hp
  · simp [hphase] at hp
  · rw [hpc]
    trivial
  · rw [hcount] at hi
    omega
  · rw [hcount] at hi
    omega

lemma GroupInv.step (h : GroupInv g) (hstep : g.exec start p a = some (.ok g')) :
    GroupInv g' := by
  have hcounters := h.counters
  have hheader := h.header
  cases GroupState.exec_cases hstep with
  | call hp | kill hp | wait hp _ =>
    exact ⟨hcounters.move (by simp [hp]) (by decide) (by decide), hheader⟩
  | admits hp hwait =>
    have hcom : g.committing = false := by
      by_contra hc
      exact hwait (.inl (by simpa using hc))
    refine ⟨?_, hheader⟩
    rw [hcom] at hcounters
    simpa [GroupState.setPhase, hcom] using hcounters.beginOp (p := p) (by simp [hp])
  | @logWrite b data hp hfull =>
    refine ⟨hcounters, ?_⟩
    simp only [hcounters.not_committing hp] at hheader ⊢
    split_ifs with hfind
    · exact hheader.append hfull (LogHeader.find_eq_count_iff.mp hfind) _
    · have hhas : g.lh.Has b := not_not.mp fun hnot => hfind (LogHeader.find_eq_count_iff.mpr hnot)
      exact hheader.congr (LogHeader.absorb_of_has hhas) rfl hheader.idle hheader.inCommit
        hheader.cleared
  | endLast hp hzero =>
    have hcom := hcounters.not_committing hp
    rw [hcom] at hcounters hheader
    exact ⟨hcounters.commit hp hzero, hheader.beginCommit⟩
  | endOp hp =>
    have hcom := hcounters.not_committing hp
    rw [hcom] at hcounters
    refine ⟨?_, hheader⟩
    simpa [GroupState.setPhase, GroupState.wakeup, hcom] using
      hcounters.wake.endOp (p := p) (by simpa using hp)
  | commit hp hlog =>
    have hcom := hcounters.committer hp
    rw [hcom] at hheader
    exact ⟨hcounters, by simpa [hcom] using hheader.kernelStep hlog⟩
  | finish hp hpc =>
    exact ⟨hcounters.wake.finish (by simpa using hp), hheader.congr rfl rfl (fun _ => hpc)
      hheader.inCommit (by simp [GroupState.setPhase, GroupState.wakeup])⟩

lemma GroupInv.of_reachable (h : (groupSystem P start).Reachable g) : GroupInv g :=
  h.invariant (I := GroupInv) (fun _ hg => groupInv_init hg) fun _ _ _ _ hg hstep => hg.step hstep

end Invariant

end Xv6.Log
