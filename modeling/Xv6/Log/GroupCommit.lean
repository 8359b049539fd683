import Xv6.Log.Group

/-!
# Group commit

The operations that are admitted between two commits form one transaction. `Recorded` relates a
state of the log to the steps that led to it: which operations are open, and which blocks were
logged since the last commit. With the invariant of the machine it gives that every operation is
whole: what it logs is committed in one transaction, and only after it has ended.
-/

namespace Xv6.Log

open GroupState

/-! ## The steps that led to a state -/

section History

variable {P : Type} [DecidableEq P]

/-- The steps that led to a state, each with the state before it; the last step comes first. -/
abbrev GroupHistory (P : Type) : Type := List (GroupState P × (P × Act))

/-- `begin_op` admits an operation of the process. -/
def Admits (p : P) (x : GroupState P × (P × Act)) : Prop :=
  match x.2.2 with
  | .test => x.2.1 = p ∧ ¬x.1.MustWait
  | _ => False

instance (p : P) : DecidablePred (Admits p) := fun x => by
  unfold Admits
  split <;> infer_instance

/-- The process calls `end_op`. -/
def Ends (p : P) (x : GroupState P × (P × Act)) : Prop :=
  match x.2.2 with
  | .endOp => x.2.1 = p
  | _ => False

instance (p : P) : DecidablePred (Ends p) := fun x => by
  unfold Ends
  split <;> infer_instance

/-- The block is logged. -/
def Logs (b : BitVec 32) (x : GroupState P × (P × Act)) : Prop :=
  match x.2.2 with
  | .logWrite b' _ => b' = b
  | _ => False

/-- A commit is over. -/
def Finishes (x : GroupState P × (P × Act)) : Prop :=
  match x.2.2 with
  | .finish => True
  | _ => False

instance : DecidablePred (Finishes (P := P)) := fun x => by
  unfold Finishes
  split <;> infer_instance

/-- A step of a commit. -/
def Commits (x : GroupState P × (P × Act)) : Prop :=
  match x.2.2 with
  | .commit => True
  | .finish => True
  | _ => False

/-- The steps since `begin_op` last admitted an operation of the process. -/
def sinceAdmission (p : P) (h : GroupHistory P) : GroupHistory P := h.takeWhile fun x => ¬Admits p x

/-- The steps since the process last called `end_op`. -/
def sinceEnd (p : P) (h : GroupHistory P) : GroupHistory P := h.takeWhile fun x => ¬Ends p x

/-- The steps of the current transaction: those since the last commit was over. -/
def sinceFinish (h : GroupHistory P) : GroupHistory P := h.takeWhile fun x => ¬Finishes x

variable {p : P} {h : GroupHistory P} {x y : GroupState P × (P × Act)}

lemma mem_sinceAdmission_cons :
    y ∈ sinceAdmission p (x :: h) ↔ ¬Admits p x ∧ (y = x ∨ y ∈ sinceAdmission p h) := by
  by_cases hx : Admits p x <;> simp [sinceAdmission, hx]

lemma mem_sinceEnd_cons :
    y ∈ sinceEnd p (x :: h) ↔ ¬Ends p x ∧ (y = x ∨ y ∈ sinceEnd p h) := by
  by_cases hx : Ends p x <;> simp [sinceEnd, hx]

omit [DecidableEq P] in
lemma mem_sinceFinish_cons :
    y ∈ sinceFinish (x :: h) ↔ ¬Finishes x ∧ (y = x ∨ y ∈ sinceFinish h) := by
  by_cases hx : Finishes x <;> simp [sinceFinish, hx]

/-- The state is what the steps since the last commit have made of it. -/
structure Recorded (h : GroupHistory P) (g : GroupState P) : Prop where
  /-- Since an open operation was admitted there was no step of a commit, and it has not ended. -/
  isOpen : ∀ {p}, g.phase p = .inOp → ∀ x ∈ sinceAdmission p h, ¬Commits x ∧ x ∈ sinceFinish h
  /-- A process that is in no operation has ended all that were admitted. -/
  closed : ∀ {p}, g.phase p ≠ .inOp → ∀ x ∈ sinceEnd p h, ¬Admits p x
  /-- The header has the blocks that were logged in the transaction, until the commit clears it. -/
  logged : ¬(g.committing = true ∧ (g.log.pc = .idle ∨ g.log.pc = .clearHead)) →
    ∀ b, g.lh.Has b ↔ ∃ x ∈ sinceFinish h, Logs b x

variable {g g' : GroupState P} {q : P} {a : Act} {start : ℕ}

/-- A process gets into an operation by `begin_op`, and out of it by `end_op`. -/
theorem phase_step (hstep : g.exec start p a = some (.ok g')) (q : P) :
    Admits q (g, (p, a)) ∧ g'.phase q = .inOp ∨ Ends q (g, (p, a)) ∧ g'.phase q ≠ .inOp ∨
      ¬Admits q (g, (p, a)) ∧ ¬Ends q (g, (p, a)) ∧ (g'.phase q = .inOp ↔ g.phase q = .inOp) := by
  -- a change of the phase of `p` that does not concern operations
  have hmove : ∀ {phase : P → Phase} {ph}, phase p ≠ .inOp → ph ≠ .inOp →
      (Function.update phase p ph q = .inOp ↔ phase q = .inOp) := by
    intro phase ph hp hph
    by_cases hqp : q = p <;> simp [hqp, hp, hph]
  cases exec_cases hstep with
  | call hp | kill hp => exact .inr (.inr ⟨id, id, hmove (by simp [hp]) (by decide)⟩)
  | wait hp hwait =>
    exact .inr (.inr ⟨fun h => h.2 hwait, id, hmove (by simp [hp]) (by decide)⟩)
  | admits hp hwait =>
    by_cases hqp : q = p
    · subst hqp
      exact .inl ⟨⟨rfl, hwait⟩, by simp [setPhase]⟩
    · exact .inr (.inr ⟨fun h => hqp h.1.symm, id, by simp [setPhase, hqp]⟩)
  | logWrite | commit => exact .inr (.inr ⟨id, id, Iff.rfl⟩)
  | endLast | endOp =>
    by_cases hqp : q = p
    · subst hqp
      exact .inr (.inl ⟨rfl, by simp [setPhase]⟩)
    · exact .inr (.inr ⟨id, fun h => hqp h.symm, by
        simp [setPhase, wakeup, hqp]⟩)
  | finish hp hpc =>
    refine .inr (.inr ⟨id, id, (hmove ?_ (by decide)).trans wake_eq_inOp⟩)
    simp [wakeup, hp]

variable [Fintype P]

lemma not_commits (hg : GroupInv g) (hstep : g.exec start p a = some (.ok g'))
    (hq : g.phase q = .inOp) : ¬Commits (g, (p, a)) := by
  have hcom := hg.counters.not_committing hq
  intro hc
  have hp : g.phase p = .committing := by
    cases exec_cases hstep with
    | commit hp _ | finish hp _ => exact hp
    | _ => exact hc.elim
  exact absurd (hg.counters.committer hp) (by simp [hcom])

omit [DecidableEq P] [Fintype P] in
lemma commits_of_finishes (hx : Finishes x) : Commits x := by
  unfold Finishes at hx
  split at hx
  · next heq => simp [Commits, heq]
  · exact hx.elim

lemma kernelStep_lh {start : ℕ} {m m' : LogMachine} (hin : m.pc.InCommit)
    (hstep : kernelStep start m = some m') (hpc : ¬(m'.pc = .idle ∨ m'.pc = .clearHead)) :
    m'.mem.lh = m.mem.lh ∧ ¬(m.pc = .idle ∨ m.pc = .clearHead) := by
  unfold kernelStep at hstep
  cases h : m.pc with rw [h] at hstep hin
  | idle => cases hstep
  | writeLog tail =>
    dsimp only at hstep
    split_ifs at hstep <;> cases hstep <;> exact ⟨rfl, by simp⟩
  | writeHead =>
    cases hstep
    exact ⟨rfl, by simp⟩
  | install tail =>
    dsimp only at hstep
    split_ifs at hstep <;> cases hstep
    · exact ⟨rfl, by simp⟩
    · exact absurd (.inr rfl) hpc
  | clearHead =>
    cases hstep
    exact absurd (.inl rfl) hpc
  | _ => exact hin.elim

omit [Fintype P] in
/-- What is logged after a step that is not the end of a commit. -/
theorem Recorded.logs_cons (hr : Recorded h g)
    (hcond : ¬(g.committing = true ∧ (g.log.pc = .idle ∨ g.log.pc = .clearHead)))
    (hx : ¬Finishes x) (b : BitVec 32) :
    (Logs b x ∨ g.lh.Has b) ↔ ∃ y ∈ sinceFinish (x :: h), Logs b y := by
  rw [hr.logged hcond b]
  simp [mem_sinceFinish_cons, hx]

/-- The header after a step, for a commit that has not cleared it. -/
theorem Recorded.logged_step (hr : Recorded h g) (hg : GroupInv g)
    (hstep : g.exec start p a = some (.ok g'))
    (hcond : ¬(g'.committing = true ∧ (g'.log.pc = .idle ∨ g'.log.pc = .clearHead)))
    (b : BitVec 32) : g'.lh.Has b ↔ ∃ y ∈ sinceFinish ((g, (p, a)) :: h), Logs b y := by
  cases exec_cases hstep with
  | call | kill | wait | admits =>
    rw [← hr.logs_cons hcond id]
    exact ⟨.inr, fun hor => hor.elim False.elim id⟩
  | logWrite hp hfull =>
    rw [← hr.logs_cons (by simp [hg.counters.not_committing hp]) id]
    exact LogHeader.has_absorb hg.header.n_nonneg hfull
  | endLast hp | endOp hp =>
    rw [← hr.logs_cons (by simp [hg.counters.not_committing hp]) id]
    exact ⟨.inr, fun hor => hor.elim False.elim id⟩
  | @commit log hp hlog =>
    have hcom : g.committing = true := hg.counters.committer hp
    have hpc : ¬(log.pc = .idle ∨ log.pc = .clearHead) := fun hpc => hcond ⟨hcom, hpc⟩
    obtain ⟨hlh, hpc₀⟩ := kernelStep_lh hg.header.inCommit hlog hpc
    rw [← hr.logs_cons (fun hboth => hpc₀ hboth.2) id]
    change log.mem.lh.Has b ↔ _
    rw [hlh]
    exact ⟨.inr, fun hor => hor.elim False.elim id⟩
  | finish hp hpc =>
    -- the transaction is over, and the header is empty
    have hcount : g.lh.count = 0 := hg.header.cleared (hg.counters.committer hp) (.inl hpc)
    refine iff_of_false ?_ ?_
    · rintro ⟨i, hi, -⟩
      change i < g.lh.count at hi
      omega
    · rintro ⟨y, hy, -⟩
      exact (mem_sinceFinish_cons.mp hy).1 trivial

lemma Recorded.step (hr : Recorded h g) (hg : GroupInv g)
    (hstep : g.exec start p a = some (.ok g')) : Recorded ((g, (p, a)) :: h) g' := by
  refine ⟨fun {q} hq y hy => ?_, fun {q} hq y hy => ?_, hr.logged_step hg hstep⟩
  · -- an operation that is open now was just admitted, or was open before
    obtain ⟨hnot, hy⟩ := mem_sinceAdmission_cons.mp hy
    obtain ⟨hadm, -⟩ | ⟨-, hq'⟩ | ⟨-, -, hiff⟩ := phase_step hstep q
    · exact absurd hadm hnot
    · exact absurd hq hq'
    · have hopen := hiff.mp hq
      have hcommit := not_commits hg hstep hopen
      have hfinish : ¬Finishes (g, (p, a)) := fun hf => hcommit (commits_of_finishes hf)
      obtain rfl | hy := hy
      · exact ⟨hcommit, mem_sinceFinish_cons.mpr ⟨hfinish, .inl rfl⟩⟩
      · obtain ⟨hold, hmem⟩ := hr.isOpen hopen y hy
        exact ⟨hold, mem_sinceFinish_cons.mpr ⟨hfinish, .inr hmem⟩⟩
  · obtain ⟨hnot, hy⟩ := mem_sinceEnd_cons.mp hy
    obtain ⟨-, hq'⟩ | ⟨hend, -⟩ | ⟨hadm, -, hiff⟩ := phase_step hstep q
    · exact absurd hq' hq
    · exact absurd hend hnot
    · obtain rfl | hy := hy
      · exact hadm
      · exact hr.closed (fun hopen => hq (hiff.mpr hopen)) y hy

lemma Recorded.of_trace {g₀ : GroupState P} (hinit : (groupSystem P start).init g₀)
    (ht : (groupSystem P start).Trace g₀ h g) : Recorded h g := by
  refine ht.invariant (I := Recorded) ?_ ?_ (.init hinit)
  · obtain ⟨-, hn, -, -, -, hphase⟩ := hinit
    refine ⟨fun hq => by simp [hphase] at hq, fun _ x hx => by simp [sinceEnd] at hx, fun _ b => ?_⟩
    have hcount := LogHeader.count_zero hn
    refine iff_of_false ?_ (by simp [sinceFinish])
    rintro ⟨i, hi, -⟩
    omega
  · intro h g l g' hreach hr hstep
    exact hr.step (.of_reachable hreach) hstep

/-- In every run of any number of processes: `log.committing` implies that no operation is
outstanding; a commit in progress excludes `log_write` and admissions; from its admission on an open
operation sees no step of a commit, so that all it logs is in one transaction; when the header of a
transaction is written, every admitted operation has called `end_op`, and the header has exactly the
blocks that were logged in the transaction; the entries of the header are distinct, and a buffer has
one pin exactly from the time that its block is logged until it is installed. -/
theorem group_commit_whole {g₀ : GroupState P} (hinit : (groupSystem P start).init g₀)
    (ht : (groupSystem P start).Trace g₀ h g) :
    (g.committing = true → g.outstanding = 0) ∧
    (∀ p a g', (groupSystem P start).step g (p, a) g' → g.committing = true →
      (∀ b data, a ≠ .logWrite b data) ∧ ¬Admits p (g, (p, a))) ∧
    (∀ p, g.phase p = .inOp → ∀ x ∈ sinceAdmission p h, ¬Commits x ∧ x ∈ sinceFinish h) ∧
    (∀ p g', (groupSystem P start).step g (p, .commit) g' → g.log.pc = .writeHead →
      (∀ q, ∀ x ∈ sinceEnd q h, ¬Admits q x) ∧
      ∀ b, g.lh.Has b ↔ ∃ x ∈ sinceFinish h, Logs b x) ∧
    (∀ i < g.lh.count, ∀ j < g.lh.count, g.lh.block i = g.lh.block j → i = j) ∧
    ∀ b, (g.log.Awaits b → g.pins b = 1) ∧ (¬g.log.Awaits b → g.pins b = 0) := by
  have hg : GroupInv g := .of_reachable (ht.reachable (.init hinit))
  have hr : Recorded h g := .of_trace hinit ht
  refine ⟨hg.counters.outstanding_zero, fun p a g' hstep hcom => ⟨?_, ?_⟩,
    fun p hp => hr.isOpen hp, fun p g' hstep hpc => ⟨fun q => ?_, ?_⟩,
    fun i hi j hj => hg.header.inj hi hj, fun b => ⟨hg.header.pinned, hg.header.unpinned⟩⟩
  · rintro b data rfl
    cases exec_cases hstep with
    | logWrite hp => exact absurd hcom (by simp [hg.counters.not_committing hp])
  · intro hadm
    cases a with
    | test => exact hadm.2 (.inl hcom)
    | _ => exact hadm
  · -- a commit runs only when no operation is outstanding
    refine hr.closed fun hq => ?_
    exact not_commits hg hstep hq trivial
  · exact hr.logged fun hboth => by simp [hpc] at hboth

/-- Execute a step that does not panic. -/
def execOk (start : ℕ) (g : GroupState P) (l : P × Act) : Option (GroupState P) :=
  match g.exec start l.1 l.2 with
  | some (.ok g') => some g'
  | _ => none

omit [Fintype P] in
lemma step_of_execOk {l : P × Act} (h : execOk start g l = some g') :
    (groupSystem P start).step g l g' := by
  unfold execOk at h
  split at h
  · next heq =>
    cases h
    exact heq
  · cases h

end History

/-- The log of two processes after the recovery, on a disk of zeros. -/
def emptyLog : GroupState (Fin 2) where
  log :=
    { mem := { disk := fun _ _ => 0, cache := fun _ => none, lh := { n := 0, block := fun _ => 0 } }
      pc := .idle
      txn := { lh := { n := 0, block := fun _ => 0 }, pre := fun _ _ => 0, new := fun _ _ => 0,
               headWritten := false } }
  outstanding := 0
  committing := false
  pins _ := 0
  phase _ := .outside

/-- Both processes log block 100 in one transaction; the commit goes up to the write of the
header. -/
def twoOperations : List (Fin 2 × Act) :=
  [(0, .call), (0, .test), (1, .call), (1, .test), (0, .logWrite 100 fun _ => 1),
    (1, .logWrite 100 fun _ => 2), (1, .endOp), (0, .endOp), (0, .commit), (0, .commit)]

theorem group_commit_whole_two : ∃ h g, (groupSystem (Fin 2) 2).Trace emptyLog h g ∧
    g.log.pc = .writeHead ∧ g.lh.count = 1 ∧ g.outstanding = 0 ∧ g.pins 100 = 1 ∧
    ∃ x ∈ sinceFinish h, Logs 100 x := by
  have hrun : (twoOperations.foldlM (TransitionSystem.Trace.record (execOk 2)) ([], emptyLog)).any
      fun x => x.2.log.pc = .writeHead ∧ x.2.lh.count = 1 ∧ x.2.lh.block 0 = 100 ∧
        x.2.committing = true ∧ (execOk 2 x.2 (0, .commit)).isSome := by
    decide +kernel
  obtain ⟨⟨h, g⟩, hfold, hx⟩ := Option.any_eq_true _ _ |>.mp hrun
  obtain ⟨hpc, hcount, hblock, hcom, hsome⟩ := of_decide_eq_true hx
  simp only at hpc hcount hblock hcom hsome
  obtain ⟨g', hg'⟩ := Option.isSome_iff_exists.mp hsome
  have ht : (groupSystem (Fin 2) 2).Trace emptyLog h g :=
    .of_foldlM (fun _ _ _ => step_of_execOk) hfold
  have hpos : 0 < g.lh.count := by omega
  have hawaits : g.log.Awaits 100 := ⟨0, hpos, hblock, by rw [hpc]; exact le_rfl⟩
  obtain ⟨hzero, -, -, hcommit, -, hpins⟩ :=
    group_commit_whole ⟨rfl, rfl, rfl, rfl, fun _ => rfl, fun _ => rfl⟩ ht
  exact ⟨h, g, ht, hpc, hcount, hzero hcom, (hpins 100).1 hawaits,
    ((hcommit 0 g' (step_of_execOk hg') hpc).2 100).mp ⟨0, hpos, hblock⟩⟩

end Xv6.Log
