import Xv6.Log.Model
import Xv6.Foundations.Transition

/-!
# Crash atomicity of the redo log

The machine runs `commit` and `recover_from_log` one disk write at a time. A crash may happen
before any of the writes, in a commit or in a recovery: it empties the buffer cache, forgets the
in-memory header and restarts the machine in `recover_from_log`.

A transaction is recorded beside the state (`Txn`): the disk before it, the contents it commits,
and whether its header has been written. What survives a crash is one of two things:

* `Clean`: the header on disk is empty, and the home blocks are all old or all new;
* `Pending k`: the header on disk names the transaction, the log body is complete, and the first
  `k` home blocks are installed.

`LogInv` adds, for each program point, what memory holds on top of that. It is kept by every step
(`logInv_step`), and `log_crash_atomic` reads the result off in the states where a commit or a
recovery has completed.
-/

namespace Xv6.Log

open Function Nat

/-! ## The machine -/

/-- Program points: between `commit`s, in `commit`, and in `recover_from_log`. -/
inductive Pc where
  | idle
  | writeLog (tail : ℕ)
  | writeHead
  | install (tail : ℕ)
  | clearHead
  | readHead
  | recInstall (tail : ℕ)
  | recClear
  deriving DecidableEq

/-- A transaction, recorded when its commit starts. -/
structure Txn where
  /-- The header with the blocks to commit. -/
  lh : LogHeader
  /-- The disk before the commit. -/
  pre : ℕ → Block
  /-- The contents to commit, by position in the header. -/
  new : ℕ → Block
  /-- The header has been written to disk. -/
  headWritten : Bool

/-- The state of the machine with the current or last transaction. -/
structure LogMachine where
  mem : LogState
  pc : Pc
  txn : Txn

variable (start : ℕ)

/-- The blocks of the log: the header and the `LOGBLOCKS` blocks after it. -/
def InLog (b : ℕ) : Prop := start ≤ b ∧ b ≤ start + LOGBLOCKS

/-- A header that `log_write` can build: at most `LOGBLOCKS` distinct blocks, none in the log. -/
structure ValidHeader (lh : LogHeader) : Prop where
  count_le : lh.count ≤ LOGBLOCKS
  inj : ∀ i < lh.count, ∀ j < lh.count, lh.blockno i = lh.blockno j → i = j
  notInLog : ∀ i < lh.count, ¬InLog start (lh.blockno i)

/-- The next step of the code at each program point. -/
def kernelStep (m : LogMachine) : Option LogMachine :=
  match m.pc with
  | .idle => none
  | .writeLog tail =>
    if tail < m.mem.lh.count then
      some { m with mem := writeLogBody start tail m.mem, pc := .writeLog (tail + 1) }
    else some { m with pc := .writeHead }
  | .writeHead =>
    some { m with
      mem := writeHead start m.mem
      pc := .install 0
      txn := { m.txn with headWritten := true } }
  | .install tail =>
    if tail < m.mem.lh.count then
      some { m with mem := installBody start tail m.mem, pc := .install (tail + 1) }
    else some { m with mem := clearCount m.mem, pc := .clearHead }
  | .clearHead => some { m with mem := writeHead start m.mem, pc := .idle }
  | .readHead => some { m with mem := readHead start m.mem, pc := .recInstall 0 }
  | .recInstall tail =>
    if tail < m.mem.lh.count then
      some { m with mem := installBody start tail m.mem, pc := .recInstall (tail + 1) }
    else some { m with mem := clearCount m.mem, pc := .recClear }
  | .recClear => some { m with mem := writeHead start m.mem, pc := .idle }

/-- Block `b` is pinned in the cache: `log_write` pinned it, and `install_trans` has not reached
it yet. -/
def Pinned (m : LogMachine) (b : ℕ) : Prop :=
  ∃ i < m.mem.lh.count, m.mem.lh.blockno i = b ∧
    ((∃ tail, m.pc = .writeLog tail) ∨ m.pc = .writeHead ∨ ∃ tail ≤ i, m.pc = .install tail)

/-- Begin a commit: file-system calls have left any buffers and any valid header. -/
def beginCommit (disk : ℕ → Block) (cache : ℕ → Option Block) (lh : LogHeader) : LogMachine :=
  let mem : LogState := { disk, cache, lh }
  { mem := mem
    pc := if 0 < lh.count then .writeLog 0 else .idle
    txn := { lh, pre := disk, new := fun i => mem.view (lh.blockno i), headWritten := false } }

/-- The kinds of step. -/
inductive LogAct where
  | begin
  | kernel
  | evict (b : ℕ)
  | crash

/-- The steps of the machine. -/
inductive LogStep : LogMachine → LogAct → LogMachine → Prop
  /-- A commit begins. Meanwhile blocks outside the log may have been written. -/
  | begin {m : LogMachine} (hpc : m.pc = .idle) {disk : ℕ → Block} {cache : ℕ → Option Block}
      {lh : LogHeader} (hlog : ∀ b, InLog start b → disk b = m.mem.disk b)
      (hlh : ValidHeader start lh) : LogStep m .begin (beginCommit disk cache lh)
  /-- The code runs. -/
  | kernel {m m' : LogMachine} (h : kernelStep start m = some m') : LogStep m .kernel m'
  /-- An unpinned buffer is recycled. -/
  | evict {m : LogMachine} {b : ℕ} (h : ¬Pinned m b) :
      LogStep m (.evict b)
        { m with mem := { m.mem with cache := update m.mem.cache b none } }
  /-- The machine crashes and reboots with an empty cache. -/
  | crash {m : LogMachine} (lh : LogHeader) :
      LogStep m .crash
        { m with mem := { disk := m.mem.disk, cache := fun _ => none, lh }, pc := .readHead }

/-- The machine starts between commits with an empty header on disk, as `mkfs` leaves it. -/
def logSystem : TransitionSystem LogMachine LogAct where
  init m := m.pc = .idle ∧ getWord (m.mem.disk start) 0 = 0 ∧ m.txn.lh.count = 0 ∧
    m.txn.pre = m.mem.disk
  step := LogStep start

/-! ## What survives a crash -/

/-- The disk after the first `k` blocks of a transaction are installed. -/
def Txn.content (T : Txn) : ℕ → ℕ → Block
  | 0 => T.pre
  | k + 1 => update (T.content k) (T.lh.blockno k) (T.new k)

/-- The number of blocks installed once the transaction is over. -/
def Txn.installed (T : Txn) : ℕ := if T.headWritten then T.lh.count else 0

/-- Outside the log, the disk is that of the first `k` blocks installed. -/
def Home (T : Txn) (k : ℕ) (disk : ℕ → Block) : Prop :=
  ∀ b, ¬InLog start b → disk b = T.content k b

/-- No transaction is pending on disk, and the last one is installed completely or not at all. -/
structure Clean (T : Txn) (disk : ℕ → Block) : Prop where
  header : getWord (disk start) 0 = 0
  home : Home start T T.installed disk

/-- The transaction is pending on disk, with its first `k` blocks installed. -/
structure Pending (T : Txn) (k : ℕ) (disk : ℕ → Block) : Prop where
  headWritten : T.headWritten = true
  count : getWord (disk start) 0 = T.lh.n
  entries : ∀ i < T.lh.count, getWord (disk start) (i + 1) = T.lh.block i
  body : ∀ i < T.lh.count, disk (start + i + 1) = T.new i
  home : Home start T k disk

/-- The in-memory header holds the entries of the transaction. -/
def SameEntries (lh lh' : LogHeader) : Prop :=
  lh.n = lh'.n ∧ ∀ i < lh'.count, lh.block i = lh'.block i

/-- Before the header is written: the first `tail` blocks are in the log, on disk and in what is
read, and the home blocks still read as the contents to commit. -/
structure Logged (m : LogMachine) (tail : ℕ) : Prop where
  clean : Clean start m.txn m.mem.disk
  notWritten : m.txn.headWritten = false
  lh : m.mem.lh = m.txn.lh
  le : tail ≤ m.txn.lh.count
  body : ∀ i < tail, m.mem.disk (start + i + 1) = m.txn.new i
  view : ∀ i < tail, m.mem.view (start + i + 1) = m.txn.new i
  source : ∀ i < m.txn.lh.count, m.mem.view (m.txn.lh.blockno i) = m.txn.new i

/-- While `install_trans` runs: the transaction is pending with at least the first `tail` blocks
installed, and the log body reads as it is on disk. -/
structure Installing (m : LogMachine) (tail : ℕ) : Prop where
  pending : ∃ k, tail ≤ k ∧ k ≤ m.txn.lh.count ∧ Pending start m.txn k m.mem.disk
  lh : SameEntries m.mem.lh m.txn.lh
  view : ∀ i < m.txn.lh.count, m.mem.view (start + i + 1) = m.txn.new i

/-- What holds at each program point. After a crash the cache is filled from the disk only, so
what is read is what is on disk. -/
def LogInvAt (m : LogMachine) : Pc → Prop
  | .idle => Clean start m.txn m.mem.disk
  | .writeLog tail => Logged start m tail
  | .writeHead => Logged start m m.txn.lh.count
  | .install tail => Installing start m tail
  | .clearHead => m.mem.lh.n = 0 ∧ Pending start m.txn m.txn.lh.count m.mem.disk
  | .readHead => m.mem.view = m.mem.disk ∧
      (Clean start m.txn m.mem.disk ∨
        ∃ k ≤ m.txn.lh.count, Pending start m.txn k m.mem.disk)
  | .recInstall tail =>
      (Clean start m.txn m.mem.disk ∧ m.mem.lh.count = 0) ∨ Installing start m tail
  | .recClear => m.mem.lh.n = 0 ∧
      (Clean start m.txn m.mem.disk ∨ Pending start m.txn m.txn.lh.count m.mem.disk)

/-- The invariant of the machine. -/
def LogInv (m : LogMachine) : Prop := ValidHeader start m.txn.lh ∧ LogInvAt start m m.pc

variable {start}

/-! ## Contents of the home blocks -/

namespace Txn

variable {T : Txn}

lemma content_of_ne {k b : ℕ} (hb : ∀ i < k, T.lh.blockno i ≠ b) : T.content k b = T.pre b := by
  induction k with
  | zero => rfl
  | succ k ih =>
    have hne : b ≠ T.lh.blockno k := (hb k (by omega)).symm
    rw [content, update_of_ne hne]
    exact ih fun i hi => hb i (by omega)

lemma content_blockno (hT : ValidHeader start T.lh) {k i : ℕ} (hk : k ≤ T.lh.count)
    (hi : i < k) : T.content k (T.lh.blockno i) = T.new i := by
  induction k with
  | zero => omega
  | succ k ih =>
    rw [content]
    by_cases hik : i = k
    · rw [hik, update_self]
    · have hne : T.lh.blockno i ≠ T.lh.blockno k := fun h =>
        hik (hT.inj i (by omega) k (by omega) h)
      rw [update_of_ne hne]
      exact ih (by omega) (by omega)

end Txn

/-- Installing block `tail` again, or for the first time, leaves at least `tail + 1` blocks
installed. -/
theorem Home.install {T : Txn} (hT : ValidHeader start T.lh) {tail k : ℕ} {disk : ℕ → Block}
    (htail : tail < T.lh.count) (hle : tail ≤ k) (hk : k ≤ T.lh.count) (h : Home start T k disk) :
    Home start T (max k (tail + 1))
      (update disk (T.lh.blockno tail) (T.new tail)) := by
  intro b hb
  rcases lt_or_ge tail k with hlt | hge
  · -- installed before: the write changes nothing
    have hmax : max k (tail + 1) = k := by omega
    rw [hmax]
    by_cases hbt : b = T.lh.blockno tail
    · rw [hbt, update_self, Txn.content_blockno hT hk hlt]
    · rw [update_of_ne hbt, h b hb]
  · have hmax : max k (tail + 1) = tail + 1 := by omega
    have hkt : k = tail := by omega
    subst hkt
    rw [hmax, Txn.content]
    by_cases hbt : b = T.lh.blockno k
    · rw [hbt, update_self, update_self]
    · rw [update_of_ne hbt, update_of_ne hbt, h b hb]

lemma Home.write_log {T : Txn} {k : ℕ} {disk : ℕ → Block} (h : Home start T k disk) {b : ℕ}
    (hb : InLog start b) (c : Block) : Home start T k (update disk b c) := by
  intro b' hb'
  have hne : b' ≠ b := fun hc => hb' (hc ▸ hb)
  rw [update_of_ne hne, h b' hb']

lemma inLog_start : InLog start start := ⟨le_refl _, Nat.le_add_right ..⟩

lemma inLog_body {tail : ℕ} (h : tail < LOGBLOCKS) : InLog start (start + tail + 1) :=
  ⟨by omega, by omega⟩

lemma ValidHeader.blockno_ne {lh : LogHeader} (h : ValidHeader start lh) {i j : ℕ}
    (hi : i < lh.count) (hj : j < lh.count) : lh.blockno i ≠ start + j + 1 := by
  intro hc
  have hle := h.count_le
  exact h.notInLog i hi (hc ▸ inLog_body (by omega))

lemma ValidHeader.blockno_ne_start {lh : LogHeader} (h : ValidHeader start lh) {i : ℕ}
    (hi : i < lh.count) : lh.blockno i ≠ start :=
  fun hc => h.notInLog i hi (hc ▸ inLog_start)

lemma SameEntries.count_eq {lh lh' : LogHeader} (h : SameEntries lh lh') :
    lh.count = lh'.count := by
  unfold LogHeader.count
  rw [h.1]

lemma SameEntries.blockno_eq {lh lh' : LogHeader} (h : SameEntries lh lh') {i : ℕ}
    (hi : i < lh'.count) : lh.blockno i = lh'.blockno i := by
  unfold LogHeader.blockno
  rw [h.2 i hi]

/-! ## Steps of the code -/

section KernelSteps

variable {m : LogMachine}

lemma Logged.writeLogBody (hT : ValidHeader start m.txn.lh) {tail : ℕ} (h : Logged start m tail)
    (htail : tail < m.txn.lh.count) (pc : Pc) :
    Logged start { m with mem := Log.writeLogBody start tail m.mem, pc := pc } (tail + 1) := by
  have hle := hT.count_le
  have hin : InLog start (start + tail + 1) := inLog_body (by omega)
  have hsrc : m.mem.view (m.mem.lh.blockno tail) = m.txn.new tail := by
    rw [h.lh]
    exact h.source tail htail
  -- the block written is the log block of `tail`; the earlier ones are other blocks
  have hbody : ∀ f : ℕ → Block, (∀ i < tail, f (start + i + 1) = m.txn.new i) →
      ∀ i < tail + 1, update f (start + tail + 1) (m.txn.new tail) (start + i + 1) =
        m.txn.new i := by
    intro f hf i hi
    by_cases hit : i = tail
    · rw [hit, update_self]
    · rw [update_of_ne (by omega)]
      exact hf i (by omega)
  refine ⟨⟨?_, ?_⟩, h.notWritten, h.lh, by change tail + 1 ≤ m.txn.lh.count; omega, ?_, ?_, ?_⟩
  · have hne : start ≠ start + tail + 1 := by omega
    rw [writeLogBody_disk, update_of_ne hne]
    exact h.clean.header
  · rw [writeLogBody_disk]
    exact h.clean.home.write_log hin _
  · rw [writeLogBody_disk, hsrc]
    exact hbody _ h.body
  · rw [writeLogBody_view, hsrc]
    exact hbody _ h.view
  · intro i hi
    rw [writeLogBody_view, update_of_ne (hT.blockno_ne hi htail)]
    exact h.source i hi

private lemma getWord_writeHead {s : LogState} (hn : s.lh.n = 0) :
    getWord ((Log.writeHead start s).disk start) 0 = 0 := by
  have hcount := LogHeader.count_zero hn
  rw [writeHead_disk, update_self, getWord_encodeHeader_zero _ (by omega), hn]

/-- The commit point. -/
theorem Logged.writeHead (hT : ValidHeader start m.txn.lh)
    (h : Logged start m m.txn.lh.count) (pc : Pc) :
    Installing start { m with
      mem := Log.writeHead start m.mem
      pc := pc
      txn := { m.txn with headWritten := true } } 0 := by
  have hle := hT.count_le
  have hhome : Home start m.txn 0 m.mem.disk := by
    have := h.clean.home
    rwa [Txn.installed, h.notWritten] at this
  have hdisk : (Log.writeHead start m.mem).disk start =
      encodeHeader m.txn.lh (m.mem.view start) := by
    rw [writeHead_disk, update_self, h.lh]
  refine ⟨⟨0, le_refl _, zero_le _, ⟨rfl, ?_, ?_, ?_, ?_⟩⟩, ⟨by rw [← h.lh]; rfl, ?_⟩, ?_⟩
  · rw [hdisk]
    exact getWord_encodeHeader_zero _ hle _
  · intro i hi
    rw [hdisk]
    exact getWord_encodeHeader_succ _ hle _ hi
  · intro i hi
    rw [writeHead_disk, update_of_ne (by omega)]
    exact h.body i hi
  · rw [writeHead_disk]
    exact fun b hb => hhome.write_log inLog_start _ b hb
  · intro i _
    change m.mem.lh.block i = m.txn.lh.block i
    rw [h.lh]
  · intro i hi
    rw [writeHead_view, update_of_ne (by omega)]
    exact h.view i hi

/-- One iteration of `install_trans`, in a commit or in a recovery. -/
theorem Installing.installBody (hT : ValidHeader start m.txn.lh) {tail : ℕ}
    (h : Installing start m tail) (htail : tail < m.txn.lh.count) (pc : Pc) :
    Installing start { m with mem := Log.installBody start tail m.mem, pc := pc }
      (tail + 1) := by
  obtain ⟨k, hle, hk, hp⟩ := h.pending
  have hblk : m.mem.lh.blockno tail = m.txn.lh.blockno tail := h.lh.blockno_eq htail
  have hdisk : (Log.installBody start tail m.mem).disk =
      update m.mem.disk (m.txn.lh.blockno tail) (m.txn.new tail) := by
    rw [installBody_disk, hblk, h.view tail htail]
  have hstart : (Log.installBody start tail m.mem).disk start = m.mem.disk start := by
    rw [hdisk, update_of_ne (hT.blockno_ne_start htail).symm]
  refine ⟨⟨max k (tail + 1), by omega, max_le hk htail, ⟨hp.headWritten, ?_, ?_, ?_, ?_⟩⟩, h.lh,
    ?_⟩
  · rw [hstart]
    exact hp.count
  · rw [hstart]
    exact hp.entries
  · intro i hi
    rw [hdisk, update_of_ne (hT.blockno_ne htail hi).symm]
    exact hp.body i hi
  · rw [hdisk]
    exact hp.home.install hT htail hle hk
  · intro i hi
    rw [installBody_view, hblk, update_of_ne (hT.blockno_ne htail hi).symm]
    exact h.view i hi

lemma Installing.done {tail : ℕ} (h : Installing start m tail)
    (htail : ¬tail < m.mem.lh.count) : Pending start m.txn m.txn.lh.count m.mem.disk := by
  obtain ⟨k, hle, hk, hp⟩ := h.pending
  have hcount := h.lh.count_eq
  have hkc : k = m.txn.lh.count := by omega
  exact hkc ▸ hp

lemma Pending.clear (h : Pending start m.txn m.txn.lh.count m.mem.disk)
    (hn : m.mem.lh.n = 0) : Clean start m.txn (Log.writeHead start m.mem).disk where
  header := getWord_writeHead hn
  home := by
    rw [Txn.installed, h.headWritten, if_pos rfl, writeHead_disk]
    exact h.home.write_log inLog_start _

lemma Clean.clear (h : Clean start m.txn m.mem.disk) (hn : m.mem.lh.n = 0) :
    Clean start m.txn (Log.writeHead start m.mem).disk where
  header := getWord_writeHead hn
  home := by
    rw [writeHead_disk]
    exact h.home.write_log inLog_start _

/-- `read_head` after a crash finds no transaction, or the pending one. -/
theorem logInvAt_readHead (hview : m.mem.view = m.mem.disk)
    (h : Clean start m.txn m.mem.disk ∨ ∃ k ≤ m.txn.lh.count, Pending start m.txn k m.mem.disk)
    (pc : Pc) :
    LogInvAt start { m with mem := readHead start m.mem, pc := pc } (.recInstall 0) := by
  rcases h with h | ⟨k, hk, hp⟩
  · refine Or.inl ⟨h, ?_⟩
    change headerCount (m.mem.view start) = 0
    rw [hview, headerCount, h.header]
    rfl
  · refine Or.inr ⟨⟨k, zero_le _, hk, hp⟩, ⟨?_, ?_⟩, ?_⟩
    · rw [readHead_lh, hview]
      exact hp.count
    · intro i hi
      have hcount : headerCount (m.mem.disk start) = m.txn.lh.count := by
        unfold headerCount LogHeader.count
        rw [hp.count]
      rw [readHead_lh, hview, hcount]
      change (if i < m.txn.lh.count then _ else _) = _
      rw [if_pos hi]
      exact hp.entries i hi
    · intro i hi
      rw [readHead_view, hview]
      exact hp.body i hi

end KernelSteps

lemma logInv_kernelStep {m m' : LogMachine} (h : LogInv start m)
    (hstep : kernelStep start m = some m') : LogInv start m' := by
  obtain ⟨hT, hat⟩ := h
  obtain ⟨mem, pc, T⟩ := m
  cases pc with
  | idle => cases hstep
  | writeLog tail =>
    have hlogged : Logged start ⟨mem, .writeLog tail, T⟩ tail := hat
    have hlh : mem.lh = T.lh := hlogged.lh
    simp only [kernelStep, hlh] at hstep
    split_ifs at hstep with htail <;> cases hstep
    · exact ⟨hT, hlogged.writeLogBody hT htail _⟩
    · have hcount : tail = T.lh.count := le_antisymm hlogged.le (not_lt.mp htail)
      subst hcount
      exact ⟨hT, ⟨hlogged.clean, hlogged.notWritten, hlogged.lh, hlogged.le, hlogged.body,
        hlogged.view, hlogged.source⟩⟩
  | writeHead =>
    cases hstep
    exact ⟨hT, Logged.writeHead hT hat _⟩
  | install tail =>
    have hinst : Installing start ⟨mem, .install tail, T⟩ tail := hat
    simp only [kernelStep] at hstep
    split_ifs at hstep with htail <;> cases hstep
    · have hcount : mem.lh.count = T.lh.count := hinst.lh.count_eq
      exact ⟨hT, hinst.installBody hT (by rw [← hcount]; exact htail) _⟩
    · exact ⟨hT, rfl, hinst.done htail⟩
  | clearHead =>
    cases hstep
    exact ⟨hT, Pending.clear hat.2 hat.1⟩
  | readHead =>
    cases hstep
    exact ⟨hT, logInvAt_readHead hat.1 hat.2 _⟩
  | recInstall tail =>
    simp only [kernelStep] at hstep
    rcases hat with ⟨hclean, hzero⟩ | hinst
    · rw [hzero, if_neg (not_lt_zero _)] at hstep
      cases hstep
      exact ⟨hT, rfl, Or.inl hclean⟩
    · split_ifs at hstep with htail <;> cases hstep
      · have hcount : mem.lh.count = T.lh.count := hinst.lh.count_eq
        exact ⟨hT, Or.inr (hinst.installBody hT (by rw [← hcount]; exact htail) _)⟩
      · exact ⟨hT, rfl, Or.inr (hinst.done htail)⟩
  | recClear =>
    cases hstep
    rcases hat.2 with hclean | hpending
    · exact ⟨hT, hclean.clear hat.1⟩
    · exact ⟨hT, hpending.clear hat.1⟩

/-- At every program point the disk is in a state that survives a crash. -/
theorem LogInv.durable {m : LogMachine} (h : LogInv start m) : Clean start m.txn m.mem.disk ∨
    ∃ k ≤ m.txn.lh.count, Pending start m.txn k m.mem.disk := by
  obtain ⟨-, hat⟩ := h
  obtain ⟨mem, pc, T⟩ := m
  have hinst : ∀ tail, Installing start ⟨mem, pc, T⟩ tail →
      ∃ k ≤ T.lh.count, Pending start T k mem.disk := by
    intro tail hi
    obtain ⟨k, -, hk, hp⟩ := hi.pending
    exact ⟨k, hk, hp⟩
  cases pc with
  | idle => exact Or.inl hat
  | writeLog | writeHead => exact Or.inl (Logged.clean hat)
  | install tail => exact Or.inr (hinst tail hat)
  | clearHead => exact Or.inr ⟨_, le_refl _, hat.2⟩
  | readHead => exact hat.2
  | recInstall tail => exact hat.imp (fun h => h.1) (hinst tail)
  | recClear => exact hat.2.imp id fun hp => ⟨_, le_refl _, hp⟩

/-! ## Steps of the environment -/

lemma view_evict (s : LogState) (b : ℕ) :
    ({ s with cache := update s.cache b none } : LogState).view =
      update s.view b (s.disk b) := by
  funext b'
  by_cases h : b' = b
  · subst h
    simp [LogState.view]
  · simp [LogState.view, h]

private lemma view_evict_of_eq {s : LogState} {b b' : ℕ} {c : Block} (hview : s.view b' = c)
    (hdisk : s.disk b' = c) :
    ({ s with cache := update s.cache b none } : LogState).view b' = c := by
  rw [view_evict]
  by_cases h : b' = b
  · rw [h, update_self, ← h, hdisk]
  · rw [update_of_ne h, hview]

lemma logInv_evict {m : LogMachine} (h : LogInv start m) {b : ℕ} (hb : ¬Pinned m b) :
    LogInv start { m with mem := { m.mem with cache := update m.mem.cache b none } } := by
  obtain ⟨hT, hat⟩ := h
  refine ⟨hT, ?_⟩
  obtain ⟨mem, pc, T⟩ := m
  -- before the header is written the home blocks are pinned
  have hlogged : ∀ tail, Logged start ⟨mem, pc, T⟩ tail →
      (∀ i < T.lh.count, T.lh.blockno i ≠ b) →
      Logged start ⟨{ mem with cache := update mem.cache b none }, pc, T⟩ tail := by
    intro tail hl hpin
    refine ⟨hl.clean, hl.notWritten, hl.lh, hl.le, hl.body, ?_, ?_⟩
    · exact fun i hi => view_evict_of_eq (hl.view i hi) (hl.body i hi)
    · intro i hi
      rw [view_evict, update_of_ne (hpin i hi)]
      exact hl.source i hi
  have hinst : ∀ tail, Installing start ⟨mem, pc, T⟩ tail →
      Installing start ⟨{ mem with cache := update mem.cache b none }, pc, T⟩ tail := by
    intro tail hi
    obtain ⟨k, hle, hk, hp⟩ := hi.pending
    exact ⟨⟨k, hle, hk, hp⟩, hi.lh, fun i hic => view_evict_of_eq (hi.view i hic) (hp.body i hic)⟩
  cases pc with
  | idle => exact hat
  | writeLog tail =>
    have hlh : mem.lh = T.lh := Logged.lh hat
    exact hlogged tail hat fun i hi hc =>
      hb ⟨i, by rw [hlh]; exact hi, by rw [hlh]; exact hc, Or.inl ⟨tail, rfl⟩⟩
  | writeHead =>
    have hlh : mem.lh = T.lh := Logged.lh hat
    exact hlogged _ hat fun i hi hc =>
      hb ⟨i, by rw [hlh]; exact hi, by rw [hlh]; exact hc, Or.inr (Or.inl rfl)⟩
  | install tail => exact hinst tail hat
  | clearHead => exact hat
  | readHead =>
    have hview : mem.view = mem.disk := hat.1
    refine ⟨?_, hat.2⟩
    rw [view_evict]
    change update mem.view b (mem.disk b) = mem.disk
    rw [hview, update_eq_self]
  | recInstall tail => exact hat.imp id (hinst tail)
  | recClear => exact hat

/-- A crash keeps the invariant: the disk is in a state that recovery understands. -/
theorem logInv_crash {m : LogMachine} (h : LogInv start m) (lh : LogHeader) :
    LogInv start
      { m with mem := { disk := m.mem.disk, cache := fun _ => none, lh }, pc := .readHead } :=
  ⟨h.1, rfl, h.durable⟩

/-- A commit begins with the empty header that the last commit or recovery left. -/
theorem logInv_begin {m : LogMachine} (h : LogInv start m) (hpc : m.pc = .idle)
    {disk : ℕ → Block} (cache : ℕ → Option Block) {lh : LogHeader}
    (hlog : ∀ b, InLog start b → disk b = m.mem.disk b) (hlh : ValidHeader start lh) :
    LogInv start (beginCommit disk cache lh) := by
  have hclean : Clean start (beginCommit disk cache lh).txn disk := by
    have hold : Clean start m.txn m.mem.disk := by
      have hat := h.2
      rwa [hpc] at hat
    refine ⟨?_, fun b _ => rfl⟩
    rw [hlog start inLog_start]
    exact hold.header
  refine ⟨hlh, ?_⟩
  by_cases hcount : 0 < lh.count
  · have hpc' : (beginCommit disk cache lh).pc = .writeLog 0 := if_pos hcount
    rw [hpc']
    exact ⟨hclean, rfl, rfl, zero_le _, fun i hi => absurd hi (not_lt_zero _),
      fun i hi => absurd hi (not_lt_zero _), fun _ _ => rfl⟩
  · have hpc' : (beginCommit disk cache lh).pc = .idle := if_neg hcount
    rw [hpc']
    exact hclean

lemma logInv_step {m m' : LogMachine} {a : LogAct} (h : LogInv start m)
    (hstep : LogStep start m a m') : LogInv start m' := by
  cases hstep with
  | begin hpc hlog hlh => exact logInv_begin h hpc _ hlog hlh
  | kernel hk => exact logInv_kernelStep h hk
  | evict hb => exact logInv_evict h hb
  | crash lh => exact logInv_crash h lh

/-- The invariant holds along every run, with any number of transactions and crashes. -/
theorem logInv_of_reachable {m : LogMachine} (h : (logSystem start).Reachable m) :
    LogInv start m := by
  refine h.invariant (I := LogInv start) ?_ fun m a m' _ hI hstep => logInv_step hI hstep
  rintro m ⟨hpc, hheader, hcount, hpre⟩
  refine ⟨⟨by omega, fun i hi => by omega, fun i hi => by omega⟩, ?_⟩
  rw [hpc]
  have hinst : m.txn.installed = 0 := by
    unfold Txn.installed
    split_ifs
    · exact hcount
    · rfl
  refine ⟨hheader, fun b _ => ?_⟩
  rw [hinst, Txn.content, hpre]

/-- **Crash atomicity.** Whenever a commit, or a recovery after any number of crashes at any
points of the commit and of earlier recoveries, has completed: the header on disk is empty, the
home blocks hold all the committed contents if the header of the transaction had been written and
all the old contents if it had not, and no other block outside the log has changed. -/
theorem log_crash_atomic {m : LogMachine} (h : (logSystem start).Reachable m)
    (hpc : m.pc = .idle) :
    getWord (m.mem.disk start) 0 = 0 ∧
    (∀ i < m.txn.lh.count, m.mem.disk (m.txn.lh.blockno i) =
      if m.txn.headWritten then m.txn.new i else m.txn.pre (m.txn.lh.blockno i)) ∧
    ∀ b, ¬InLog start b → (∀ i < m.txn.lh.count, m.txn.lh.blockno i ≠ b) →
      m.mem.disk b = m.txn.pre b := by
  obtain ⟨hT, hat⟩ := logInv_of_reachable h
  rw [hpc] at hat
  have hclean : Clean start m.txn m.mem.disk := hat
  have hinst : m.txn.installed ≤ m.txn.lh.count := by
    unfold Txn.installed
    split_ifs <;> omega
  refine ⟨hclean.header, fun i hi => ?_, fun b hb hne => ?_⟩
  · rw [hclean.home _ (hT.notInLog i hi)]
    unfold Txn.installed
    split_ifs with hw
    · exact Txn.content_blockno hT (le_refl _) hi
    · rfl
  · rw [hclean.home b hb]
    exact Txn.content_of_ne fun i hi => hne i (by omega)

/-! ## Runs without a crash -/

section Runs

/-- The code runs from one state to another. -/
def Runs (start : ℕ) : LogMachine → LogMachine → Prop :=
  Relation.ReflTransGen fun m m' => kernelStep start m = some m'

/-- A loop over the first `n` entries of the header. -/
private theorem runs_loop (start : ℕ) (body : ℕ → LogState → LogState) (pc : ℕ → Pc)
    (hstep : ∀ mem tail T, tail < mem.lh.count →
      kernelStep start ⟨mem, pc tail, T⟩ = some ⟨body tail mem, pc (tail + 1), T⟩)
    (hlh : ∀ mem tail, (body tail mem).lh = mem.lh) (mem : LogState) (T : Txn) {n : ℕ}
    (hn : n ≤ mem.lh.count) :
    Runs start ⟨mem, pc 0, T⟩ ⟨(List.range n).foldl (fun s i => body i s) mem, pc n, T⟩ ∧
      ((List.range n).foldl (fun s i => body i s) mem).lh = mem.lh := by
  induction n with
  | zero => exact ⟨.refl, rfl⟩
  | succ n ih =>
    obtain ⟨hruns, hsame⟩ := ih (by omega)
    rw [List.range_succ, List.foldl_append, List.foldl_cons, List.foldl_nil]
    refine ⟨hruns.tail (hstep _ n T ?_), (hlh _ n).trans hsame⟩
    rw [hsame]
    omega

/-- `install_trans` followed by `log.lh.n = 0` and `write_head`, at the program points of a commit
or of a recovery. -/
private theorem runs_install (start : ℕ) (pc : ℕ → Pc) (pcClear : Pc)
    (hbody : ∀ mem tail T, tail < mem.lh.count →
      kernelStep start ⟨mem, pc tail, T⟩ = some ⟨installBody start tail mem, pc (tail + 1), T⟩)
    (hexit : ∀ mem tail T, ¬tail < mem.lh.count →
      kernelStep start ⟨mem, pc tail, T⟩ = some ⟨clearCount mem, pcClear, T⟩)
    (hclear : ∀ mem T,
      kernelStep start ⟨mem, pcClear, T⟩ = some ⟨writeHead start mem, .idle, T⟩)
    (mem : LogState) (T : Txn) :
    Runs start ⟨mem, pc 0, T⟩
      ⟨writeHead start (clearCount (installTrans start mem)), .idle, T⟩ := by
  obtain ⟨hruns, hlh⟩ := runs_loop start (installBody start) pc hbody (fun _ _ => rfl) mem T
    (le_refl _)
  refine (hruns.tail (hexit _ _ T ?_)).tail (hclear _ T)
  rw [hlh]
  exact lt_irrefl _

/-- Without a crash, the steps of a commit compute `commit`. -/
theorem runs_commit (mem : LogState) :
    ∃ T, Runs start (beginCommit mem.disk mem.cache mem.lh) ⟨commit start mem, .idle, T⟩ := by
  unfold beginCommit commit
  dsimp only
  split_ifs
  · generalize Txn.mk _ _ _ _ = T
    obtain ⟨hlog, hlh⟩ := runs_loop start (writeLogBody start) .writeLog
      (fun mem tail T ht => by simp only [kernelStep, if_pos ht]) (fun _ _ => rfl) mem T (le_refl _)
    have hexit : kernelStep start ⟨writeLog start mem, .writeLog mem.lh.count, T⟩ =
        some ⟨writeLog start mem, .writeHead, T⟩ := by
      have hge : ¬mem.lh.count < (writeLog start mem).lh.count := by
        rw [writeLog, hlh]
        exact lt_irrefl _
      simp only [kernelStep, if_neg hge]
    have hinstall := runs_install start .install .clearHead
      (fun mem tail T ht => by simp only [kernelStep, if_pos ht])
      (fun mem tail T ht => by simp only [kernelStep, if_neg ht]) (fun _ _ => rfl)
      (writeHead start (writeLog start mem)) { T with headWritten := true }
    exact ⟨_, ((hlog.tail hexit).tail rfl).trans hinstall⟩
  · exact ⟨_, .refl⟩

lemma runs_recoverFromLog (mem : LogState) (T : Txn) :
    Runs start ⟨mem, .readHead, T⟩ ⟨recoverFromLog start mem, .idle, T⟩ :=
  .head rfl (runs_install start .recInstall .recClear
    (fun mem tail T ht => by simp only [kernelStep, if_pos ht])
    (fun mem tail T ht => by simp only [kernelStep, if_neg ht]) (fun _ _ => rfl)
    (readHead start mem) T)

lemma Runs.reachable {m m' : LogMachine} (h : Runs start m m')
    (hm : (logSystem start).Reachable m) : (logSystem start).Reachable m' := by
  induction h with
  | refl => exact hm
  | tail _ hstep ih => exact ih.step (.kernel hstep)

end Runs

/-- A transaction of the blocks 100 and 101, committed over an all-zero disk with the log at block
2. -/
def twoBlocks : LogMachine :=
  beginCommit (fun _ => 0) (fun b => if b = 100 then some (Block.fill 7) else some (Block.fill 8))
    { n := 2, block := fun i => if i = 0 then 100 else 101 }

/-- The machine crashes when the first block is installed and the second is not; recovery installs
both. -/
theorem log_crash_atomic_between_installs :
    let disk := (installBody 2 0 (writeHead 2 (writeLogBody 2 1
      (writeLogBody 2 0 twoBlocks.mem)))).disk
    let recovered := recoverFromLog 2
      { disk, cache := fun _ => none, lh := { n := 0, block := fun _ => 0 } }
    recovered.disk 100 = Block.fill 7 ∧ recovered.disk 101 = Block.fill 8 := by
  let boot : LogMachine :=
    { mem := { disk := fun _ => 0, cache := fun _ => none, lh := { n := 0, block := fun _ => 0 } }
      pc := .idle
      txn := { lh := { n := 0, block := fun _ => 0 }, pre := fun _ => 0, new := fun _ => 0,
               headWritten := false } }
  have hboot : (logSystem 2).Reachable boot := .init ⟨rfl, by decide, by decide, rfl⟩
  have hvalid : ValidHeader 2 twoBlocks.mem.lh := by
    have hcount : twoBlocks.mem.lh.count = 2 := by decide
    refine ⟨by rw [hcount]; decide, ?_, ?_⟩
    · rw [hcount]
      decide
    · rw [hcount]
      unfold InLog
      decide
  have hbegin : (logSystem 2).Reachable twoBlocks :=
    hboot.step (LogStep.begin rfl (fun _ _ => rfl) hvalid)
  have hruns : Runs 2 twoBlocks
      ⟨installBody 2 0 (writeHead 2 (writeLogBody 2 1 (writeLogBody 2 0 twoBlocks.mem))),
        .install 1, { twoBlocks.txn with headWritten := true }⟩ :=
    .head rfl (.head rfl (.head rfl (.head rfl (.single rfl))))
  have hcrash := (hruns.reachable hbegin).step (LogStep.crash { n := 0, block := fun _ => 0 })
  have hidle := (runs_recoverFromLog _ _).reachable hcrash
  obtain ⟨-, hblocks, -⟩ := log_crash_atomic hidle rfl
  exact ⟨hblocks 0 (by decide), hblocks 1 (by decide)⟩

end Xv6.Log
