import Xv6.Foundations.LockTable
import Xv6.Foundations.Transition
import Xv6.VM.State

/-!
# Sleeping and waking

`sleep` and `wakeup` of `kernel/proc.c`, step by step, with the clients that wait for a condition
and those that make it true, any number of each, on one channel. A client that waits holds the lock
`lk` of the condition while it tests, and calls `sleep(chan, lk)` if the condition is false; a
client that wakes makes the condition true and calls `wakeup(chan)` with `lk` held. `wakeup` goes
through the process table with the lock of one process at a time.

The lock of a process that has called `sched` is held by its CPU until the scheduler releases it,
and again from the time that the scheduler looks at the process; `Pc.switched` says whether it is. A
process that holds no lock may also be preempted (`yield`), and `kkill` may end a sleep.

The state records for each process which wakers have made the condition true since its last test,
and whether one of them has finished its scan of the table (`World.missed`). `no_lost_wakeup` says
that such a process does not sleep. A sleep-lock is the case in which a client that passes the test
makes the condition false, and only a process that has passed wakes: it has at most one holder.
-/

namespace Xv6.Sleep

open Function

open VM (ProcState)

/-! ## Program counters -/

/-- A place at which a process holds no lock. -/
inductive Rest where
  | outside
  /-- At `acquire(lk)`, to test the condition. -/
  | wait
  /-- At `acquire(lk)`, to make the condition true. -/
  | wake
  deriving DecidableEq

/-- Where a process is, in a table of `n` processes. -/
inductive Pc (n : ℕ) where
  | rest (r : Rest)
  /-- At the test, with `lk`. -/
  | testing
  /-- The condition was true. -/
  | passed
  /-- At `release(lk)` after the condition was true. -/
  | passedRelease
  /-- In `sleep`, at `acquire(&p->lock)`. -/
  | sleepAcquire
  /-- In `sleep`, at `release(lk)`. -/
  | sleepRelease
  /-- In `sleep`, at `p->chan = chan`. -/
  | sleepChan
  /-- In `sleep`, at `p->state = SLEEPING`. -/
  | sleepState
  /-- In `sleep`, at `sched()`. -/
  | sleepSched
  /-- In `sched`, called by `sleep`, or by `yield` at the place `r`. The CPU holds the lock of the
  process if `locked`. -/
  | switched (r : Option Rest) (locked : Bool)
  /-- In `sleep`, at `p->chan = 0`. -/
  | resumed
  /-- In `sleep`, at `release(&p->lock)`. -/
  | resumedRelease
  /-- The condition is about to be made true, with `lk`. -/
  | wakeSet
  /-- In `wakeup`, at the start of a round, for the process `i`. -/
  | scan (i : ℕ)
  /-- In `wakeup`, at the test, with the lock of the process `i`. -/
  | scanTest (i : Fin n)
  /-- In `wakeup`, at `p->state = RUNNABLE`. -/
  | scanSet (i : Fin n)
  /-- In `wakeup`, at `release(&p->lock)`. -/
  | scanRelease (i : Fin n)
  /-- At `release(lk)` after `wakeup`. -/
  | wakeRelease
  /-- In `yield`, at `p->state = RUNNABLE`. -/
  | yieldState (r : Rest)
  /-- In `yield`, at `sched()`. -/
  | yieldSched (r : Rest)
  /-- In `yield`, at `release(&p->lock)`. -/
  | yieldRelease (r : Rest)
  deriving DecidableEq

/-- The locks: that of the condition, and those of the processes. -/
inductive Lock (n : ℕ) where
  | cond
  | proc (p : Fin n)
  deriving DecidableEq

/-- The process `p` holds the lock. -/
@[simp]
def Pc.Holds {n : ℕ} (p : Fin n) : Pc n → Lock n → Prop
  | .testing, l | .passed, l | .passedRelease, l | .sleepAcquire, l | .wakeSet, l | .scan _, l
  | .wakeRelease, l => l = .cond
  | .sleepRelease, l => l = .cond ∨ l = .proc p
  | .sleepChan, l | .sleepState, l | .sleepSched, l | .switched _ true, l | .resumed, l
  | .resumedRelease, l | .yieldState _, l | .yieldSched _, l | .yieldRelease _, l => l = .proc p
  | .scanTest i, l | .scanSet i, l | .scanRelease i, l => l = .cond ∨ l = .proc i
  | .rest _, _ | .switched _ false, _ => False

/-! ## The machine -/

/-- The processes, their locks and the condition. -/
structure World (n : ℕ) (C : Type) where
  owner : Lock n → Option (Fin n)
  pc : Fin n → Pc n
  state : Fin n → ProcState
  /-- `p->chan`; `none` is 0. -/
  chan : Fin n → Option C
  cond : Bool
  /-- `since q w`: the process `w` has made the condition true after the last test of `q`. -/
  since : Fin n → Fin n → Bool
  /-- A process that made the condition true after the last test of this one has finished its
  scan. -/
  missed : Fin n → Bool
  /-- The process has passed the test, and has not made the condition true since. -/
  holds : Fin n → Bool

/-- What a process does, or what is done to it. -/
inductive Act where
  /-- Start to wait for the condition. -/
  | wait
  /-- Start to make the condition true. -/
  | wake
  /-- The next step of the program; `c` is what a client that has passed makes of the condition. -/
  | step (c : Bool)
  /-- The timer interrupts the process, and `yield` acquires its lock. -/
  | yield
  /-- The scheduler acquires the lock of the process. -/
  | schedAcquire
  /-- The scheduler finds the process runnable and switches to it. -/
  | schedRun
  /-- The scheduler releases the lock of the process. -/
  | schedRelease
  /-- `kkill`. -/
  | kill

namespace World

variable {n : ℕ} {C : Type}

/-- The process gets to another place. -/
def goto (s : World n C) (p : Fin n) (pc : Pc n) : World n C :=
  { s with pc := update s.pc p pc }

/-- The process acquires the lock, if it is free, and gets to another place. -/
def acquire (s : World n C) (p : Fin n) (l : Lock n) (pc : Pc n) : Option (World n C) :=
  if s.owner l = none then
    some ({ s with owner := update s.owner l (some p) }.goto p pc)
  else none

/-- The process releases the lock and gets to another place. -/
def release (s : World n C) (p : Fin n) (l : Lock n) (pc : Pc n) : World n C :=
  { s with owner := update s.owner l none }.goto p pc

/-- The state of a process changes. -/
def setState (s : World n C) (p : Fin n) (st : ProcState) : World n C :=
  { s with state := update s.state p st }

@[simp]
lemma setState_self (s : World n C) (p : Fin n) (st : ProcState) : (s.setState p st).state p = st :=
  update_self _ _ _

/-- The channel of a process changes. -/
def setChan (s : World n C) (p : Fin n) (c : Option C) : World n C :=
  { s with chan := update s.chan p c }

variable [DecidableEq C]

/-- The next step of the program of `p`, on the channel `ch`. -/
def next (ch : C) (s : World n C) (p : Fin n) (c : Bool) : Option (World n C) :=
  match s.pc p with
  | .rest .outside => none
  | .rest .wait => s.acquire p .cond .testing
  | .testing => some ({ s with
      since := update s.since p fun _ => false
      missed := update s.missed p false }.goto p (if s.cond then .passed else .sleepAcquire))
  | .passed => some ({ s with cond := c, holds := update s.holds p true }.goto p
      .passedRelease)
  | .passedRelease => some (s.release p .cond (.rest .outside))
  | .sleepAcquire => s.acquire p (.proc p) .sleepRelease
  | .sleepRelease => some (s.release p .cond .sleepChan)
  | .sleepChan => some ((s.setChan p (some ch)).goto p .sleepState)
  | .sleepState => some ((s.setState p .sleeping).goto p .sleepSched)
  | .sleepSched => some (s.goto p (.switched none true))
  | .switched _ _ => none
  | .resumed => some ((s.setChan p none).goto p .resumedRelease)
  | .resumedRelease => some (s.release p (.proc p) (.rest .wait))
  | .rest .wake => s.acquire p .cond .wakeSet
  | .wakeSet => some ({ s with
      cond := true, since := fun q => update (s.since q) p true
      holds := update s.holds p false }.goto p (.scan 0))
  | .scan i =>
    if h : i < n then
      if i = p then some (s.goto p (.scan (i + 1)))
      else s.acquire p (.proc ⟨i, h⟩) (.scanTest ⟨i, h⟩)
    else some ({ s with missed := fun q => s.missed q || s.since q p }.goto p .wakeRelease)
  | .scanTest i =>
    some (s.goto p
      (if s.state i = .sleeping ∧ s.chan i = some ch then .scanSet i else .scanRelease i))
  | .scanSet i => some ((s.setState i .runnable).goto p (.scanRelease i))
  | .scanRelease i => some (s.release p (.proc i) (.scan (i + 1)))
  | .wakeRelease => some (s.release p .cond (.rest .outside))
  | .yieldState r => some ((s.setState p .runnable).goto p (.yieldSched r))
  | .yieldSched r => some (s.goto p (.switched (some r) true))
  | .yieldRelease r => some (s.release p (.proc p) (.rest r))

/-- Where a process goes on when the scheduler has switched to it. -/
def resumeAt : Option Rest → Pc n
  | none => .resumed
  | some r => .yieldRelease r

/-- One step. -/
def exec (ch : C) (s : World n C) (p : Fin n) : Act → Option (World n C)
  | .wait => if s.pc p = .rest .outside then some (s.goto p (.rest .wait)) else none
  | .wake => if s.pc p = .rest .outside then some (s.goto p (.rest .wake)) else none
  | .step c => s.next ch p c
  | .yield =>
    match s.pc p with
    | .rest r => s.acquire p (.proc p) (.yieldState r)
    | _ => none
  | .schedAcquire =>
    match s.pc p with
    | .switched r false => s.acquire p (.proc p) (.switched r true)
    | _ => none
  | .schedRun =>
    match s.pc p with
    | .switched r true =>
      if s.state p = .runnable then some ((s.setState p .running).goto p (resumeAt r)) else none
    | _ => none
  | .schedRelease =>
    match s.pc p with
    | .switched r true => some (s.release p (.proc p) (.switched r false))
    | _ => none
  | .kill =>
    if s.owner (.proc p) = none then
      some (if s.state p = .sleeping then s.setState p .runnable else s)
    else none

end World

open World

/-- The runs of `n` processes that wait and wake on the channel `ch`. -/
def sleepSystem (n : ℕ) {C : Type} [DecidableEq C] (ch : C) :
    TransitionSystem (World n C) (Fin n × Act) where
  init s := (∀ l, s.owner l = none) ∧ (∀ p, s.pc p = .rest .outside) ∧
    (∀ p, s.state p ≠ .sleeping) ∧ (∀ p, s.missed p = false) ∧ ∀ p, s.holds p = false
  step s l s' := s.exec ch l.1 l.2 = some s'

/-! ## The invariant -/

namespace Pc

variable {n : ℕ}

/-- The process has found the condition false and is on its way to sleep. -/
@[simp]
def Falling : Pc n → Prop
  | .sleepAcquire | .sleepRelease | .sleepChan | .sleepState | .sleepSched => True
  | _ => False

/-- The process may be in the state `SLEEPING`. -/
@[simp]
def MaySleep : Pc n → Prop
  | .sleepSched | .switched none _ => True
  | _ => False

/-- The process has set its channel. -/
@[simp]
def OnChan : Pc n → Prop
  | .sleepState | .sleepSched | .switched none _ => True
  | _ => False

/-- The scan of the process table is done with the process `q`. -/
@[simp]
def Past : Pc n → Fin n → Prop
  | .scan i, q => q < i
  | .scanTest i, q | .scanSet i, q => q < i
  | .scanRelease i, q => q ≤ i
  | .wakeRelease, _ => True
  | _, _ => False

end Pc

/-- The state and the channel of a process fit to its place. -/
structure Placed {n : ℕ} {C : Type} (ch : C) (pc : Pc n) (st : ProcState) (chan : Option C) :
    Prop where
  sleeping : st = .sleeping → pc.MaySleep
  chan : pc.OnChan → chan = some ch

/-- The process does not sleep, and will test the condition before it sleeps again. -/
def Awake {n : ℕ} (pc : Pc n) (st : ProcState) : Prop := ¬pc.Falling ∧ st ≠ .sleeping

/-- The process may go on at `pc'` with its state and its channel: it begins neither to sleep nor to
fall asleep, and its scan gets past processes that are awake. -/
structure Onward {n : ℕ} {C : Type} (s : World n C) (p : Fin n) (pc' : Pc n) : Prop where
  sleep : (s.pc p).MaySleep → pc'.MaySleep
  chan : pc'.OnChan → (s.pc p).OnChan
  fall : pc'.Falling → (s.pc p).Falling
  past : ∀ q, pc'.Past q → (s.pc p).Past q ∨ Awake (s.pc q) (s.state q)

/-- The invariant. -/
structure SleepInv {n : ℕ} {C : Type} (ch : C) (s : World n C) : Prop where
  locks : LockTable.Consistent (fun p => Pc.Holds p) s.pc s.owner
  place : ∀ p, Placed ch (s.pc p) (s.state p) (s.chan p)
  missed : ∀ q, s.missed q = true → Awake (s.pc q) (s.state q)
  /-- A process that a waker has scanned since it made the condition true is awake. -/
  scanned : ∀ q w, s.since q w = true → (s.pc w).Past q → Awake (s.pc q) (s.state q)

section Invariant

variable {n : ℕ} {C : Type} {ch : C} {s s' : World n C} {p q : Fin n} {pc' : Pc n} {a : Act}

namespace SleepInv

section

variable (h : SleepInv ch s)

include h

/-- A step of `p` that changes its place, its locks, and its own state and channel. It does not
begin to sleep, unless it was not awake, and its scan gets past processes that are awake. -/
theorem move {o : Lock n → Option (Fin n)} {st : Fin n → ProcState} {c : Fin n → Option C}
    (hlocks : LockTable.Consistent (fun p => Pc.Holds p) (update s.pc p pc') o)
    (hst : ∀ q, q ≠ p → st q = s.state q) (hchan : ∀ q, q ≠ p → c q = s.chan q)
    (hplace : Placed ch pc' (st p) (c p)) (hawake : Awake (s.pc p) (s.state p) → Awake pc' (st p))
    (hpast : ∀ q, pc'.Past q → (s.pc p).Past q ∨ Awake (s.pc q) (s.state q)) :
    SleepInv ch { s with owner := o, pc := update s.pc p pc', state := st, chan := c } := by
  have hkeep : ∀ q, Awake (s.pc q) (s.state q) → Awake (update s.pc p pc' q) (st q) :=
    (forall_update_iff s.pc fun q x => Awake (s.pc q) (s.state q) → Awake x (st q)).mpr
      ⟨hawake, fun q hq hawake => by rwa [hst q hq]⟩
  refine ⟨hlocks, ?_, fun q hq => hkeep q (h.missed q hq), fun q w hqw hp => hkeep q ?_⟩
  · refine (forall_update_iff s.pc fun q x => Placed ch x (st q) (c q)).mpr
      ⟨hplace, fun q hq => ?_⟩
    rw [hst q hq, hchan q hq]
    exact h.place q
  · refine (forall_update_iff s.pc fun w x => s.since q w = true → x.Past q →
      Awake (s.pc q) (s.state q)).mpr ⟨fun hqw hp => ?_, fun w _ => h.scanned q w⟩ w hqw hp
    exact (hpast q hp).elim (h.scanned q p hqw) id

lemma moveOnly {o : Lock n → Option (Fin n)}
    (hlocks : LockTable.Consistent (fun p => Pc.Holds p) (update s.pc p pc') o)
    (hon : Onward s p pc') : SleepInv ch { s with owner := o, pc := update s.pc p pc' } :=
  h.move hlocks (fun _ _ => rfl) (fun _ _ => rfl)
    ⟨fun hs => hon.sleep ((h.place p).sleeping hs), fun hc => (h.place p).chan (hon.chan hc)⟩
    (fun hawake => ⟨fun hf => hawake.1 (hon.fall hf), hawake.2⟩) hon.past

lemma acquire {l : Lock n} (hstep : s.acquire p l pc' = some s')
    (hmore : ∀ l', Pc.Holds p pc' l' ↔ l' = l ∨ Pc.Holds p (s.pc p) l') (hon : Onward s p pc') :
    SleepInv ch s' := by
  unfold World.acquire at hstep
  split_ifs at hstep with hl
  cases hstep
  exact h.moveOnly (h.locks.acquire hl hmore) hon

lemma release {l : Lock n} (hl : Pc.Holds p (s.pc p) l)
    (hless : ∀ l', Pc.Holds p pc' l' ↔ l' ≠ l ∧ Pc.Holds p (s.pc p) l') (hon : Onward s p pc') :
    SleepInv ch (s.release p l pc') :=
  h.moveOnly (h.locks.release hl hless) hon

lemma goto (hsame : ∀ l, Pc.Holds p pc' l ↔ Pc.Holds p (s.pc p) l) (hon : Onward s p pc') :
    SleepInv ch (s.goto p pc') :=
  h.moveOnly (h.locks.keep hsame) hon

lemma awake_self (hfall : ¬(s.pc p).Falling) (hsleep : ¬(s.pc p).MaySleep) :
    Awake (s.pc p) (s.state p) :=
  ⟨hfall, fun hs => hsleep ((h.place p).sleeping hs)⟩

/-- While another process holds `lk` and the lock of `q`, `q` is not on its way to sleep. -/
theorem not_falling (hne : q ≠ p) (hcond : Pc.Holds p (s.pc p) .cond)
    (hproc : Pc.Holds p (s.pc p) (.proc q)) : ¬(s.pc q).Falling := by
  have hlk : ¬Pc.Holds q (s.pc q) .cond := fun hq => hne (h.locks.unique hq hcond)
  have hown : ¬Pc.Holds q (s.pc q) (.proc q) := fun hq => hne (h.locks.unique hq hproc)
  intro hfall
  cases hpc : s.pc q with
  | sleepAcquire | sleepRelease => exact hlk (by simp [hpc])
  | sleepChan | sleepState | sleepSched => exact hown (by simp [hpc])
  | _ => simp [hpc] at hfall

/-- The test of the condition: what wakers did before it does not count any more. -/
theorem test (hpc : s.pc p = .testing) (hsame : ∀ l, Pc.Holds p pc' l ↔ l = .cond)
    (hsleep : ¬pc'.OnChan) (hpast : ∀ q, ¬pc'.Past q) :
    SleepInv ch ({ s with
      since := update s.since p fun _ => false
      missed := update s.missed p false }.goto p pc') := by
  have hother : ∀ q, q ≠ p → Awake (s.pc q) (s.state q) →
      Awake (update s.pc p pc' q) (s.state q) := by
    intro q hqp hq
    rwa [update_of_ne hqp]
  refine ⟨h.locks.keep fun l => ?_, ?_, ?_, ?_⟩
  · rw [hsame, hpc]
    rfl
  · refine (forall_update_iff s.pc fun q x => Placed ch x (s.state q) (s.chan q)).mpr
      ⟨⟨fun hs => ?_, fun hc => absurd hc hsleep⟩, fun q _ => h.place q⟩
    have hmay := (h.place p).sleeping hs
    rw [hpc] at hmay
    exact hmay.elim
  · exact (forall_update_iff s.missed fun q x => x = true →
      Awake (update s.pc p pc' q) (s.state q)).mpr
        ⟨nofun, fun q hqp hq => hother q hqp (h.missed q hq)⟩
  · refine (forall_update_iff s.since fun q f => ∀ w, f w = true →
      (update s.pc p pc' w).Past q →
        Awake (update s.pc p pc' q) (s.state q)).mpr ⟨nofun, fun q hqp w hqw hp => ?_⟩
    have hne : w ≠ p := by
      rintro rfl
      rw [update_self] at hp
      exact hpast q hp
    rw [update_of_ne hne] at hp
    exact hother q hqp (h.scanned q w hqw hp)

/-- A waker finishes its scan, and all processes that tested before are awake. -/
theorem finishScan {i : ℕ} (hpc : s.pc p = .scan i) (hi : ¬i < n) :
    SleepInv ch ({ s with missed := fun q => s.missed q || s.since q p }.goto p .wakeRelease) := by
  have hpast : ∀ q : Fin n, (s.pc p).Past q := by
    intro q
    rw [hpc]
    exact q.isLt.trans_le (not_lt.mp hi)
  have hmove : SleepInv ch (s.goto p .wakeRelease) :=
    h.goto (by simp [hpc]) ⟨by simp [hpc], by simp, by simp, fun q _ => .inl (hpast q)⟩
  refine ⟨hmove.locks, hmove.place, fun q hq => ?_, hmove.scanned⟩
  rcases Bool.or_eq_true _ _ ▸ hq with hq | hq
  · exact hmove.missed q hq
  · exact hmove.scanned q p hq (by simp [World.goto])

lemma wakeOther (q : Fin n) : SleepInv ch (s.setState q .runnable) := by
  have hawake : ∀ q', Awake (s.pc q') (s.state q') →
      Awake (s.pc q') (update s.state q .runnable q') :=
    (forall_update_iff s.state fun q' x => Awake (s.pc q') (s.state q') →
      Awake (s.pc q') x).mpr ⟨fun hq => ⟨hq.1, by simp⟩, fun _ _ => id⟩
  refine ⟨h.locks, fun q' => ⟨?_, (h.place q').chan⟩, fun q' hq' => hawake q' (h.missed q' hq'),
    fun q' w hqw hp => hawake q' (h.scanned q' w hqw hp)⟩
  exact (forall_update_iff s.state fun q' x => x = .sleeping → (s.pc q').MaySleep).mpr
    ⟨by simp, fun q' _ => (h.place q').sleeping⟩ q'

/-- The last step of a round of `wakeup` before the release: the process `i` is awake. -/
theorem scanned_one {i : Fin n} (hpc : s.pc p = .scanTest i ∨ s.pc p = .scanSet i)
    (hstate : s.state i ≠ .sleeping) : SleepInv ch (s.goto p (.scanRelease i)) := by
  have hcond : Pc.Holds p (s.pc p) .cond := by rcases hpc with hpc | hpc <;> simp [hpc]
  have hproc : Pc.Holds p (s.pc p) (.proc i) := by rcases hpc with hpc | hpc <;> simp [hpc]
  refine h.goto (fun l => ?_) ⟨?_, by simp, by simp, fun q hq => ?_⟩
  · rcases hpc with hpc | hpc <;> simp [hpc]
  · rcases hpc with hpc | hpc <;> simp [hpc]
  · have hle : q ≤ i := hq
    by_cases hqi : q = i
    · subst hqi
      refine .inr ⟨?_, hstate⟩
      by_cases hqp : q = p
      · subst hqp
        rcases hpc with hpc | hpc <;> simp [hpc]
      · exact h.not_falling hqp hcond hproc
    · have hlt : q < i := lt_of_le_of_ne hle hqi
      refine .inl ?_
      rcases hpc with hpc | hpc <;> simpa [hpc] using hlt

end

variable [DecidableEq C]

lemma next {c : Bool} (h : SleepInv ch s) (hstep : s.next ch p c = some s') : SleepInv ch s' := by
  unfold World.next at hstep
  cases hpc : s.pc p with rw [hpc] at hstep
  | rest r =>
    cases r with
    | outside => cases hstep
    | wait | wake =>
      exact h.acquire hstep (by simp [hpc]) ⟨by simp [hpc], by simp, by simp, by simp⟩
  | testing =>
    cases hstep
    split_ifs
    · exact h.test hpc (by simp) (by simp) (by simp)
    · exact h.test hpc (by simp) (by simp) (by simp)
  | passed =>
    cases hstep
    have hmove : SleepInv ch (s.goto p .passedRelease) :=
      h.goto (by simp [hpc]) ⟨by simp [hpc], by simp, by simp, by simp⟩
    exact ⟨hmove.locks, hmove.place, hmove.missed, hmove.scanned⟩
  | passedRelease | resumedRelease | wakeRelease | yieldRelease r =>
    cases hstep
    exact h.release (by simp [hpc]) (by simp [hpc]) ⟨by simp [hpc], by simp, by simp, by simp⟩
  | sleepAcquire =>
    exact h.acquire hstep (by simp [hpc, or_comm]) ⟨by simp [hpc], by simp, by simp [hpc], by simp⟩
  | sleepRelease =>
    cases hstep
    refine h.release (by simp [hpc]) (fun l => ?_) ⟨by simp [hpc], by simp, by simp [hpc], by simp⟩
    cases l <;> simp [hpc]
  | sleepChan =>
    cases hstep
    refine h.move (h.locks.keep (by simp [hpc])) (fun _ _ => rfl)
      (fun q hq => update_of_ne hq _ _) ⟨fun hs => ?_, fun _ => update_self _ _ _⟩
      (fun hawake => by simp [Awake, hpc] at hawake) (by simp)
    have hmay := (h.place p).sleeping hs
    simp [hpc] at hmay
  | sleepState =>
    cases hstep
    exact h.move (h.locks.keep (by simp [hpc])) (fun q hq => update_of_ne hq _ _)
      (fun _ _ => rfl) ⟨fun _ => trivial, fun _ => (h.place p).chan (by simp [hpc])⟩
      (fun hawake => by simp [Awake, hpc] at hawake) (by simp)
  | sleepSched =>
    cases hstep
    exact h.goto (by simp [hpc]) ⟨by simp, by simp [hpc], by simp, by simp⟩
  | switched r locked => cases hstep
  | resumed =>
    cases hstep
    refine h.move (h.locks.keep (by simp [hpc])) (fun _ _ => rfl)
      (fun q hq => update_of_ne hq _ _) ⟨fun hs => ?_, by simp⟩
      (fun hawake => ⟨by simp, hawake.2⟩) (by simp)
    have hmay := (h.place p).sleeping hs
    simp [hpc] at hmay
  | wakeSet =>
    cases hstep
    have hmove : SleepInv ch (s.goto p (.scan 0)) :=
      h.goto (by simp [hpc]) ⟨by simp [hpc], by simp, by simp, by simp⟩
    refine ⟨hmove.locks, hmove.place, hmove.missed, fun q w hqw hp => hmove.scanned q w ?_ hp⟩
    -- the scan has not yet begun
    change update (s.since q) p true w = true at hqw
    by_cases hwp : w = p
    · subst hwp
      change (update s.pc w (.scan 0) w).Past q at hp
      rw [update_self] at hp
      exact absurd hp (Nat.not_lt_zero _)
    · rwa [update_of_ne hwp] at hqw
  | scan i =>
    dsimp only at hstep
    split_ifs at hstep with hi hip
    · -- `wakeup` skips the process that calls it
      cases hstep
      refine h.goto (by simp [hpc]) ⟨by simp [hpc], by simp, by simp, fun q hq => ?_⟩
      have hlt : (q : ℕ) < i + 1 := hq
      by_cases hqp : q = p
      · subst hqp
        exact .inr (h.awake_self (by simp [hpc]) (by simp [hpc]))
      · have hne : (q : ℕ) ≠ i := fun heq => hqp (Fin.ext (heq.trans hip))
        refine .inl ?_
        rw [hpc]
        exact lt_of_le_of_ne (Nat.lt_succ_iff.mp hlt) hne
    · refine h.acquire hstep (by simp [hpc, or_comm])
        ⟨by simp [hpc], by simp, by simp, fun q hq => ?_⟩
      refine .inl ?_
      rw [hpc]
      exact hq
    · cases hstep
      exact h.finishScan hpc hi
  | scanTest i =>
    cases hstep
    split_ifs with htest
    · exact h.goto (by simp [hpc]) ⟨by simp [hpc], by simp, by simp, fun q hq =>
        .inl (by simpa [hpc] using hq)⟩
    · -- a process that sleeps has set its channel
      refine h.scanned_one (.inl hpc) fun hs => htest ⟨hs, (h.place i).chan ?_⟩
      have hmay := (h.place i).sleeping hs
      revert hmay
      cases s.pc i with
      | switched r locked => cases r <;> simp
      | _ => simp
  | scanSet i =>
    cases hstep
    have hset := h.wakeOther i
    exact hset.scanned_one (.inr hpc) (by simp)
  | scanRelease i =>
    cases hstep
    refine h.release (by simp [hpc]) (fun l => ?_) ⟨by simp [hpc], by simp, by simp, fun q hq => ?_⟩
    · cases l <;> simp [hpc]
    · refine .inl ?_
      rw [hpc]
      exact Nat.lt_succ_iff.mp hq
  | yieldState r =>
    cases hstep
    refine h.move (h.locks.keep (by simp [hpc])) (fun q hq => update_of_ne hq _ _)
      (fun _ _ => rfl) ⟨fun hs => ?_, by simp⟩ (fun _ => ⟨by simp, ?_⟩) (by simp)
    · simp at hs
    · simp
  | yieldSched r =>
    cases hstep
    exact h.goto (by simp [hpc]) ⟨by simp [hpc], by simp, by simp, by simp⟩

end SleepInv

variable [DecidableEq C]

lemma sleepInv_init (hinit : (sleepSystem n ch).init s) : SleepInv ch s := by
  obtain ⟨howner, hpc, hstate, hmissed, -⟩ := hinit
  refine ⟨fun l p => ?_, fun p => ⟨fun hs => absurd hs (hstate p), fun hc => ?_⟩, fun q hq => ?_,
    fun q w _ hpast => ?_⟩
  · rw [hpc, howner]
    exact iff_of_false id (by simp)
  · rw [hpc] at hc
    exact hc.elim
  · rw [hmissed] at hq
    cases hq
  · rw [hpc] at hpast
    exact hpast.elim

lemma SleepInv.step (h : SleepInv ch s) (hstep : s.exec ch p a = some s') : SleepInv ch s' := by
  cases a with
  | wait | wake =>
    dsimp only [exec] at hstep
    split_ifs at hstep with hpc
    cases hstep
    exact h.goto (by simp [hpc]) ⟨by simp [hpc], by simp, by simp, by simp⟩
  | step c => exact h.next hstep
  | yield =>
    dsimp only [exec] at hstep
    split at hstep
    · rename_i r hpc
      exact h.acquire hstep (by simp [hpc]) ⟨by simp [hpc], by simp, by simp, by simp⟩
    · cases hstep
  | schedAcquire =>
    dsimp only [exec] at hstep
    split at hstep
    · rename_i r hpc
      exact h.acquire hstep (by simp [hpc])
        ⟨by cases r <;> simp [hpc], by cases r <;> simp [hpc], by simp, by simp⟩
    · cases hstep
  | schedRun =>
    dsimp only [exec] at hstep
    split at hstep
    · rename_i r hpc
      split_ifs at hstep
      cases hstep
      refine h.move (h.locks.keep fun l => ?_) (fun q hq => update_of_ne hq _ _)
        (fun _ _ => rfl) ⟨fun hs => ?_, ?_⟩ (fun _ => ⟨?_, ?_⟩) ?_
      · cases r <;> simp [resumeAt, hpc]
      · simp at hs
      · cases r <;> simp [resumeAt]
      · cases r <;> simp [resumeAt]
      · simp
      · cases r <;> simp [resumeAt]
    · cases hstep
  | schedRelease =>
    dsimp only [exec] at hstep
    split at hstep
    · rename_i r hpc
      cases hstep
      exact h.release (by simp [hpc]) (by simp [hpc])
        ⟨by cases r <;> simp [hpc], by cases r <;> simp [hpc], by simp, by simp⟩
    · cases hstep
  | kill =>
    dsimp only [exec] at hstep
    split_ifs at hstep
    · cases hstep
      exact h.wakeOther p
    · cases hstep
      exact h

lemma SleepInv.of_reachable (hs : (sleepSystem n ch).Reachable s) : SleepInv ch s :=
  hs.invariant (I := SleepInv ch) (fun _ hinit => sleepInv_init hinit)
    fun _ _ _ _ h hstep => h.step hstep

end Invariant

/-! ## Sleep-locks -/

/-- The steps of `acquiresleep` and `releasesleep`: `lk->locked` is the negation of the condition, a
process that passes the test sets it, and only a process that has passed clears it. -/
def SleepLock {n : ℕ} {C : Type} (s : World n C) (l : Fin n × Act) : Prop :=
  match l.2 with
  | .wake => s.holds l.1 = true
  | .step c => s.pc l.1 = .passed → c = false
  | _ => True

/-- The process is on its way to clear `lk->locked`. -/
@[simp]
def Pc.Releasing {n : ℕ} : Pc n → Prop
  | .rest .wake | .wakeSet | .yieldState .wake | .yieldSched .wake | .switched (some .wake) _
  | .yieldRelease .wake => True
  | _ => False

/-- The invariant of a sleep-lock. -/
structure HolderInv {n : ℕ} {C : Type} (s : World n C) : Prop where
  locked : ∀ {p}, s.holds p = true → s.cond = false
  unique : ∀ {p q}, s.holds p = true → s.holds q = true → p = q
  passed : ∀ {p}, s.pc p = .passed → s.cond = true
  releasing : ∀ {p}, (s.pc p).Releasing → s.holds p = true

section Holder

variable {n : ℕ} {C : Type} {ch : C} {s s' : World n C} {p : Fin n} {pc' : Pc n} {a : Act}

/-- The step of `p` changes neither the condition nor who has passed. -/
structure Quiet (s : World n C) (p : Fin n) (s' : World n C) : Prop where
  cond : s'.cond = s.cond
  holds : s'.holds = s.holds
  pc_other : ∀ {q}, q ≠ p → s'.pc q = s.pc q
  passed : s'.pc p ≠ .passed
  releasing : (s'.pc p).Releasing → (s.pc p).Releasing ∨ s.holds p = true

lemma HolderInv.quiet (h : HolderInv s) (hq : Quiet s p s') : HolderInv s' := by
  refine ⟨fun {q} hh => ?_, fun {q q'} hh hh' => ?_, fun {q} hpc => ?_, fun {q} hr => ?_⟩
  · rw [hq.holds] at hh
    rw [hq.cond]
    exact h.locked hh
  · rw [hq.holds] at hh hh'
    exact h.unique hh hh'
  · rw [hq.cond]
    by_cases hqp : q = p
    · subst hqp
      exact absurd hpc hq.passed
    · rw [hq.pc_other hqp] at hpc
      exact h.passed hpc
  · rw [hq.holds]
    by_cases hqp : q = p
    · subst hqp
      exact (hq.releasing hr).elim h.releasing id
    · rw [hq.pc_other hqp] at hr
      exact h.releasing hr

lemma quiet_goto {s₁ : World n C} (hcond : s₁.cond = s.cond) (hholds : s₁.holds = s.holds)
    (hpcs : s₁.pc = s.pc) (hpc : pc' ≠ .passed)
    (hr : pc'.Releasing → (s.pc p).Releasing ∨ s.holds p = true) : Quiet s p (s₁.goto p pc') := by
  have hself : (s₁.goto p pc').pc p = pc' := update_self _ _ _
  refine ⟨hcond, hholds, fun hq => ?_, by rwa [hself], fun hr' => hr (by rwa [hself] at hr')⟩
  rw [← hpcs]
  exact update_of_ne hq _ _

lemma quiet_acquire {l : Lock n} (hstep : s.acquire p l pc' = some s') (hpc : pc' ≠ .passed)
    (hr : pc'.Releasing → (s.pc p).Releasing ∨ s.holds p = true) : Quiet s p s' := by
  unfold World.acquire at hstep
  split_ifs at hstep
  cases hstep
  exact quiet_goto rfl rfl rfl hpc hr

variable [DecidableEq C]

/-- All steps of a program but the test and the changes of the condition are quiet. -/
theorem quiet_next {c : Bool} (hstep : s.next ch p c = some s') (htest : s.pc p ≠ .testing)
    (hpassed : s.pc p ≠ .passed) (hset : s.pc p ≠ .wakeSet) : Quiet s p s' := by
  unfold World.next at hstep
  cases hpc : s.pc p with rw [hpc] at hstep
  | rest r =>
    cases r with
    | outside => cases hstep
    | wait => exact quiet_acquire hstep (by simp) (by simp)
    | wake => exact quiet_acquire hstep (by simp) (by simp [hpc])
  | switched r locked => cases hstep
  | sleepAcquire => exact quiet_acquire hstep (by simp) (by simp)
  | testing => exact absurd hpc htest
  | passed => exact absurd hpc hpassed
  | wakeSet => exact absurd hpc hset
  | scan i =>
    dsimp only at hstep
    split_ifs at hstep
    · cases hstep
      exact quiet_goto rfl rfl rfl (by simp) (by simp)
    · exact quiet_acquire hstep (by simp) (by simp)
    · cases hstep
      exact quiet_goto rfl rfl rfl (by simp) (by simp)
  | scanTest i =>
    cases hstep
    split_ifs
    · exact quiet_goto rfl rfl rfl (by simp) (by simp)
    · exact quiet_goto rfl rfl rfl (by simp) (by simp)
  | passedRelease | sleepRelease | sleepChan | sleepState | sleepSched | resumed | resumedRelease
  | wakeRelease | scanSet i | scanRelease i =>
    cases hstep
    exact quiet_goto rfl rfl rfl (by simp) (by simp)
  | yieldState r | yieldSched r | yieldRelease r =>
    -- a process that is preempted is still on its way
    cases hstep
    refine quiet_goto rfl rfl rfl (by simp) fun hr => .inl ?_
    cases r <;> simp_all

namespace HolderInv

/-- The test of `lk->locked`. -/
theorem test {c : Bool} (h : HolderInv s) (hpc : s.pc p = .testing)
    (hstep : s.next ch p c = some s') : HolderInv s' := by
  unfold World.next at hstep
  rw [hpc] at hstep
  cases hstep
  refine ⟨h.locked, h.unique, fun {q} => ?_, fun {q} => ?_⟩
  · refine (forall_update_iff s.pc fun _ x => x = .passed → s.cond = true).mpr
      ⟨fun hq => ?_, fun q _ => h.passed⟩ q
    by_contra hc
    rw [if_neg hc] at hq
    cases hq
  · refine (forall_update_iff s.pc fun q x => x.Releasing → s.holds q = true).mpr
      ⟨fun hr => ?_, fun q _ => h.releasing⟩ q
    split_ifs at hr <;> simp at hr

/-- `lk->locked = 1`: nobody held the lock. -/
theorem pass (h : HolderInv s) (hs : SleepInv ch s) (hpc : s.pc p = .passed)
    (hstep : s.next ch p false = some s') : HolderInv s' := by
  have hfree : ∀ q, s.holds q ≠ true := by
    intro q hq
    have hlocked := h.locked hq
    rw [h.passed hpc] at hlocked
    cases hlocked
  unfold World.next at hstep
  rw [hpc] at hstep
  cases hstep
  have honly : ∀ q, update s.holds p true q = true → q = p :=
    (forall_update_iff s.holds fun q x => x = true → q = p).mpr
      ⟨fun _ => rfl, fun q _ hq => absurd hq (hfree q)⟩
  refine ⟨fun _ => rfl, fun hq hq' => (honly _ hq).trans (honly _ hq').symm, fun {q} => ?_,
    fun {q} => ?_⟩
  · -- no other process is there, as it would hold `lk`
    refine (forall_update_iff s.pc (b := .passedRelease) fun _ x => x = .passed → _).mpr
      ⟨nofun, fun q hqp hq => absurd ?_ hqp⟩ q
    exact hs.locks.unique (l := .cond) (by simp [hq]) (by simp [hpc])
  · exact (forall_update_iff s.pc fun q x => x.Releasing →
      update s.holds p true q = true).mpr
        ⟨False.elim, fun q _ hr => absurd (h.releasing hr) (hfree q)⟩ q

/-- `lk->locked = 0`: the process held the lock, and now nobody does. -/
theorem clear {c : Bool} (h : HolderInv s) (hpc : s.pc p = .wakeSet)
    (hstep : s.next ch p c = some s') : HolderInv s' := by
  have hp : s.holds p = true := h.releasing (by simp [hpc])
  unfold World.next at hstep
  rw [hpc] at hstep
  cases hstep
  have hnone : ∀ q, update s.holds p false q ≠ true :=
    (forall_update_iff s.holds fun _ x => x ≠ true).mpr
      ⟨nofun, fun q hqp hq => hqp (h.unique hq hp)⟩
  refine ⟨fun hq => absurd hq (hnone _), fun hq => absurd hq (hnone _), fun _ => rfl, fun {q} => ?_⟩
  exact (forall_update_iff s.pc fun q x => x.Releasing →
    update s.holds p false q = true).mpr
      ⟨False.elim, fun q hqp hr => absurd (h.unique (h.releasing hr) hp) hqp⟩ q

lemma step (h : HolderInv s) (hs : SleepInv ch s) (hlock : SleepLock s (p, a))
    (hstep : s.exec ch p a = some s') : HolderInv s' := by
  cases a with
  | wait =>
    dsimp only [exec] at hstep
    split_ifs at hstep
    cases hstep
    exact h.quiet (quiet_goto rfl rfl rfl (by simp) (by simp))
  | wake =>
    dsimp only [exec] at hstep
    split_ifs at hstep
    cases hstep
    exact h.quiet (quiet_goto rfl rfl rfl (by simp) fun _ => .inr hlock)
  | step c =>
    by_cases htest : s.pc p = .testing
    · exact h.test htest hstep
    by_cases hpassed : s.pc p = .passed
    · obtain rfl := hlock hpassed
      exact h.pass hs hpassed hstep
    by_cases hset : s.pc p = .wakeSet
    · exact h.clear hset hstep
    exact h.quiet (quiet_next hstep htest hpassed hset)
  | yield =>
    dsimp only [exec] at hstep
    split at hstep
    · rename_i r hpc
      refine h.quiet (quiet_acquire hstep (by simp) fun hr => .inl ?_)
      cases r <;> simp_all
    · cases hstep
  | schedAcquire =>
    dsimp only [exec] at hstep
    split at hstep
    · rename_i r hpc
      refine h.quiet (quiet_acquire hstep (by simp) fun hr => .inl ?_)
      rcases r with _ | _ | _ | _ <;> simp_all
    · cases hstep
  | schedRun =>
    dsimp only [exec] at hstep
    split at hstep
    · rename_i r hpc
      split_ifs at hstep
      cases hstep
      refine h.quiet (quiet_goto rfl rfl rfl ?_ fun hr => .inl ?_)
      · cases r <;> simp [resumeAt]
      · rcases r with _ | _ | _ | _ <;> simp_all [resumeAt]
    · cases hstep
  | schedRelease =>
    dsimp only [exec] at hstep
    split at hstep
    · rename_i r hpc
      cases hstep
      refine h.quiet (quiet_goto rfl rfl rfl (by simp) fun hr => .inl ?_)
      rcases r with _ | _ | _ | _ <;> simp_all
    · cases hstep
  | kill =>
    dsimp only [exec] at hstep
    split_ifs at hstep <;> cases hstep <;> exact ⟨h.locked, h.unique, h.passed, h.releasing⟩

end HolderInv

lemma holderInv_init (hinit : (sleepSystem n ch).init s) : HolderInv s := by
  obtain ⟨-, hpc, -, -, hholds⟩ := hinit
  refine ⟨fun hp => ?_, fun hp => ?_, fun hp => ?_, fun hr => ?_⟩
  · rw [hholds] at hp
    cases hp
  · rw [hholds] at hp
    cases hp
  · rw [hpc] at hp
    cases hp
  · rw [hpc] at hr
    exact hr.elim

end Holder

/-- In every run of any number of processes that wait and wake on a channel, no process sleeps on
the channel that tested the condition before another process made it true whose scan is over. A
sleep-lock never has two holders. -/
theorem no_lost_wakeup {n : ℕ} {C : Type} [DecidableEq C] {ch : C} {s : World n C} :
    ((sleepSystem n ch).Reachable s →
      ∀ q, ¬(s.state q = .sleeping ∧ s.chan q = some ch ∧ s.missed q = true)) ∧
    (((sleepSystem n ch).restrict SleepLock).Reachable s →
      ∀ p q, s.holds p = true → s.holds q = true → p = q) := by
  constructor
  · rintro hs q ⟨hstate, -, hmissed⟩
    exact ((SleepInv.of_reachable hs).missed q hmissed).2 hstate
  · intro hs
    have hinv : SleepInv ch s ∧ HolderInv s := by
      refine hs.invariant (I := fun s => SleepInv ch s ∧ HolderInv s) ?_ ?_
      · intro s hinit
        have hinit : (sleepSystem n ch).init s := hinit
        exact ⟨sleepInv_init hinit, holderInv_init hinit⟩
      · exact fun s l s' _ h hstep => ⟨h.1.step hstep.2, h.2.step h.1 hstep.1 hstep.2⟩
    exact fun p q hp hq => hinv.2.unique hp hq

/-- Two processes, and a sleep-lock that is free. -/
def freeLock : World 2 Unit where
  owner _ := none
  pc _ := .rest .outside
  state _ := .running
  chan _ := none
  cond := true
  since _ _ := false
  missed _ := false
  holds _ := false

/-- Process `p` acquires the lock, `q` finds it taken and goes to sleep, and `p` releases
it and finishes its scan. -/
def handover (p q : Fin 2) : List (Fin 2 × Act) :=
  [(p, .wait)] ++ List.replicate 4 (p, .step false) ++ [(q, .wait)] ++
    List.replicate 7 (q, .step false) ++ [(q, .schedRelease), (p, .wake)] ++
    List.replicate 9 (p, .step false)

instance {n : ℕ} {C : Type} (s : World n C) (l : Fin n × Act) : Decidable (SleepLock s l) := by
  unfold SleepLock
  split <;> infer_instance

/-- In the run `handover 0 1` process 1 sleeps, and is woken before the scan is over. -/
theorem no_lost_wakeup_handover :
    ∃ s, ((sleepSystem 2 ()).restrict SleepLock).Reachable s ∧ s.missed 1 = true ∧
      s.pc 1 = .switched none false ∧
        ¬(s.state 1 = .sleeping ∧ s.chan 1 = some () ∧ s.missed 1 = true) ∧
      ∀ p q, s.holds p = true → s.holds q = true → p = q := by
  have hrun : ((handover 0 1).foldlM (fun (s : World 2 Unit) l =>
      if SleepLock s l then s.exec () l.1 l.2 else none) freeLock).any fun s =>
        s.missed 1 = true ∧ s.pc 1 = .switched none false := by
    decide +kernel
  have hfree : ((sleepSystem 2 ()).restrict SleepLock).Reachable freeLock :=
    .init ⟨fun _ => rfl, fun _ => rfl, fun _ => by simp [freeLock], fun _ => rfl, fun _ => rfl⟩
  obtain ⟨s, hreach, hmissed, hpc⟩ :=
    hfree.exists_of_foldlM (TransitionSystem.restrict_step_of_ite fun _ _ _ => id) hrun
  exact ⟨s, hreach, hmissed, hpc, no_lost_wakeup.1 hreach.of_restrict 1, no_lost_wakeup.2 hreach⟩

end Xv6.Sleep
