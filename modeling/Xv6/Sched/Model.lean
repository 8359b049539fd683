import Xv6.Foundations.Transition
import Xv6.VM.State

/-!
# The multi-level feedback queue scheduler

The scheduler of `kernel/proc.c` and the timer interrupts of `kernel/trap.c`, on any number of CPUs.
A step of a CPU is one critical section: what it does between taking and releasing the lock of one
process. Between two critical sections the other CPUs may take any number of steps.

`Cpu` says where a CPU is. In `Cpu.scheduler` and `Cpu.running` interrupts are enabled; in the other
places the CPU holds off interrupts, and all that it can do is to go on (`Action.go`). The loops of
the source over the process table are the lists of the entries still to be visited.

Which process sleeps on which channel is left open: a wakeup may reach any sleeping process, and a
process that runs may make a system call, sleep, fork, reap or exit at any time.
-/

namespace Xv6.Sched

open Function

open VM (ProcId ProcState)

instance : NeZero NPROC := ⟨by decide⟩

/-- For the CPU `0` of a machine with one CPU. -/
scoped instance oneCpu : NeZero 1 := ⟨by decide⟩

scoped instance twoCpus : NeZero 2 := ⟨by decide⟩

scoped instance fourLevels : NeZero 4 := ⟨by decide⟩

/-! ## Processes -/

/-- `time_quantum`. -/
def timeQuantum (level : ℤ) : ℤ := [2, 4, 8, 16].getD level.toNat 0

/-- The number of entries of the table `syscalls`. -/
def NSYSCALLS : ℤ := 34

/-- The fields of `struct proc` that concern scheduling. -/
structure Proc where
  state : ProcState := .unused
  systemcallCount : ℤ := 0
  level : ℤ := 0
  ticksUsed : ℤ := 0
  ticksTotal : ℤ → ℤ := fun _ => 0
  timesScheduled : ℤ := 0
  sliceStartSyscalls : ℤ := 0

namespace Proc

variable (pr : Proc)

/-- What `scheduler` does to the process that it picks, before it switches to it. -/
def dispatch : Proc :=
  { pr with
    state := .running
    timesScheduled := pr.timesScheduled + 1
    sliceStartSyscalls := if pr.ticksUsed = 0 then pr.systemcallCount else pr.sliceStartSyscalls }

/-- `delta` of `scheduler`: the system calls of the time slice. -/
def delta : ℤ := pr.systemcallCount - pr.sliceStartSyscalls

/-- What `scheduler` does to the process that has switched back to it; `level` is the variable of
the loop that picked the process. -/
def afterSwtch (level : Fin 4) : Proc :=
  if pr.state = .runnable ∧ timeQuantum level ≤ pr.ticksUsed then
    { pr with
      level := if pr.delta < pr.ticksUsed ∧ pr.level < 3 then pr.level + 1 else pr.level
      ticksUsed := 0
      sliceStartSyscalls := pr.systemcallCount }
  else pr

/-- The end of `yield`, `sleep` and `kexit`: the process gets the state and switches to the
scheduler, with its lock held. -/
def sched (state : ProcState) (level : Fin 4) : Proc :=
  afterSwtch { pr with state := state } level

/-- The body of the loop of `priority_boost`. -/
def priorityBoost : Proc :=
  if pr.state = .runnable then
    { pr with level := 0, ticksUsed := 0, sliceStartSyscalls := pr.systemcallCount }
  else pr

/-- The accounting of a timer interrupt in `usertrap` and `kerneltrap`. -/
def tick : Proc :=
  { pr with
    ticksUsed := pr.ticksUsed + 1
    ticksTotal := update pr.ticksTotal pr.level (pr.ticksTotal pr.level + 1) }

/-- The accounting of `syscall`. An unknown number calls nothing and is not counted. -/
def syscall (num : ℤ) : Proc :=
  if 0 < num ∧ num < NSYSCALLS then { pr with systemcallCount := pr.systemcallCount + 1 } else pr

/-- The body of the loop of `wakeup`, for a process that sleeps on the channel, and of `kkill`. -/
def wakeup : Proc := if pr.state = .sleeping then { pr with state := .runnable } else pr

/-- The last critical section of `kfork`, and the end of `userinit`. -/
def ready : Proc := { pr with state := .runnable }

/-- The entry that `allocproc` returns. -/
def allocproc : Proc := { state := .used }

/-- The entry that `freeproc` leaves. -/
def freeproc : Proc := { state := .unused }

/-- The test of `scheduler`. -/
def Eligible (level : Fin 4) : Prop := pr.state = .runnable ∧ pr.level = level.val

instance (level : Fin 4) : Decidable (pr.Eligible level) := by
  unfold Eligible
  infer_instance

end Proc

/-! ## CPUs -/

/-- The process that a CPU runs, `c->proc`, with the variable `level` of the loop of `scheduler`
that picked it. -/
structure Current where
  p : ProcId
  level : Fin 4
  deriving DecidableEq, Repr

/-- The place where a CPU is. -/
inductive Cpu where
  /-- At the top of the loop of `scheduler`, with interrupts enabled. -/
  | scheduler
  /-- In the scan of a level; the processes of `rest` are still to be tested. -/
  | scan (level : Fin 4) (rest : List ProcId)
  /-- In a process, in user mode or in the kernel with interrupts enabled. -/
  | running (cur : Current)
  /-- In a timer interrupt, looking for a runnable process of a higher priority. -/
  | lookHigher (cur : Current) (currLevel : ℤ) (rest : List ProcId)
  /-- In a timer interrupt, before `global_ticks` is counted. -/
  | globalTick (cur : Option Current) (shouldYield : Bool)
  /-- In `priority_boost`. -/
  | boost (cur : Option Current) (rest : List ProcId)
  /-- In a timer interrupt, before the test of `should_yield`. -/
  | trapEnd (cur : Option Current) (shouldYield : Bool)
  deriving DecidableEq, Repr

/-- `c->proc`. -/
def Cpu.current : Cpu → Option Current
  | .scheduler => none
  | .scan _ _ => none
  | .running cur => some cur
  | .lookHigher cur _ _ => some cur
  | .globalTick cur _ => cur
  | .boost cur _ => cur
  | .trapEnd cur _ => cur

/-- What a CPU may do next. -/
inductive Action where
  /-- The next critical section of the scheduler or of the trap handler. -/
  | go
  /-- A timer interrupt, up to the accounting of the current process. -/
  | timer
  /-- An `ecall` with the number of a system call. -/
  | syscall (num : ℤ)
  | sleep
  | kexit
  /-- An iteration of `wakeup` or `kkill`, in a process or in the interrupt of a device. -/
  | wakeup (q : ProcId)
  | allocproc (q : ProcId)
  | ready (q : ProcId)
  | freeproc (q : ProcId)
  deriving DecidableEq, Repr

/-- The order in which the two passes of `scheduler` visit the process table. -/
def scanOrder (index : ProcId) : List ProcId :=
  (List.finRange NPROC).drop index ++ (List.finRange NPROC).take index

/-! ## The system -/

/-- The state of `n` CPUs. -/
structure State (n : ℕ) where
  proc : ProcId → Proc
  roundrobinIndex : Fin 4 → ProcId
  globalTicks : ℕ
  cpu : Fin n → Cpu

/-- A step: the CPU and what it does. -/
abbrev Label (n : ℕ) : Type := Fin n × Action

namespace State

variable {n : ℕ} (s : State n)

/-- The CPU goes to another place. -/
def goto (c : Fin n) (place : Cpu) : State n :=
  { s with cpu := update s.cpu c place }

/-- An entry of the process table is changed. -/
def modify (p : ProcId) (f : Proc → Proc) : State n :=
  { s with proc := update s.proc p (f (s.proc p)) }

/-- The next critical section of a CPU that does not take interrupts. -/
def go (c : Fin n) : Option (State n) :=
  match s.cpu c with
  | .scheduler => some (s.goto c (.scan 0 (scanOrder (s.roundrobinIndex 0))))
  | .scan level [] =>
    if h : level.val + 1 < 4 then
      let level' : Fin 4 := ⟨level.val + 1, h⟩
      some (s.goto c (.scan level' (scanOrder (s.roundrobinIndex level'))))
    else
      -- nothing was found: `wfi`
      some (s.goto c .scheduler)
  | .scan level (i :: rest) =>
    if (s.proc i).Eligible level then
      -- `(i + 1) % NPROC` is addition in `Fin NPROC`
      some ({ s with
        roundrobinIndex := update s.roundrobinIndex level (i + 1) }.modify i
          Proc.dispatch |>.goto c (.running ⟨i, level⟩))
    else some (s.goto c (.scan level rest))
  | .running _ => none
  | .lookHigher cur _ [] => some (s.goto c (.globalTick (some cur) false))
  | .lookHigher cur currLevel (temp :: rest) =>
    if (s.proc temp).state = .runnable ∧ (s.proc temp).level < currLevel then
      some (s.goto c (.globalTick (some cur) true))
    else some (s.goto c (.lookHigher cur currLevel rest))
  | .globalTick cur shouldYield =>
    if c.val = 0 then
      if 128 ≤ s.globalTicks + 1 then
        some ({ s with globalTicks := 0 }.goto c (.boost cur (List.finRange NPROC)))
      else some ({ s with globalTicks := s.globalTicks + 1 }.goto c (.trapEnd cur shouldYield))
    else some (s.goto c (.trapEnd cur shouldYield))
  | .boost cur [] => some (s.goto c (.trapEnd cur true))
  | .boost cur (i :: rest) => some (s.modify i Proc.priorityBoost |>.goto c (.boost cur rest))
  | .trapEnd (some cur) true =>
    -- `yield`
    some (s.modify cur.p (·.sched .runnable cur.level) |>.goto c .scheduler)
  | .trapEnd (some cur) false => some (s.goto c (.running cur))
  | .trapEnd none _ => some (s.goto c .scheduler)

/-- A timer interrupt, taken by `usertrap` or `kerneltrap` in a process and by `kerneltrap` in the
scheduler. -/
def timer (c : Fin n) : Option (State n) :=
  match s.cpu c with
  | .scheduler => some (s.goto c (.globalTick none false))
  | .running cur =>
    let pr := (s.proc cur.p).tick
    some (s.modify cur.p Proc.tick |>.goto c
      (if timeQuantum pr.level ≤ pr.ticksUsed then .globalTick (some cur) true
        else .lookHigher cur pr.level (List.finRange NPROC)))
  | _ => none

/-- The process that the CPU runs, if it is one that takes interrupts. -/
def runningProc (c : Fin n) : Option Current :=
  match s.cpu c with
  | .running cur => some cur
  | _ => none

/-- One step of a CPU. -/
def exec (c : Fin n) : Action → Option (State n)
  | .go => s.go c
  | .timer => s.timer c
  | .syscall num => do
    let cur ← s.runningProc c
    some (s.modify cur.p (·.syscall num))
  | .sleep => do
    let cur ← s.runningProc c
    some (s.modify cur.p (·.sched .sleeping cur.level) |>.goto c .scheduler)
  | .kexit => do
    let cur ← s.runningProc c
    some (s.modify cur.p (·.sched .zombie cur.level) |>.goto c .scheduler)
  | .wakeup q =>
    if (s.runningProc c).isSome ∨ s.cpu c = .scheduler then some (s.modify q Proc.wakeup) else none
  | .allocproc q =>
    if (s.runningProc c).isSome ∧ (s.proc q).state = .unused then
      some (s.modify q fun _ => Proc.allocproc)
    else none
  | .ready q =>
    if (s.runningProc c).isSome ∧ (s.proc q).state = .used then some (s.modify q Proc.ready)
    else none
  | .freeproc q =>
    -- the entry of a failed `kfork`, or a child that has exited
    if (s.runningProc c).isSome ∧ ((s.proc q).state = .used ∨ (s.proc q).state = .zombie) then
      some (s.modify q fun _ => Proc.freeproc)
    else none

end State

/-- The state in which the CPUs enter `scheduler`: `userinit` has made the first process. -/
def boot (n : ℕ) : State n where
  proc := update (fun _ => {}) 0 Proc.allocproc.ready
  roundrobinIndex _ := 0
  globalTicks := 0
  cpu _ := .scheduler

/-- The runs of the scheduler on `n` CPUs. -/
def schedSystem (n : ℕ) : TransitionSystem (State n) (Label n) where
  init s := s = boot n
  step s l s' := s.exec l.1 l.2 = some s'

end Xv6.Sched
