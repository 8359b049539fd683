import Xv6.Foundations.Transition
import Xv6.VM.State

/-!
# The process table

The parts of `kfork`, `kexit`, `kwait` and `kkill` of `kernel/proc.c` that create, end and reap
processes, and `kgetnumchild`. A step is one section that runs under a lock: `kfork` publishes the
child in three of them, with `np->lock`, with `wait_lock` and again with `np->lock`; `kexit` hands
its children over and becomes a zombie under `wait_lock`, under which `kwait` looks for exited
children; `kkill` takes the lock of one process at a time. Between two steps any other process may
take any number of steps.

Every allocation of an entry of the table has a serial number. The state records with which status
each process has called `kexit`, and what each `kwait` has reaped.
-/

namespace Xv6.Proc

open Function

open VM (ProcId ProcState)

/-! ## The table -/

/-- The fields of `struct proc` that concern the life of a process. -/
structure Entry where
  state : ProcState := .unused
  pid : BitVec 32 := 0
  parent : Option ProcId := none
  xstate : ℤ := 0
  killed : Bool := false
  /-- Which allocation of an entry of the table this is. -/
  serial : ℕ := 0

/-- How far a process is in `kfork`. -/
inductive Place where
  | idle
  /-- With `np->lock` held, from `allocproc` on. -/
  | forking (np : ProcId)
  /-- Before the section that sets `np->parent`. -/
  | forkParent (np : ProcId)
  /-- Before the section that makes the child runnable. -/
  | forkRun (np : ProcId)
  deriving DecidableEq

/-- The child that the `kfork` has allocated. -/
def Place.child : Place → Option ProcId
  | .idle => none
  | .forking np | .forkParent np | .forkRun np => some np

/-- A process that `kwait` has reaped. -/
structure Reap where
  serial : ℕ
  /-- What `kwait` returned. -/
  pid : BitVec 32
  /-- The exit status, if it was asked for. -/
  status : Option ℤ

/-- The process table. -/
structure Table where
  proc : ProcId → Entry
  nextpid : BitVec 32
  initproc : ProcId
  place : ProcId → Place
  /-- The number of process ids that have been allocated. -/
  allocated : ℕ
  /-- The serial number of each process that has called `kexit`, with the status. -/
  exits : List (ℕ × ℤ)
  /-- The processes that have been reaped. -/
  reaps : List Reap

/-- A section of a process. -/
inductive TableAct where
  /-- The scheduler, `yield`, `sleep` and `wakeup` change the state of the process. -/
  | sched (st : ProcState)
  /-- `allocproc` finds the entry `np`. -/
  | forkAlloc (np : ProcId)
  /-- `allocproc` or `uvmcopy` fails, and the child is freed. -/
  | forkFail
  /-- `np->lock` is released. -/
  | forkRelease
  /-- `np->parent = p`. -/
  | forkParent
  /-- `np->state = RUNNABLE`. -/
  | forkRun
  /-- `kexit`. -/
  | exit (status : ℤ)
  /-- A scan of `kwait`, and what `copyout` returns in it. -/
  | wait (addr : ℕ) (copied : Bool)
  /-- `kkill` looks at the entry `q`. -/
  | kill (q : ProcId) (pid : BitVec 32)

namespace Table

/-- Change an entry. -/
def setProc (s : Table) (p : ProcId) (e : Entry) : Table :=
  { s with proc := update s.proc p e }

/-- The process gets to another place. -/
def goto (s : Table) (p : ProcId) (pl : Place) : Table :=
  { s with place := update s.place p pl }

section Update

variable (s : Table) (p : ProcId) (e : Entry) (pl : Place)

@[simp]
lemma setProc_self : (s.setProc p e).proc p = e := update_self _ _ _

@[simp]
lemma setProc_of_ne {q : ProcId} (h : q ≠ p) : (s.setProc p e).proc q = s.proc q :=
  update_of_ne h _ _

@[simp]
lemma goto_proc : (s.goto p pl).proc = s.proc := rfl

end Update

/-- `allocproc` takes the unused entry `np`. -/
def allocproc (s : Table) (np : ProcId) : Table :=
  { s.setProc np { s.proc np with
      state := .used, pid := s.nextpid, serial := s.allocated + 1 } with
    nextpid := s.nextpid + 1, allocated := s.allocated + 1 }

/-- `freeproc`. -/
def freeproc (s : Table) (p : ProcId) : Table := s.setProc p {}

/-- `reparent`. -/
def reparent (s : Table) (p : ProcId) : Table :=
  { s with proc := fun pp =>
      if (s.proc pp).parent = some p then { s.proc pp with parent := some s.initproc }
      else s.proc pp }

/-- The section of `kexit` under `wait_lock`. -/
def kexit (s : Table) (p : ProcId) (status : ℤ) : Table :=
  let s := s.reparent p
  { s.setProc p { s.proc p with xstate := status, state := .zombie } with
    exits := ((s.proc p).serial, status) :: s.exits }

/-- The first exited child of `p`. -/
def zombieChild (s : Table) (p : ProcId) : Option ProcId :=
  (List.finRange NPROC).find? fun pp => (s.proc pp).parent = some p ∧ (s.proc pp).state = .zombie

/-- `p` has a child. -/
def HasKids (s : Table) (p : ProcId) : Prop := ∃ pp, (s.proc pp).parent = some p
  deriving Decidable

/-- A scan of `kwait`: an exited child is reaped, unless its status cannot be copied out; a process
without children, or that has been killed, returns; otherwise the process sleeps. -/
def kwait (s : Table) (p : ProcId) (addr : ℕ) (copied : Bool) : Table :=
  match s.zombieChild p with
  | some pp =>
    if addr ≠ 0 ∧ copied = false then s
    else { s.freeproc pp with
      reaps := ⟨(s.proc pp).serial, (s.proc pp).pid,
        if addr ≠ 0 then some (s.proc pp).xstate else none⟩ :: s.reaps }
  | none =>
    if ¬s.HasKids p ∨ (s.proc p).killed then s
    else s.setProc p { s.proc p with state := .sleeping }

/-- The section of `kkill` for the entry `q`. -/
def kkill (s : Table) (q : ProcId) (pid : BitVec 32) : Table :=
  if (s.proc q).pid = pid then
    s.setProc q { s.proc q with
      killed := true
      state := if (s.proc q).state = .sleeping then .runnable else (s.proc q).state }
  else s

/-- `kgetnumchild`. -/
def kgetnumchild (s : Table) (p : ProcId) : ℕ :=
  (List.finRange NPROC).countP fun q => (s.proc q).state ≠ .zombie ∧ (s.proc q).parent = some p

/-- A section of the running process `p`, if it can be taken. -/
def call (s : Table) (p : ProcId) : TableAct → Option Table
  | .sched _ => none
  | .forkAlloc np =>
    if s.place p = .idle ∧ (s.proc np).state = .unused then
      some ((s.allocproc np).goto p (.forking np))
    else none
  | .forkFail =>
    match s.place p with
    | .forking np => some ((s.freeproc np).goto p .idle)
    | _ => none
  | .forkRelease =>
    match s.place p with
    | .forking np => some (s.goto p (.forkParent np))
    | _ => none
  | .forkParent =>
    match s.place p with
    | .forkParent np =>
      some ((s.setProc np { s.proc np with parent := some p }).goto p (.forkRun np))
    | _ => none
  | .forkRun =>
    match s.place p with
    | .forkRun np => some ((s.setProc np { s.proc np with state := .runnable }).goto p .idle)
    | _ => none
  | .exit status => if s.place p = .idle ∧ p ≠ s.initproc then some (s.kexit p status) else none
  | .wait addr copied => if s.place p = .idle then some (s.kwait p addr copied) else none
  | .kill q pid => if s.place p = .idle then some (s.kkill q pid) else none

/-- One step of the process `p`, or of the scheduler for it. -/
def exec (s : Table) (p : ProcId) : TableAct → Option Table
  | .sched st =>
    if (s.proc p).state.Active ∧ st.Active then some (s.setProc p { s.proc p with state := st })
    else none
  | a => if (s.proc p).state = .running then s.call p a else none

end Table

/-- The runs of the process table, from `userinit` on. -/
def processSystem : TransitionSystem Table (ProcId × TableAct) where
  init s := s.proc s.initproc = { state := .runnable, pid := 1, serial := 1 } ∧
    (∀ p, p ≠ s.initproc → s.proc p = {}) ∧ s.nextpid = 2 ∧ (∀ p, s.place p = .idle) ∧
    s.allocated = 1 ∧ s.exits = [] ∧ s.reaps = []
  step s l s' := s.exec l.1 l.2 = some s'

end Xv6.Proc
