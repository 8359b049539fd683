import Xv6.Proc.Table

/-!
# Parents, process ids and exit statuses

What holds of the process table in every run. The invariant has three parts: process ids come from a
counter and are never given twice (`Pids`); a parent is alive, and a child that `kfork` has not yet
published belongs to one process only (`Parents`); a process that has exited keeps its status until
it is reaped, which happens once (`Exits`).

## Main results

* `TableInv.of_reachable`: the invariant holds in every reachable state.
* `reaps_or_staysZombie`: an exited process is unchanged until a `kwait` of its parent reaps it.
* `kgetnumchild_eq`: what `kgetnumchild` counts.
-/

namespace Xv6.Proc

open Function List Option Table

open VM (ProcId ProcState)

/-! ## The invariant -/

/-- Process ids and serial numbers. -/
@[grind cases eager]
structure Pids (s : Table) : Prop where
  nextpid : s.nextpid = BitVec.ofNat 32 (s.allocated + 1)
  serial_le : ∀ {q}, (s.proc q).state ≠ .unused → (s.proc q).serial ≤ s.allocated
  pid_eq : ∀ {q}, (s.proc q).state ≠ .unused → (s.proc q).pid = BitVec.ofNat 32 (s.proc q).serial
  serial_inj : ∀ {q r}, (s.proc q).state ≠ .unused → (s.proc r).state ≠ .unused →
    (s.proc q).serial = (s.proc r).serial → q = r

/-- Parents, and the children that are not yet published. -/
@[grind cases eager]
structure Parents (s : Table) : Prop where
  unused : ∀ {q}, (s.proc q).state = .unused → (s.proc q).parent = none
  active : ∀ {q r}, (s.proc q).parent = some r → (s.proc r).state.Active
  isSome : ∀ {q}, (s.proc q).state.Active ∨ (s.proc q).state = .zombie → q ≠ s.initproc →
    (s.proc q).parent ≠ none
  initproc : (s.proc s.initproc).state.Active
  /-- A process in `kfork` is alive, and its child is not yet published. -/
  forking : ∀ {p q}, (s.place p).child = some q → (s.proc p).state.Active ∧ (s.proc q).state = .used
  child_inj : ∀ {p p' q}, (s.place p).child = some q → (s.place p').child = some q → p = p'
  forkRun : ∀ {p q}, s.place p = .forkRun q → (s.proc q).parent = some p
  used : ∀ {q}, (s.proc q).state = .used → ∃ p, (s.place p).child = some q
  /-- A process that is not yet published has a parent only in the last section of `kfork`. -/
  unpublished : ∀ {p q}, (s.place p).child = some q → s.place p ≠ .forkRun q →
    (s.proc q).parent = none

/-- Exited processes. -/
@[grind cases eager]
structure Exits (s : Table) : Prop where
  exits_le : ∀ {n st}, (n, st) ∈ s.exits → n ≤ s.allocated
  exits_inj : ∀ {n st st'}, (n, st) ∈ s.exits → (n, st') ∈ s.exits → st = st'
  /-- An exited process keeps its status until it is reaped. -/
  zombie : ∀ {q}, (s.proc q).state = .zombie → ((s.proc q).serial, (s.proc q).xstate) ∈ s.exits ∧
    (s.proc q).serial ∉ s.reaps.map Reap.serial
  alive : ∀ {q st}, (s.proc q).state ≠ .unused → (s.proc q).state ≠ .zombie →
    ((s.proc q).serial, st) ∉ s.exits
  exited : ∀ {n st}, (n, st) ∈ s.exits → n ∈ s.reaps.map Reap.serial ∨
    ∃ q, (s.proc q).state = .zombie ∧ (s.proc q).serial = n
  reaped : ∀ r ∈ s.reaps, r.pid = BitVec.ofNat 32 r.serial ∧
    ∃ st, (r.serial, st) ∈ s.exits ∧ (r.status = none ∨ r.status = some st)
  nodup : (s.reaps.map Reap.serial).Nodup

/-- The invariant of the process table. -/
structure TableInv (s : Table) : Prop where
  pids : Pids s
  parents : Parents s
  exits : Exits s

section Invariant

variable {s s' : Table} {p q : ProcId} {a : TableAct}

lemma tableInv_init (h : processSystem.init s) : TableInv s := by
  obtain ⟨hinit, hother, hnext, hplace, halloc, hexits, hreaps⟩ := h
  have hrun : (s.proc s.initproc).state = .runnable := by rw [hinit]
  have hparent : ∀ q, (s.proc q).parent = none := by
    intro q
    by_cases hq : q = s.initproc
    · rw [hq, hinit]
    · rw [hother q hq]
  have hchild : ∀ p, (s.place p).child = none := by
    intro p
    rw [hplace]
    rfl
  have hproc : ∀ {q}, (s.proc q).state ≠ .unused → q = s.initproc := by
    intro q hq
    by_contra hne
    rw [hother q hne] at hq
    exact hq rfl
  refine ⟨?_, by constructor <;> grind [ProcState.Active], by constructor <;> grind⟩
  constructor
  case nextpid =>
    rw [hnext, halloc]
    rfl
  case pid_eq =>
    intro q hq
    rw [hproc hq, hinit]
    rfl
  all_goals grind

/-- The entries agree on all that the invariant is about. -/
@[grind cases eager]
structure Entry.Same (e e' : Entry) : Prop where
  unused : e'.state = .unused ↔ e.state = .unused
  used : e'.state = .used ↔ e.state = .used
  zombie : e'.state = .zombie ↔ e.state = .zombie
  active : e'.state.Active ↔ e.state.Active
  pid : e'.pid = e.pid
  parent : e'.parent = e.parent
  xstate : e'.xstate = e.xstate
  serial : e'.serial = e.serial

lemma Entry.Same.refl (e : Entry) : e.Same e :=
  ⟨Iff.rfl, Iff.rfl, Iff.rfl, Iff.rfl, rfl, rfl, rfl, rfl⟩

/-- A change from one active state to another. -/
theorem Entry.Same.of_active {e e' : Entry} (h : e.state.Active) (h' : e'.state.Active)
    (hpid : e'.pid = e.pid) (hparent : e'.parent = e.parent) (hxstate : e'.xstate = e.xstate)
    (hserial : e'.serial = e.serial) : e.Same e' := by
  have hne : ∀ {st : ProcState}, st.Active → st ≠ .unused ∧ st ≠ .used ∧ st ≠ .zombie := by
    rintro st (rfl | rfl | rfl) <;> simp
  obtain ⟨h1, h2, h3⟩ := hne h
  obtain ⟨h1', h2', h3'⟩ := hne h'
  exact ⟨iff_of_false h1' h1, iff_of_false h2' h2, iff_of_false h3' h3, iff_of_true h' h, hpid,
    hparent, hxstate, hserial⟩

namespace TableInv

/-- A step that changes nothing that the invariant is about. -/
theorem congr {proc : ProcId → Entry} (h : TableInv s)
    (hsame : ∀ q, (s.proc q).Same (proc q)) : TableInv { s with proc := proc } := by
  obtain ⟨hpids, hparents, hexits⟩ := h
  refine ⟨?_, ?_, ?_⟩ <;> constructor <;> grind

/-- An entry changes in nothing that the invariant is about. -/
theorem setProc {e : Entry} (h : TableInv s) (hsame : (s.proc q).Same e) :
    TableInv (s.setProc q e) := by
  refine h.congr fun r => ?_
  by_cases hr : r = q
  · subst hr
    rwa [update_self]
  · rw [update_of_ne hr]
    exact .refl _

lemma sched {st : ProcState} (h : TableInv s) (hp : (s.proc p).state.Active) (hst : st.Active) :
    TableInv (s.setProc p { s.proc p with state := st }) :=
  h.setProc (.of_active hp hst rfl rfl rfl rfl)

lemma kkill {pid : BitVec 32} (h : TableInv s) : TableInv (s.kkill q pid) := by
  unfold Table.kkill
  split_ifs with hpid hs
  · exact h.setProc (.of_active (.inl hs) (.inr (.inl rfl)) rfl rfl rfl rfl)
  · exact h.setProc ⟨Iff.rfl, Iff.rfl, Iff.rfl, Iff.rfl, rfl, rfl, rfl, rfl⟩
  · exact h

end TableInv

/-! ## The sections of `kfork` -/

namespace Pids

lemma allocproc {np : ProcId} (h : Pids s) : Pids (s.allocproc np) := by
  have hold : ∀ {q}, q ≠ np → ((s.allocproc np).proc q) = s.proc q := fun hq =>
    Table.setProc_of_ne s np _ hq
  have hnew : (s.allocproc np).proc np =
      { s.proc np with state := .used, pid := s.nextpid, serial := s.allocated + 1 } :=
    setProc_self s np _
  refine ⟨?_, fun {q} hq => ?_, fun {q} hq => ?_, fun {q r} hq hr heq => ?_⟩
  · change s.nextpid + 1 = BitVec.ofNat 32 (s.allocated + 1 + 1)
    rw [h.nextpid, BitVec.ofNat_add (s.allocated + 1)]
    rfl
  · change _ ≤ s.allocated + 1
    by_cases hqn : q = np
    · rw [hqn, hnew]
    · rw [hold hqn] at hq ⊢
      exact (h.serial_le hq).trans (Nat.le_succ _)
  · by_cases hqn : q = np
    · rw [hqn, hnew]
      exact h.nextpid
    · rw [hold hqn] at hq ⊢
      exact h.pid_eq hq
  · by_cases hqn : q = np <;> by_cases hrn : r = np
    · rw [hqn, hrn]
    · -- the new serial number is larger than all others
      rw [hold hrn] at hr
      rw [hqn, hnew, hold hrn] at heq
      have hle := h.serial_le hr
      change s.allocated + 1 = _ at heq
      omega
    · rw [hold hqn] at hq
      rw [hrn, hnew, hold hqn] at heq
      have hle := h.serial_le hq
      change _ = s.allocated + 1 at heq
      omega
    · rw [hold hqn] at hq heq
      rw [hold hrn] at hr heq
      exact h.serial_inj hq hr heq

/-- A step that leaves process ids and serial numbers alone, and may free entries. -/
theorem mono (h : Pids s) (hnext : s'.nextpid = s.nextpid) (halloc : s'.allocated = s.allocated)
    (hproc : ∀ q, (s'.proc q).state ≠ .unused → (s.proc q).state ≠ .unused ∧
      (s'.proc q).pid = (s.proc q).pid ∧ (s'.proc q).serial = (s.proc q).serial) : Pids s' := by
  refine ⟨by rw [hnext, halloc]; exact h.nextpid, fun {q} hq => ?_, fun {q} hq => ?_,
    fun {q r} hq hr heq => ?_⟩
  · obtain ⟨hq, -, hserial⟩ := hproc q hq
    rw [hserial, halloc]
    exact h.serial_le hq
  · obtain ⟨hq, hpid, hserial⟩ := hproc q hq
    rw [hserial, hpid]
    exact h.pid_eq hq
  · obtain ⟨hq, -, hserial⟩ := hproc q hq
    obtain ⟨hr, -, hserial'⟩ := hproc r hr
    rw [hserial, hserial'] at heq
    exact h.serial_inj hq hr heq

lemma freeproc (h : Pids s) : Pids (s.freeproc q) := by
  refine h.mono rfl rfl fun r hr => ?_
  by_cases hrq : r = q
  · subst hrq
    exact absurd (by simp [Table.freeproc]) hr
  · rw [Table.freeproc, Table.setProc_of_ne _ _ _ hrq] at hr ⊢
    exact ⟨hr, rfl, rfl⟩

end Pids

namespace Parents

section

variable (h : Parents s)

include h

/-- The new entry has no parent yet, and no process names it as its parent. -/
theorem forkAlloc {np : ProcId} (hp : (s.proc p).state.Active) (hidle : s.place p = .idle)
    (hnp : (s.proc np).state = .unused) : Parents ((s.allocproc np).goto p (.forking np)) := by
  have hparent := h.unused hnp
  -- the entry is not yet the child of any other `kfork`, whose children are all used
  have hfree : ∀ r, (s.place r).child ≠ some np := by
    intro r hr
    rw [(h.forking hr).2] at hnp
    cases hnp
  constructor <;> simp only [goto, allocproc, Table.setProc, update_apply] <;>
    grind [ProcState.Active, Place.child]

/-- The child that is given up was nobody's parent, and had none. -/
theorem forkFail {np : ProcId} (hpl : s.place p = .forking np) :
    Parents ((s.freeproc np).goto p .idle) := by
  have hused := (h.forking (p := p) (q := np) (by rw [hpl]; rfl)).2
  constructor <;> simp only [goto, Table.freeproc, Table.setProc, update_apply] <;>
    grind [ProcState.Active, Place.child]

lemma forkRelease {np : ProcId} (hpl : s.place p = .forking np) :
    Parents (s.goto p (.forkParent np)) := by
  constructor <;> simp only [goto, update_apply] <;> grind [Place.child]

lemma forkParent {np : ProcId} (hpl : s.place p = .forkParent np) :
    Parents ((s.setProc np { s.proc np with parent := some p }).goto p (.forkRun np)) := by
  have halive := h.forking (p := p) (q := np) (by rw [hpl]; rfl)
  constructor <;> simp only [goto, Table.setProc, update_apply] <;>
    grind [ProcState.Active, Place.child]

/-- The child becomes runnable only when it has its parent. -/
theorem publish {np : ProcId} (hpl : s.place p = .forkRun np) :
    Parents ((s.setProc np { s.proc np with state := .runnable }).goto p .idle) := by
  have hparent := h.forkRun hpl
  have hused := (h.forking (p := p) (q := np) (by rw [hpl]; rfl)).2
  constructor <;> simp only [goto, Table.setProc, update_apply] <;>
    grind [ProcState.Active, Place.child]

/-- After `reparent` the exiting process is nobody's parent, and `initproc` is alive. -/
theorem kexit {status : ℤ} (hp : (s.proc p).state.Active) (hidle : s.place p = .idle)
    (hinit : p ≠ s.initproc) : Parents (s.kexit p status) := by
  have hchild : (s.place p).child = none := by rw [hidle]; rfl
  constructor <;> simp only [Table.kexit, Table.reparent, Table.setProc, update_apply] <;>
    grind [ProcState.Active, Place.child]

/-- An exited process is nobody's parent, so that its entry may be freed. -/
theorem reap {rs : List Reap} (hq : (s.proc q).state = .zombie) :
    Parents { s.freeproc q with reaps := rs } := by
  have horphan : ∀ {r}, (s.proc r).parent ≠ some q := by
    intro r hr
    simpa [hq, ProcState.Active] using h.active hr
  constructor <;> simp only [Table.freeproc, Table.setProc, update_apply] <;>
    grind [ProcState.Active, Place.child]

end

end Parents

namespace Exits

/-- The new serial number is larger than that of any process that has exited. -/
theorem forkAlloc {np : ProcId} (h : Exits s) (hnp : (s.proc np).state = .unused) :
    Exits ((s.allocproc np).goto p (.forking np)) := by
  constructor <;> simp only [goto, allocproc, Table.setProc, update_apply] <;> grind

lemma forkFail {np : ProcId} (h : Exits s) (hnp : (s.proc np).state = .used) :
    Exits ((s.freeproc np).goto p .idle) := by
  constructor <;> simp only [goto, Table.freeproc, Table.setProc, update_apply] <;> grind

lemma forkParent {np : ProcId} {r : Option ProcId} (h : Exits s) :
    Exits ((s.setProc np { s.proc np with parent := r }).goto p (.forkRun np)) := by
  constructor <;> simp only [goto, Table.setProc, update_apply] <;> grind

lemma publish {np : ProcId} (h : Exits s) (hnp : (s.proc np).state = .used) :
    Exits ((s.setProc np { s.proc np with state := .runnable }).goto p .idle) := by
  constructor <;> simp only [goto, Table.setProc, update_apply] <;> grind

/-- The process had not exited before, and no other process has its serial number. -/
theorem kexit {status : ℤ} (h : Exits s) (hpids : Pids s) (hp : (s.proc p).state.Active) :
    Exits (s.kexit p status) := by
  obtain ⟨-, hle, -, hinj⟩ := hpids
  constructor <;> simp only [Table.kexit, Table.reparent, Table.setProc, update_apply] <;>
    grind [ProcState.Active]

/-- The exited process was not reaped before, and its entry has the status that it passed. -/
theorem reap {status : Option ℤ} (h : Exits s) (hpids : Pids s)
    (hq : (s.proc q).state = .zombie)
    (hstatus : status = none ∨ status = some (s.proc q).xstate) :
    Exits { s.freeproc q with
      reaps := ⟨(s.proc q).serial, (s.proc q).pid, status⟩ :: s.reaps } := by
  obtain ⟨hexited, hfresh⟩ := h.zombie hq
  have hpid := hpids.pid_eq (q := q) (by rw [hq]; simp)
  obtain ⟨-, -, -, hinj⟩ := hpids
  constructor <;> simp only [Table.freeproc, Table.setProc, update_apply, map_cons,
      mem_cons, nodup_cons] <;> grind

end Exits

/-! ## The steps -/

lemma zombieChild_eq_some (h : s.zombieChild p = some q) :
    (s.proc q).parent = some p ∧ (s.proc q).state = .zombie := by
  have hq := List.find?_some h
  simpa using hq

/-- The step `a` of `p` is a `kwait` of its parent that reaps the exited process `q`. -/
def Reaps (s : Table) (p : ProcId) (a : TableAct) (q : ProcId) (s' : Table) : Prop :=
  ∃ addr copied, a = .wait addr copied ∧ (addr ≠ 0 → copied = true) ∧
    (s.proc q).parent = some p ∧ (s.proc q).state = .zombie ∧
    s' = { s.freeproc q with
      reaps := ⟨(s.proc q).serial, (s.proc q).pid,
        if addr ≠ 0 then some (s.proc q).xstate else none⟩ :: s.reaps }

/-- The outcomes of a scan of `kwait`. -/
theorem kwait_cases (addr : ℕ) (copied : Bool) :
    s.kwait p addr copied = s ∨
    s.kwait p addr copied = s.setProc p { s.proc p with state := .sleeping } ∨
    ∃ q, Reaps s p (.wait addr copied) q (s.kwait p addr copied) := by
  unfold kwait
  cases hz : s.zombieChild p with
  | some q =>
    obtain ⟨hparent, hstate⟩ := zombieChild_eq_some hz
    by_cases hfail : addr ≠ 0 ∧ copied = false
    · exact .inl (if_pos hfail)
    · refine .inr (.inr ⟨q, addr, copied, rfl, fun haddr => ?_, hparent, hstate, if_neg hfail⟩)
      simpa using not_and.mp hfail haddr
  | none =>
    by_cases hret : ¬s.HasKids p ∨ (s.proc p).killed
    · exact .inl (if_pos hret)
    · exact .inr (.inl (if_neg hret))

namespace TableInv

lemma reap (h : TableInv s) (hreap : Reaps s p a q s') : TableInv s' := by
  obtain ⟨addr, copied, -, -, hparent, hstate, rfl⟩ := hreap
  refine ⟨h.pids.freeproc.mono rfl rfl fun _ hr => ⟨hr, rfl, rfl⟩, h.parents.reap hstate,
    h.exits.reap h.pids hstate ?_⟩
  by_cases haddr : addr ≠ 0
  · exact .inr (if_pos haddr)
  · exact .inl (if_neg haddr)

lemma kexit {status : ℤ} (h : TableInv s) (hp : (s.proc p).state.Active)
    (hidle : s.place p = .idle) (hinit : p ≠ s.initproc) : TableInv (s.kexit p status) := by
  refine ⟨h.pids.mono rfl rfl fun r hr => ?_, h.parents.kexit hp hidle hinit,
    h.exits.kexit h.pids hp⟩
  simp only [Table.kexit, Table.reparent, Table.setProc, update_apply] at hr ⊢
  grind [ProcState.Active]

lemma call (h : TableInv s) (hp : (s.proc p).state = .running)
    (hcall : s.call p a = some s') : TableInv s' := by
  have hactive : (s.proc p).state.Active := .inr (.inr hp)
  cases a with
  | sched st => cases hcall
  | forkAlloc np =>
    obtain ⟨⟨hidle, hnp⟩, rfl⟩ := ite_some_none_eq_some.mp hcall
    exact ⟨h.pids.allocproc.mono rfl rfl fun _ hq => ⟨hq, rfl, rfl⟩,
      h.parents.forkAlloc hactive hidle hnp, h.exits.forkAlloc hnp⟩
  | forkFail =>
    dsimp only [call] at hcall
    split at hcall
    next np hpl =>
      cases hcall
      have hused := (h.parents.forking (p := p) (q := np) (by rw [hpl]; rfl)).2
      exact ⟨h.pids.freeproc.mono rfl rfl fun _ hq => ⟨hq, rfl, rfl⟩, h.parents.forkFail hpl,
        h.exits.forkFail hused⟩
    next => cases hcall
  | forkRelease =>
    dsimp only [call] at hcall
    split at hcall
    next np hpl =>
      cases hcall
      exact ⟨h.pids.mono rfl rfl fun _ hq => ⟨hq, rfl, rfl⟩, h.parents.forkRelease hpl,
        ⟨h.exits.exits_le, h.exits.exits_inj, h.exits.zombie, h.exits.alive, h.exits.exited,
          h.exits.reaped, h.exits.nodup⟩⟩
    next => cases hcall
  | forkParent =>
    dsimp only [call] at hcall
    split at hcall
    next np hpl =>
      cases hcall
      refine ⟨h.pids.mono rfl rfl fun q hq => ?_, h.parents.forkParent hpl, h.exits.forkParent⟩
      by_cases hqn : q = np <;> simpa [hqn] using hq
    next => cases hcall
  | forkRun =>
    dsimp only [call] at hcall
    split at hcall
    next np hpl =>
      cases hcall
      have hused := (h.parents.forking (p := p) (q := np) (by rw [hpl]; rfl)).2
      refine ⟨h.pids.mono rfl rfl fun q hq => ?_, h.parents.publish hpl, h.exits.publish hused⟩
      by_cases hqn : q = np
      · subst hqn
        simp [hused]
      · simpa [hqn] using hq
    next => cases hcall
  | exit status =>
    obtain ⟨⟨hidle, hinit⟩, rfl⟩ := ite_some_none_eq_some.mp hcall
    exact h.kexit hactive hidle hinit
  | wait addr copied =>
    obtain ⟨-, rfl⟩ := ite_some_none_eq_some.mp hcall
    rcases kwait_cases (s := s) (p := p) addr copied with heq | heq | ⟨q, hreap⟩
    · rwa [heq]
    · rw [heq]
      exact h.sched hactive (.inl rfl)
    · exact h.reap hreap
  | kill q pid =>
    obtain ⟨-, rfl⟩ := ite_some_none_eq_some.mp hcall
    exact h.kkill

lemma step (h : TableInv s) (hstep : s.exec p a = some s') : TableInv s' := by
  unfold exec at hstep
  split at hstep
  · obtain ⟨⟨hp, hst⟩, rfl⟩ := ite_some_none_eq_some.mp hstep
    exact h.sched hp hst
  · obtain ⟨hp, hcall⟩ := ite_none_right_eq_some.mp hstep
    exact h.call hp hcall

lemma of_reachable (h : processSystem.Reachable s) : TableInv s :=
  h.invariant (I := TableInv) (fun _ => tableInv_init) fun _ _ _ _ hinv hstep => hinv.step hstep

end TableInv

/-- `q` stays an exited process, with its process id and its status. -/
structure StaysZombie (s s' : Table) (q : ProcId) : Prop where
  state : (s'.proc q).state = .zombie
  serial : (s'.proc q).serial = (s.proc q).serial
  pid : (s'.proc q).pid = (s.proc q).pid
  xstate : (s'.proc q).xstate = (s.proc q).xstate

/-- Changing the entry of a process that has not exited leaves the exited processes alone. -/
theorem StaysZombie.setProc {r : ProcId} {e : Entry} (hr : (s.proc r).state ≠ .zombie)
    (hq : (s.proc q).state = .zombie) : StaysZombie s (s.setProc r e) q := by
  have hne : q ≠ r := by
    rintro rfl
    exact hr hq
  constructor <;> rw [Table.setProc_of_ne _ _ _ hne]
  exact hq

lemma StaysZombie.kkill {r : ProcId} {pid : BitVec 32} (hq : (s.proc q).state = .zombie) :
    StaysZombie s (s.kkill r pid) q := by
  unfold Table.kkill
  split_ifs with hpid hs
  · exact .setProc (by rw [hs]; simp) hq
  · by_cases hqr : q = r
    · subst hqr
      constructor <;> simp [hq]
    · constructor <;> simp [hqr, hq]
  · exact ⟨hq, rfl, rfl, rfl⟩

lemma StaysZombie.kexit {status : ℤ} (hp : (s.proc p).state ≠ .zombie)
    (hq : (s.proc q).state = .zombie) : StaysZombie s (s.kexit p status) q := by
  have hne : q ≠ p := by
    rintro rfl
    exact hp hq
  constructor <;> simp only [Table.kexit, Table.reparent, Table.setProc, update_of_ne hne] <;>
    split_ifs <;> first | rfl | exact hq

/-- A step either reaps one exited process, or leaves all of them as they are. -/
theorem reaps_or_staysZombie (h : TableInv s) (hstep : s.exec p a = some s') :
    (s'.reaps = s.reaps ∧ ∀ q, (s.proc q).state = .zombie → StaysZombie s s' q) ∨
    ∃ q, Reaps s p a q s' := by
  have hunused : ∀ {r}, (s.proc r).state = .unused → (s.proc r).state ≠ .zombie := by
    intro r hr
    rw [hr]
    simp
  have hchild : ∀ {np}, (s.place p).child = some np → (s.proc np).state ≠ .zombie := by
    intro np hnp
    rw [(h.parents.forking hnp).2]
    simp
  have hactive : ∀ {r}, (s.proc r).state.Active → (s.proc r).state ≠ .zombie := by
    rintro r (hr | hr | hr) <;> simp [hr]
  unfold exec at hstep
  split at hstep
  · obtain ⟨⟨hp, -⟩, rfl⟩ := ite_some_none_eq_some.mp hstep
    exact .inl ⟨rfl, fun q hq => .setProc (hactive hp) hq⟩
  next hne =>
  obtain ⟨hrun, hcall⟩ := ite_none_right_eq_some.mp hstep
  have hp := hactive (.inr (.inr hrun))
  cases a with
  | sched st => exact absurd rfl (hne st)
  | forkAlloc np =>
    obtain ⟨⟨-, hnp⟩, rfl⟩ := ite_some_none_eq_some.mp hcall
    refine .inl ⟨rfl, fun q hq => ?_⟩
    have hstay := StaysZombie.setProc (e := { s.proc np with
      state := .used, pid := s.nextpid, serial := s.allocated + 1 }) (hunused hnp) hq
    exact ⟨hstay.state, hstay.serial, hstay.pid, hstay.xstate⟩
  | exit status =>
    obtain ⟨-, rfl⟩ := ite_some_none_eq_some.mp hcall
    exact .inl ⟨rfl, fun q hq => .kexit hp hq⟩
  | wait addr copied =>
    obtain ⟨-, rfl⟩ := ite_some_none_eq_some.mp hcall
    rcases kwait_cases (s := s) (p := p) addr copied with heq | heq | hreap
    · rw [heq]
      exact .inl ⟨rfl, fun q hq => ⟨hq, rfl, rfl, rfl⟩⟩
    · rw [heq]
      exact .inl ⟨rfl, fun q hq => .setProc hp hq⟩
    · exact .inr hreap
  | kill r pid =>
    obtain ⟨-, rfl⟩ := ite_some_none_eq_some.mp hcall
    refine .inl ⟨?_, fun q hq => .kkill hq⟩
    unfold Table.kkill
    split_ifs <;> rfl
  | forkFail | forkRelease | forkParent | forkRun =>
    -- only the entry of the child changes
    dsimp only [call] at hcall
    split at hcall
    next np hpl =>
      cases hcall
      have hnp := hchild (by rw [hpl]; rfl)
      refine .inl ⟨rfl, fun q hq => ?_⟩
      have hne : q ≠ np := by
        rintro rfl
        exact hnp hq
      constructor <;> simp [Table.freeproc, hne, hq]
    next => cases hcall

lemma kgetnumchild_eq (h : TableInv s) (hidle : s.place p = .idle) :
    s.kgetnumchild p =
      (Finset.univ.filter fun q => (s.proc q).parent = some p ∧ (s.proc q).state.Active).card := by
  have hiff : ∀ q, ((s.proc q).state ≠ .zombie ∧ (s.proc q).parent = some p) ↔
      (s.proc q).parent = some p ∧ (s.proc q).state.Active := by
    intro q
    refine ⟨fun ⟨hz, hparent⟩ => ⟨hparent, ?_⟩, fun ⟨hparent, hactive⟩ => ⟨?_, hparent⟩⟩
    · -- an unused entry has no parent, and a used one is the child of another process's `kfork`
      cases hst : (s.proc q).state with
      | unused => rw [h.parents.unused hst] at hparent; cases hparent
      | used =>
        obtain ⟨r, hr⟩ := h.parents.used hst
        by_cases hfr : s.place r = .forkRun q
        · have hrp := (h.parents.forkRun hfr).symm.trans hparent
          cases hrp
          rw [hidle] at hfr
          cases hfr
        · rw [h.parents.unpublished hr hfr] at hparent
          cases hparent
      | zombie => exact absurd hst hz
      | sleeping => exact .inl rfl
      | runnable => exact .inr (.inl rfl)
      | running => exact .inr (.inr rfl)
    · rcases hactive with h | h | h <;> simp [h]
  have hcount : s.kgetnumchild p = (List.finRange NPROC).countP
      fun q => (s.proc q).parent = some p ∧ (s.proc q).state.Active :=
    countP_congr fun q _ => by simpa using hiff q
  rw [hcount, Finset.card_def, Finset.filter_val, Fin.univ_def, countP_eq_length_filter]
  rfl

/-! ## The whole table -/

lemma pid_inj (h : TableInv s) (hfew : s.allocated < 2 ^ 31) {r : ProcId}
    (hq : (s.proc q).state ≠ .unused) (hr : (s.proc r).state ≠ .unused)
    (heq : (s.proc q).pid = (s.proc r).pid) : q = r := by
  have hle := h.pids.serial_le hq
  have hle' := h.pids.serial_le hr
  rw [h.pids.pid_eq hq, h.pids.pid_eq hr] at heq
  refine h.pids.serial_inj hq hr ?_
  have hnat := congrArg BitVec.toNat heq
  rwa [BitVec.toNat_ofNat, BitVec.toNat_ofNat, Nat.mod_eq_of_lt (by omega),
    Nat.mod_eq_of_lt (by omega)] at hnat

/-- In every state of every run in which fewer than `2 ^ 31` process ids have been allocated:

* the ids of the processes are pairwise distinct;
* every process that is alive or has exited, other than `initproc`, has a parent that is alive, and
  an unused entry has no parent;
* no process is reaped twice, and each was reaped with the status that it passed to `kexit`;
* a process that has exited and was not reaped is a zombie with that status, which it stays until a
  `kwait` of its parent at that time reaps it, and a `kwait` that cannot copy the status out changes
  nothing;
* `kgetnumchild` returns the number of children that have not exited. -/
theorem process_table (h : processSystem.Reachable s) (hfew : s.allocated < 2 ^ 31) :
    (∀ q r, (s.proc q).state ≠ .unused → (s.proc r).state ≠ .unused →
      (s.proc q).pid = (s.proc r).pid → q = r) ∧
    (∀ q, (s.proc q).state.Active ∨ (s.proc q).state = .zombie → q ≠ s.initproc →
      ∃ r, (s.proc q).parent = some r ∧ (s.proc r).state ≠ .unused ∧
        (s.proc r).state ≠ .zombie) ∧
    (∀ q, (s.proc q).state = .unused → (s.proc q).parent = none) ∧
    (s.reaps.map Reap.serial).Nodup ∧
    (∀ r ∈ s.reaps, r.pid = BitVec.ofNat 32 r.serial ∧
      ∃! st, (r.serial, st) ∈ s.exits ∧ (r.status = none ∨ r.status = some st)) ∧
    (∀ n st, (n, st) ∈ s.exits → n ∉ s.reaps.map Reap.serial →
      ∃ q, (s.proc q).state = .zombie ∧ (s.proc q).serial = n ∧ (s.proc q).xstate = st) ∧
    (∀ p a s', s.exec p a = some s' →
      (s'.reaps = s.reaps ∧ ∀ q, (s.proc q).state = .zombie → StaysZombie s s' q) ∨
      ∃ q, Reaps s p a q s') ∧
    (∀ p addr, addr ≠ 0 → s.zombieChild p ≠ none → s.kwait p addr false = s) ∧
    ∀ p, s.place p = .idle → s.kgetnumchild p =
      (Finset.univ.filter fun q => (s.proc q).parent = some p ∧ (s.proc q).state.Active).card := by
  have hinv := TableInv.of_reachable h
  have hactive : ∀ {r}, (s.proc r).state.Active →
      (s.proc r).state ≠ .unused ∧ (s.proc r).state ≠ .zombie := by
    rintro r (hr | hr | hr) <;> simp [hr]
  refine ⟨fun q r => pid_inj hinv hfew, fun q hq hne => ?_, fun q => hinv.parents.unused,
    hinv.exits.nodup, fun r hr => ?_, fun n st hn hfresh => ?_,
    fun p a s' => reaps_or_staysZombie hinv, fun p addr haddr hz => ?_,
    fun p => kgetnumchild_eq hinv⟩
  · obtain ⟨r, hr⟩ := ne_none_iff_exists'.mp (hinv.parents.isSome hq hne)
    exact ⟨r, hr, hactive (hinv.parents.active hr)⟩
  · obtain ⟨hpid, st, hst, hstatus⟩ := hinv.exits.reaped r hr
    exact ⟨hpid, st, ⟨hst, hstatus⟩, fun st' hst' => hinv.exits.exits_inj hst'.1 hst⟩
  · obtain hreaped | ⟨q, hq, rfl⟩ := hinv.exits.exited hn
    · exact absurd hreaped hfresh
    · exact ⟨q, hq, rfl, hinv.exits.exits_inj (hinv.exits.zombie hq).1 hn⟩
  · obtain ⟨q, hq⟩ := ne_none_iff_exists'.mp hz
    simp [kwait, hq, haddr]

end Invariant

/-- The entry of the first process. -/
def init : ProcId := ⟨0, nproc_pos⟩

/-- The entry of its first child. -/
def child₁ : ProcId := ⟨1, one_lt_nproc⟩

/-- The entry of its second child. -/
def child₂ : ProcId := ⟨2, two_lt_nproc⟩

/-- The table after `userinit`. -/
def booted : Table where
  proc p := if p = init then { state := .runnable, pid := 1, serial := 1 } else {}
  nextpid := 2
  initproc := init
  place _ := .idle
  allocated := 1
  exits := []
  reaps := []

/-- `initproc` forks twice; the first child exits with status 7 and is reaped, the second exits with
status 3 and stays a zombie. -/
def twoChildren : List (ProcId × TableAct) :=
  [(init, .sched .running), (init, .forkAlloc child₁), (init, .forkRelease), (init, .forkParent),
    (init, .forkRun), (child₁, .sched .running), (init, .forkAlloc child₂), (init, .forkRelease),
    (child₁, .exit 7), (init, .forkParent), (init, .forkRun), (init, .wait 4096 false),
    (init, .wait 4096 true), (child₂, .sched .running), (child₂, .exit 3)]

/-- After the run `twoChildren` one child has been reaped, and `initproc` has no living child. -/
theorem process_table_two_children :
    ∃ s, processSystem.Reachable s ∧ s.allocated < 2 ^ 31 ∧ s.exits = [(3, 3), (2, 7)] ∧
      s.reaps.map (fun r => (r.serial, r.status)) = [(2, some 7)] ∧ s.place init = .idle ∧
      (s.reaps.map Reap.serial).Nodup ∧
      s.kgetnumchild init = (Finset.univ.filter fun q =>
        (s.proc q).parent = some init ∧ (s.proc q).state.Active).card := by
  have hrun : (twoChildren.foldlM (fun (s : Table) l => s.exec l.1 l.2) booted).any fun s =>
      s.allocated < 2 ^ 31 ∧ s.exits = [(3, 3), (2, 7)] ∧
        s.reaps.map (fun r => (r.serial, r.status)) = [(2, some 7)] ∧ s.place init = .idle := by
    decide +kernel
  have hboot : processSystem.Reachable booted :=
    .init ⟨rfl, fun p hp => if_neg hp, rfl, fun _ => rfl, rfl, rfl, rfl⟩
  obtain ⟨s, hreach, hfew, hexits, hreaps, hidle⟩ := hboot.exists_of_foldlM (fun _ _ _ => id) hrun
  obtain ⟨-, -, -, hnodup, -, -, -, -, hcount⟩ := process_table hreach hfew
  exact ⟨s, hreach, hfew, hexits, hreaps, hidle, hnodup, hcount init hidle⟩

end Xv6.Proc
