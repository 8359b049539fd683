import Xv6.Sched.Steps

/-!
# The accounting of time slices

A time slice of a process begins when the scheduler picks it with no tick used, or when a boost
resets it. `callsInSlice` and `ticksInSlice` count, over the steps that led to a state, the system
calls that the process has made and the ticks that it has been charged since then.

`Accounted` is the invariant: for a process that is RUNNING or has used a tick, the fields of its
entry in the process table are these counts. It is kept by every event, so that they agree when the
slice ends and the scheduler compares them.
-/

namespace Xv6.Sched

open Event

open VM (ProcId ProcState)

/-! ## Time slices -/

section Slice

variable {n : ℕ}

/-- The steps that led to a state, each with the state before it; the last step comes first. -/
abbrev History (n : ℕ) : Type := List (State n × Label n)

/-- A time slice of the process begins. -/
def BeginsSlice (p : ProcId) (x : State n × Label n) : Prop :=
  x.1.event x.2 = some (p, .dispatch) ∧ (x.1.proc p).ticksUsed = 0 ∨
    x.1.event x.2 = some (p, .boost) ∧ (x.1.proc p).state = .runnable

instance (p : ProcId) : DecidablePred (BeginsSlice (n := n) p) := fun x => by
  unfold BeginsSlice
  infer_instance

/-- The process makes a system call. -/
def MakesCall (p : ProcId) (x : State n × Label n) : Prop :=
  match x.1.event x.2 with
  | some (q, .syscall num) => q = p ∧ 0 < num ∧ num < NSYSCALLS
  | _ => False

instance (p : ProcId) : DecidablePred (MakesCall (n := n) p) := fun x => by
  unfold MakesCall
  split <;> infer_instance

/-- The process is charged a tick. -/
def IsCharged (p : ProcId) (x : State n × Label n) : Prop := x.1.event x.2 = some (p, .tick)

instance (p : ProcId) : DecidablePred (IsCharged (n := n) p) := fun x => by
  unfold IsCharged
  infer_instance

/-- The steps since the time slice of the process began. -/
def sinceSlice (p : ProcId) (h : History n) : History n := h.takeWhile fun x => ¬BeginsSlice p x

/-- The system calls that the process has made in its time slice. -/
def callsInSlice (p : ProcId) (h : History n) : ℕ := (sinceSlice p h).countP fun x => MakesCall p x

/-- The ticks that the process has been charged in its time slice. -/
def ticksInSlice (p : ProcId) (h : History n) : ℕ := (sinceSlice p h).countP fun x => IsCharged p x

/-- The process yields with its quantum used up. -/
def SliceEnds (s : State n) (l : Label n) (p : ProcId) : Prop :=
  (∃ level, s.event l = some (p, .sched .runnable level)) ∧
    timeQuantum (s.proc p).level ≤ (s.proc p).ticksUsed

instance (s : State n) (l : Label n) (p : ProcId) : Decidable (SliceEnds s l p) := by
  unfold SliceEnds
  infer_instance

variable {p : ProcId} {x : State n × Label n} {h : History n}

lemma callsInSlice_of_begins (hx : BeginsSlice p x) : callsInSlice p (x :: h) = 0 := by
  simp [callsInSlice, sinceSlice, hx]

lemma ticksInSlice_of_begins (hx : BeginsSlice p x) : ticksInSlice p (x :: h) = 0 := by
  simp [ticksInSlice, sinceSlice, hx]

lemma callsInSlice_cons (hx : ¬BeginsSlice p x) :
    callsInSlice p (x :: h) = callsInSlice p h + if MakesCall p x then 1 else 0 := by
  simp [callsInSlice, sinceSlice, hx, List.countP_cons]

lemma ticksInSlice_cons (hx : ¬BeginsSlice p x) :
    ticksInSlice p (x :: h) = ticksInSlice p h + if IsCharged p x then 1 else 0 := by
  simp [ticksInSlice, sinceSlice, hx, List.countP_cons]

end Slice

/-! ## The invariant -/

/-- The fields of the process are the counts of its time slice. -/
structure Accounted {n : ℕ} (p : ProcId) (h : History n) (pr : Proc) : Prop where
  calls : pr.state = .running ∨ pr.ticksUsed ≠ 0 → pr.delta = callsInSlice p h
  ticks : pr.state = .running ∨ pr.ticksUsed ≠ 0 → pr.ticksUsed = ticksInSlice p h

namespace Accounted

variable {n : ℕ} {p : ProcId} {h : History n} {pr pr' : Proc} {x : State n × Label n}

/-- Nothing is said about a process that does not run and has used no tick. -/
theorem of_idle (hs : pr.state ≠ .running) (ht : pr.ticksUsed = 0) : Accounted p h pr :=
  ⟨fun hor => absurd ht (hor.resolve_left hs), fun hor => absurd ht (hor.resolve_left hs)⟩

/-- A step that neither begins a slice nor is counted in it, and keeps the fields. -/
theorem keep (ha : Accounted p h pr) (hb : ¬BeginsSlice p x) (hc : ¬MakesCall p x)
    (ht : ¬IsCharged p x) (hdelta : pr'.delta = pr.delta) (hticks : pr'.ticksUsed = pr.ticksUsed)
    (hrun : pr'.state = .running → pr.state = .running ∨ pr.ticksUsed ≠ 0) :
    Accounted p (x :: h) pr' := by
  have hor : pr'.state = .running ∨ pr'.ticksUsed ≠ 0 → pr.state = .running ∨ pr.ticksUsed ≠ 0 :=
    fun h => h.elim hrun fun hne => .inr (hticks ▸ hne)
  refine ⟨fun h' => ?_, fun h' => ?_⟩
  · rw [hdelta, callsInSlice_cons hb, if_neg hc]
    exact ha.calls (hor h')
  · rw [hticks, ticksInSlice_cons hb, if_neg ht]
    exact ha.ticks (hor h')

variable {s s' : State n} {l : Label n} {place : Cpu} {e : Event}

section

variable (ha : Accounted p h (s.proc p))

include ha

lemma keep_of_ne (hne : ∀ e, s.event l ≠ some (p, e)) (hproc : s'.proc p = s.proc p) :
    Accounted p ((s, l) :: h) (s'.proc p) := by
  rw [hproc]
  refine ha.keep ?_ ?_ (hne _) rfl rfl .inl
  · rintro (hb | hb)
    · exact hne _ hb.1
    · exact hne _ hb.1
  · intro hc
    unfold MakesCall at hc
    split at hc
    · next q num hev => exact hne _ (hc.1 ▸ hev)
    · exact hc

lemma keep_of_event (hev : s.event l = some (p, e))
    (hdispatch : e = .dispatch → (s.proc p).ticksUsed ≠ 0)
    (hboost : e = .boost → (s.proc p).state ≠ .runnable) (hcall : ∀ num, e ≠ .syscall num)
    (htick : e ≠ .tick) (hdelta : pr'.delta = (s.proc p).delta)
    (hticks : pr'.ticksUsed = (s.proc p).ticksUsed)
    (hrun : pr'.state = .running → (s.proc p).state = .running ∨ (s.proc p).ticksUsed ≠ 0) :
    Accounted p ((s, l) :: h) pr' := by
  refine ha.keep ?_ ?_ ?_ hdelta hticks hrun
  · rintro (⟨hb, ht⟩ | ⟨hb, hr⟩) <;> rw [hev] at hb <;> cases hb
    · exact hdispatch rfl ht
    · exact hboost rfl hr
  · intro hc
    simp only [MakesCall, hev] at hc
    split at hc
    · next heq =>
      cases heq
      exact hcall _ rfl
    · exact hc
  · intro hc
    simp only [IsCharged, hev] at hc
    cases hc
    exact htick rfl

lemma dispatch (hev : s.event l = some (p, .dispatch)) :
    Accounted p ((s, l) :: h) (s.proc p).dispatch := by
  by_cases ht : (s.proc p).ticksUsed = 0
  · -- a slice begins
    have hb : BeginsSlice p (s, l) := .inl ⟨hev, ht⟩
    refine ⟨fun _ => ?_, fun _ => ?_⟩
    · rw [callsInSlice_of_begins hb]
      simp [Proc.delta, Proc.dispatch, ht]
    · rw [ticksInSlice_of_begins hb]
      exact ht
  · -- the slice goes on
    refine ha.keep_of_event hev (fun _ => ht) (by simp) (by simp) (by simp) ?_ rfl fun _ => .inr ht
    simp [Proc.delta, Proc.dispatch, ht]

lemma tick (hev : s.event l = some (p, .tick)) (hrun : (s.proc p).state = .running) :
    Accounted p ((s, l) :: h) (s.proc p).tick := by
  have hb : ¬BeginsSlice p (s, l) := by simp [BeginsSlice, hev]
  refine ⟨fun _ => ?_, fun _ => ?_⟩
  · rw [callsInSlice_cons hb, if_neg (by simp [MakesCall, hev])]
    exact ha.calls (.inl hrun)
  · have hc : IsCharged p (s, l) := hev
    rw [ticksInSlice_cons hb, if_pos hc, Nat.cast_add, ← ha.ticks (.inl hrun)]
    rfl

lemma syscall {num : ℤ} (hev : s.event l = some (p, .syscall num))
    (hrun : (s.proc p).state = .running) : Accounted p ((s, l) :: h) ((s.proc p).syscall num) := by
  have hb : ¬BeginsSlice p (s, l) := by simp [BeginsSlice, hev]
  refine ⟨fun _ => ?_, fun _ => ?_⟩
  · have hcalls := ha.calls (.inl hrun)
    rw [callsInSlice_cons hb, Nat.cast_add, ← hcalls]
    by_cases hnum : 0 < num ∧ num < NSYSCALLS
    · rw [if_pos (by simpa [MakesCall, hev] using hnum)]
      simp only [Proc.delta, Proc.syscall, if_pos hnum]
      omega
    · rw [if_neg (by simpa [MakesCall, hev] using hnum)]
      simp [Proc.syscall, hnum]
  · rw [ticksInSlice_cons hb, if_neg (by simp [IsCharged, hev]), Proc.syscall_ticksUsed]
    exact ha.ticks (.inl hrun)

lemma sched {state : ProcState} {level : Fin 4} (hev : s.event l = some (p, .sched state level))
    (hrun : (s.proc p).state = .running) (hstate : state ≠ .running) :
    Accounted p ((s, l) :: h) ((s.proc p).sched state level) := by
  by_cases hend : state = .runnable ∧ timeQuantum level ≤ (s.proc p).ticksUsed
  · exact .of_idle (by simpa using hstate) (by simp [Proc.sched, Proc.afterSwtch, hend])
  · -- the slice goes on when the process is picked again
    refine ha.keep_of_event hev (by simp) (by simp) (by simp) (by simp) ?_ ?_ fun _ => .inl hrun
    · simp [Proc.sched, Proc.afterSwtch, hend, Proc.delta]
    · simp [Proc.sched, Proc.afterSwtch, hend]

lemma outside (hev : s.event l = some (p, e)) (he : e.Outside (s.proc p)) :
    Accounted p ((s, l) :: h) (e.apply (s.proc p)) := by
  cases he with
  | boost =>
    by_cases hr : (s.proc p).state = .runnable
    · exact .of_idle (by simp [apply, Proc.priorityBoost, hr])
        (by simp [apply, Proc.priorityBoost, hr])
    · have hsame : boost.apply (s.proc p) = s.proc p := by
        simp [apply, Proc.priorityBoost, hr]
      rw [hsame]
      exact ha.keep_of_event hev (by simp) (fun _ => hr) (by simp) (by simp) rfl rfl .inl
  | wakeup =>
    by_cases hsl : (s.proc p).state = .sleeping
    · refine ha.keep_of_event hev (by simp) (by simp) (by simp) (by simp) ?_ ?_ ?_ <;>
        simp [apply, Proc.wakeup, hsl, Proc.delta]
    · have hsame : wakeup.apply (s.proc p) = s.proc p := by
        simp [apply, Proc.wakeup, hsl]
      rw [hsame]
      exact ha.keep_of_event hev (by simp) (by simp) (by simp) (by simp) rfl rfl .inl
  | allocproc => exact .of_idle (by simp [apply, Proc.allocproc]) rfl
  | ready hu =>
    exact ha.keep_of_event hev (by simp) (by simp) (by simp) (by simp) rfl rfl
      (by simp [apply, Proc.ready])
  | freeproc => exact .of_idle (by simp [apply, Proc.freeproc]) rfl

/-- Every step keeps the accounts of every process. -/
theorem turn (hs : Sound s) (ht : s.IsTurn l s' place) : Accounted p ((s, l) :: h) (s'.proc p) := by
  by_cases hp : ∃ e, s.event l = some (p, e)
  · obtain ⟨e, hev⟩ := hp
    rw [ht.proc_of_eq hev]
    have hturn := ht.turn
    rw [hev] at hturn
    cases hturn with
    | dispatch level _ hidle hel => exact ha.dispatch hev
    | tick cur _ hplace => exact ha.tick hev (hs.current (by rw [hplace]; rfl)).1
    | syscall cur num hplace => exact ha.syscall hev (hs.current (by rw [hplace]; rfl)).1
    | sched cur state hcur hstate => exact ha.sched hev (hs.current hcur).1 hstate
    | outside _ _ _ he => exact ha.outside hev he
  · exact ha.keep_of_ne (not_exists.mp hp) (ht.proc_of_ne (not_exists.mp hp))

end

/-- Every process is accounted for in every run. -/
theorem of_trace (ht : (schedSystem n).Trace (boot n) h s) : Accounted p h (s.proc p) := by
  refine ht.invariant (I := fun h s => Accounted p h (s.proc p)) ?_ ?_ (.init rfl)
  · have hb := Sound.boot (n := n)
    refine .of_idle (fun hr => ?_) ?_
    · obtain ⟨c, cur, hcur, -⟩ := hb.onCpu hr
      cases hcur
    · by_cases hp : p = 0
      · subst hp
        rfl
      · simp [boot, hp]
  · intro h s l s' hr ha hstep
    obtain ⟨place, hturn⟩ := State.isTurn_of_exec hstep
    exact ha.turn (.of_reachable hr) hturn

end Accounted

/-! ## Levels -/

section Level

variable {n : ℕ} {s s' : State n} {l : Label n} {place : Cpu} {p : ProcId}

/-- The level after the end of a slice. -/
theorem level_of_sliceEnds (hs : Sound s) (ht : s.IsTurn l s' place) (hend : SliceEnds s l p) :
    (s'.proc p).level = if (s.proc p).delta < (s.proc p).ticksUsed ∧ (s.proc p).level < 3 then
      (s.proc p).level + 1 else (s.proc p).level := by
  obtain ⟨⟨level, hev⟩, hq⟩ := hend
  have hturn := ht.turn
  rw [hev] at hturn
  have hlevel : (s.proc p).level = level.val := by
    cases hturn with
    | sched cur _ hcur => exact (hs.current hcur).2
    | outside _ _ _ he => cases he
  rw [ht.proc_of_eq hev]
  rw [hlevel] at hq
  change ((s.proc p).sched .runnable level).level = _
  unfold Proc.sched Proc.afterSwtch
  rw [if_pos ⟨rfl, hq⟩]
  rfl

/-- The events that set the level to 0: a boost, and the beginning and the end of a process. -/
def ResetsLevel (s : State n) (l : Label n) (p : ProcId) : Prop :=
  s.event l = some (p, .boost) ∧ (s.proc p).state = .runnable ∨ s.event l = some (p, .allocproc) ∨
    s.event l = some (p, .freeproc)

lemma level_of_not_sliceEnds (hs : Sound s) (ht : s.IsTurn l s' place)
    (hend : ¬SliceEnds s l p) :
    ResetsLevel s l p ∧ (s'.proc p).level = 0 ∨
      ¬ResetsLevel s l p ∧ (s'.proc p).level = (s.proc p).level := by
  by_cases hp : ∃ e, s.event l = some (p, e)
  · obtain ⟨e, hev⟩ := hp
    have hturn := ht.turn
    rw [ht.proc_of_eq hev]
    rw [hev] at hturn
    simp only [ResetsLevel, hev]
    cases hturn with
    | dispatch | tick => exact .inr ⟨by simp, rfl⟩
    | syscall cur num => exact .inr ⟨by simp, by simp [apply]⟩
    | sched cur state hcur hstate =>
      refine .inr ⟨by simp, ?_⟩
      -- a slice that does not end leaves the entry as it is, up to the state
      have hnot : ¬(state = .runnable ∧ timeQuantum cur.level.val ≤ (s.proc cur.p).ticksUsed) := by
        rintro ⟨rfl, hq⟩
        exact hend ⟨⟨_, hev⟩, by rwa [(hs.current hcur).2]⟩
      simp [apply, Proc.sched, Proc.afterSwtch, hnot]
    | outside _ _ _ he =>
      cases he with
      | boost =>
        by_cases hr : (s.proc p).state = .runnable
        · exact .inl ⟨.inl ⟨rfl, hr⟩, by simp [apply, Proc.priorityBoost, hr]⟩
        · exact .inr ⟨by simp [hr], by simp [apply, Proc.priorityBoost, hr]⟩
      | wakeup =>
        refine .inr ⟨by simp, ?_⟩
        unfold apply Proc.wakeup
        split_ifs <;> rfl
      | allocproc | freeproc => exact .inl ⟨by simp, rfl⟩
      | ready => exact .inr ⟨by simp, rfl⟩
  · refine .inr ⟨?_, by rw [ht.proc_of_ne (not_exists.mp hp)]⟩
    rintro (⟨hev, -⟩ | hev | hev) <;> exact hp ⟨_, hev⟩

end Level

/-- In every run on any number of CPUs: levels are between 0 and 3; the ticks of a process are below
its quantum, up to which a RUNNING process may get; at the end of a slice the scheduler compares the
number of system calls with the number of ticks of the slice, and the level rises by one exactly if
there were fewer calls and the level is not the last; and no other event changes the level, but for
boosts and the beginning and end of the process, which set it to 0. -/
theorem mlfq_accounting {n : ℕ} {h : History n} {s : State n}
    (ht : (schedSystem n).Trace (boot n) h s) :
    (∀ p, 0 ≤ (s.proc p).level ∧ (s.proc p).level ≤ 3) ∧
    (∀ p, (s.proc p).state ≠ .running →
      0 ≤ (s.proc p).ticksUsed ∧ (s.proc p).ticksUsed < timeQuantum (s.proc p).level) ∧
    (∀ p, (s.proc p).state = .running → (s.proc p).ticksUsed ≤ timeQuantum (s.proc p).level) ∧
    ∀ l s', (schedSystem n).step s l s' → ∀ p,
      (SliceEnds s l p →
        (s.proc p).delta = callsInSlice p h ∧ (s.proc p).ticksUsed = ticksInSlice p h ∧
        (s'.proc p).level = if (s.proc p).delta < (s.proc p).ticksUsed ∧ (s.proc p).level < 3 then
          (s.proc p).level + 1 else (s.proc p).level) ∧
      (¬SliceEnds s l p → ResetsLevel s l p ∧ (s'.proc p).level = 0 ∨
        ¬ResetsLevel s l p ∧ (s'.proc p).level = (s.proc p).level) := by
  have hs : Sound s := .of_reachable (ht.reachable (.init rfl))
  refine ⟨fun p => ⟨(hs.bounds p).level_nonneg, (hs.bounds p).level_le⟩,
    fun p hr => ⟨(hs.bounds p).ticks_nonneg, (hs.bounds p).ticks_lt hr⟩,
    fun p _ => (hs.bounds p).ticks_le, fun l s' hstep p => ?_⟩
  obtain ⟨place, hturn⟩ := State.isTurn_of_exec hstep
  refine ⟨fun hend => ?_, level_of_not_sliceEnds hs hturn⟩
  -- a process that yields is RUNNING, so its accounts are kept
  have ha : Accounted p h (s.proc p) := .of_trace ht
  have hrun : (s.proc p).state = .running := by
    obtain ⟨⟨level, hev⟩, -⟩ := hend
    have hturn := hturn.turn
    rw [hev] at hturn
    cases hturn with
    | sched cur _ hcur => exact (hs.current hcur).1
    | outside _ _ _ he => cases he
  exact ⟨ha.calls (.inl hrun), ha.ticks (.inl hrun), level_of_sliceEnds hs hturn hend⟩

/-- The first process is picked, makes a system call and is charged two ticks, its quantum. -/
def firstSlice : List (Label 1) :=
  [(0, .go), (0, .go), (0, .syscall 1), (0, .timer)] ++
    -- `NPROC` entries without a process of higher priority, then the end of the interrupt
    List.replicate (NPROC + 3) (0, .go) ++ [(0, .timer), (0, .go)]

theorem mlfq_accounting_first_slice : ∃ h s s', (schedSystem 1).Trace (boot 1) h s ∧
    (schedSystem 1).step s (0, .go) s' ∧ SliceEnds s (0, .go) 0 ∧
    callsInSlice 0 h = 1 ∧ ticksInSlice 0 h = 2 ∧ (s'.proc 0).level = 1 := by
  have hrun : ((firstSlice.foldlM (TransitionSystem.Trace.record fun s l => s.exec l.1 l.2)
      ([], boot 1)).any fun x => (x.2.exec 0 .go).isSome ∧ SliceEnds x.2 (0, .go) 0 ∧
        callsInSlice 0 x.1 = 1 ∧ ticksInSlice 0 x.1 = 2 ∧ (x.2.proc 0).level = 0) := by
    decide +kernel
  obtain ⟨⟨h, s⟩, hfold, hx⟩ := Option.any_eq_true _ _ |>.mp hrun
  simp only [decide_eq_true_eq] at hx
  obtain ⟨hsome, hend, hcalls, hticks, hlevel⟩ := hx
  obtain ⟨s', hs'⟩ := Option.isSome_iff_exists.mp hsome
  have ht : (schedSystem 1).Trace (boot 1) h s := .of_foldlM (fun _ _ _ => id) hfold
  obtain ⟨hdelta, hused, hnew⟩ := ((mlfq_accounting ht).2.2.2 (0, .go) s' hs' 0).1 hend
  refine ⟨h, s, s', ht, hs', hend, hcalls, hticks, ?_⟩
  rw [hnew, hdelta, hused, hcalls, hticks, hlevel]
  rfl

end Xv6.Sched
