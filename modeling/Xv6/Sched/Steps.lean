import Xv6.Sched.Model

/-!
# What a step of the scheduler does

Every step changes at most one entry of the process table. `State.event` says which entry and how,
and `State.turn` describes the step: the event, the place to which the CPU goes, and what is known
before the step. The invariants of the scheduler follow from this description; the definitions of
the steps are not unfolded again.

## Main results

* `State.turn`: the description of a step.
* `Sound.of_reachable`: a CPU runs a process that is RUNNING, at the level from which it was picked;
  no two CPUs run the same process; and levels and ticks are in bounds.
-/

namespace Xv6.Sched

open Function Cpu

open VM (ProcId ProcState)

/-! ## Events -/

/-- A change of an entry of the process table. -/
inductive Event where
  | dispatch
  | tick
  | syscall (num : ℤ)
  | sched (state : ProcState) (level : Fin 4)
  | boost
  | wakeup
  | allocproc
  | ready
  | freeproc
  deriving DecidableEq

/-- The entry after the event. -/
def Event.apply (pr : Proc) : Event → Proc
  | .dispatch => pr.dispatch
  | .tick => pr.tick
  | .syscall num => pr.syscall num
  | .sched state level => pr.sched state level
  | .boost => pr.priorityBoost
  | .wakeup => pr.wakeup
  | .allocproc => Proc.allocproc
  | .ready => pr.ready
  | .freeproc => Proc.freeproc

/-- An event that is not caused by the process itself. -/
inductive Event.Outside (pr : Proc) : Event → Prop
  | boost : Outside pr .boost
  | wakeup : Outside pr .wakeup
  | allocproc : pr.state = .unused → Outside pr .allocproc
  | ready : pr.state = .used → Outside pr .ready
  | freeproc : pr.state = .used ∨ pr.state = .zombie → Outside pr .freeproc

/-- The places from which a process may sleep or exit without having been preempted before: the
quantum of the process is not used up. -/
def Cpu.MayLeave : Cpu → Prop
  | .running _ => True
  | .lookHigher _ _ _ => True
  | .globalTick cur shouldYield => cur.isSome ∧ shouldYield = false
  | .trapEnd cur shouldYield => cur.isSome ∧ shouldYield = false
  | _ => False

namespace State

variable {n : ℕ} (s : State n)

/-- The entry of the process table that a step changes, and how. -/
def event : Label n → Option (ProcId × Event)
  | (c, .go) =>
    match s.cpu c with
    | .scan level (i :: _) => if (s.proc i).Eligible level then some (i, .dispatch) else none
    | .boost _ (i :: _) => some (i, .boost)
    | .trapEnd (some cur) true => some (cur.p, .sched .runnable cur.level)
    | _ => none
  | (c, .timer) => (s.runningProc c).map fun cur => (cur.p, .tick)
  | (c, .syscall num) => (s.runningProc c).map fun cur => (cur.p, .syscall num)
  | (c, .sleep) => (s.runningProc c).map fun cur => (cur.p, .sched .sleeping cur.level)
  | (c, .kexit) => (s.runningProc c).map fun cur => (cur.p, .sched .zombie cur.level)
  | (_, .wakeup q) => some (q, .wakeup)
  | (_, .allocproc q) => some (q, .allocproc)
  | (_, .ready q) => some (q, .ready)
  | (_, .freeproc q) => some (q, .freeproc)

/-- The process table after an event. -/
def procAfter : Option (ProcId × Event) → ProcId → Proc
  | none => s.proc
  | some (p, e) => update s.proc p (e.apply (s.proc p))

/-- `Turn s c e place`: the CPU may go to `place` with the event `e`. -/
inductive Turn (c : Fin n) : Option (ProcId × Event) → Cpu → Prop
  /-- The process table is not changed. -/
  | control (place : Cpu) (hcur : place.current = (s.cpu c).current)
      (hleave : place.MayLeave → (s.cpu c).MayLeave) : Turn c none place
  | dispatch (level : Fin 4) (i : ProcId) (hidle : (s.cpu c).current = none)
      (hel : (s.proc i).Eligible level) : Turn c (some (i, .dispatch)) (.running ⟨i, level⟩)
  | tick (cur : Current) (place : Cpu) (hplace : s.cpu c = .running cur)
      (hcur : place.current = some cur) (hleave : place.MayLeave →
        (s.proc cur.p).ticksUsed + 1 < timeQuantum (s.proc cur.p).level) :
      Turn c (some (cur.p, .tick)) place
  | syscall (cur : Current) (num : ℤ) (hplace : s.cpu c = .running cur) :
      Turn c (some (cur.p, .syscall num)) (.running cur)
  /-- A process that sleeps or exits comes from a place where it may. -/
  | sched (cur : Current) (state : ProcState) (hcur : (s.cpu c).current = some cur)
      (hstate : state ≠ .running) (hleave : state ≠ .runnable → (s.cpu c).MayLeave) :
      Turn c (some (cur.p, .sched state cur.level)) .scheduler
  | outside (q : ProcId) (e : Event) (place : Cpu) (he : e.Outside (s.proc q))
      (hcur : place.current = (s.cpu c).current)
      (hleave : place.MayLeave → (s.cpu c).MayLeave) : Turn c (some (q, e)) place

variable {s} {s' : State n} {c : Fin n} {a : Action}

@[simp]
lemma goto_cpu (place : Cpu) : (s.goto c place).cpu = update s.cpu c place := rfl

@[simp]
lemma modify_cpu (p : ProcId) (f : Proc → Proc) : (s.modify p f).cpu = s.cpu := rfl

lemma runningProc_eq_some {cur : Current} :
    s.runningProc c = some cur ↔ s.cpu c = .running cur := by
  unfold runningProc
  cases s.cpu c <;> simp

/-- What a step is made of. -/
structure IsTurn (s : State n) (l : Label n) (s' : State n) (place : Cpu) : Prop where
  turn : s.Turn l.1 (s.event l) place
  cpu : s'.cpu = update s.cpu l.1 place
  proc : s'.proc = s.procAfter (s.event l)

/-- A step that leaves the process table alone. -/
theorem isTurn_control {l : Label n} {here place : Cpu} (hc : s.cpu l.1 = here)
    (he : s.event l = none) (hcpu : s'.cpu = update s.cpu l.1 place) (hproc : s'.proc = s.proc)
    (hcur : place.current = here.current) (hleave : place.MayLeave → here.MayLeave) :
    ∃ place, IsTurn s l s' place := by
  subst hc
  exact ⟨place, by rw [he]; exact .control place hcur hleave, hcpu, by rw [he]; exact hproc⟩

lemma isTurn_event {l : Label n} {place : Cpu} {pe : ProcId × Event} (he : s.event l = some pe)
    (ht : s.Turn l.1 (some pe) place) (hcpu : s'.cpu = update s.cpu l.1 place)
    (hproc : s'.proc = s.procAfter (some pe)) : ∃ place, IsTurn s l s' place :=
  ⟨place, by rwa [he], hcpu, by rwa [he]⟩

/-- The description of the steps of a CPU that does not take interrupts. -/
theorem turn_go (h : s.go c = some s') : ∃ place, IsTurn s (c, .go) s' place := by
  -- one case for every place of the CPU; the place after the step is read off the definition
  unfold go at h
  cases hc : s.cpu c with rw [hc] at h
  | scheduler =>
    cases h
    exact isTurn_control hc (by simp [event, hc]) rfl rfl rfl False.elim
  | scan level rest =>
    cases rest with
    | nil =>
      dsimp only at h
      split at h <;> cases h <;>
        exact isTurn_control hc (by simp [event, hc]) rfl rfl rfl False.elim
    | cons i rest =>
      dsimp only at h
      split_ifs at h with hel <;> cases h
      · exact isTurn_event (by simp [event, hc, hel])
          (.dispatch level i (by simp [hc, current]) hel) rfl rfl
      · exact isTurn_control hc (by simp [event, hc, hel]) rfl rfl rfl False.elim
  | running cur => cases h
  | lookHigher cur currLevel rest =>
    cases rest with
    | nil =>
      cases h
      exact isTurn_control hc (by simp [event, hc]) rfl rfl rfl fun _ => trivial
    | cons temp rest =>
      dsimp only at h
      split_ifs at h <;> cases h <;>
        exact isTurn_control hc (by simp [event, hc]) rfl rfl rfl fun _ => trivial
  | globalTick cur shouldYield =>
    dsimp only at h
    split_ifs at h <;> cases h <;>
      exact isTurn_control hc (by simp [event, hc]) rfl rfl rfl (by simp [MayLeave])
  | boost cur rest =>
    cases rest with
    | nil =>
      cases h
      exact isTurn_control hc (by simp [event, hc]) rfl rfl rfl (by simp [MayLeave])
    | cons i rest =>
      cases h
      exact isTurn_event (by simp [event, hc])
        (.outside i .boost (boost cur rest) .boost (by simp [hc, current]) False.elim) rfl rfl
  | trapEnd cur shouldYield =>
    cases cur with
    | none =>
      cases h
      exact isTurn_control hc (by simp [event, hc]) rfl rfl rfl False.elim
    | some cur =>
      cases shouldYield with
      | false =>
        cases h
        exact isTurn_control hc (by simp [event, hc]) rfl rfl rfl fun _ => ⟨rfl, rfl⟩
      | true =>
        cases h
        exact isTurn_event (by simp [event, hc])
          (.sched cur .runnable (by simp [hc, current]) (by decide) (by simp)) rfl rfl

lemma turn_timer (h : s.timer c = some s') : ∃ place, IsTurn s (c, .timer) s' place := by
  unfold timer at h
  cases hc : s.cpu c with rw [hc] at h
  | scheduler =>
    cases h
    exact isTurn_control hc (by simp [event, runningProc, hc]) rfl rfl rfl (by simp [MayLeave])
  | running cur =>
    cases h
    refine isTurn_event (by simp [event, runningProc_eq_some.mpr hc])
      (.tick cur _ hc ?_ fun hleave => ?_) rfl rfl
    · split_ifs <;> rfl
    · -- the place is one where the process may leave only if the quantum is not used up
      by_contra hq
      have hused : timeQuantum (s.proc cur.p).tick.level ≤ (s.proc cur.p).tick.ticksUsed :=
        not_lt.mp hq
      simp [hused, MayLeave] at hleave
  | _ => cases h

/-- A step in which the CPU stays where it is and another process is changed. -/
theorem isTurn_outside {l : Label n} {q : ProcId} {e : Event} (hev : s.event l = some (q, e))
    (he : e.Outside (s.proc q)) (hcpu : s'.cpu = s.cpu)
    (hproc : s'.proc = s.procAfter (some (q, e))) : ∃ place, IsTurn s l s' place := by
  refine isTurn_event hev (.outside q e (s.cpu l.1) he rfl id) ?_ hproc
  rw [hcpu, update_eq_self]

/-- The description of a step. -/
theorem isTurn_of_exec (h : s.exec c a = some s') : ∃ place, IsTurn s (c, a) s' place := by
  cases a with
  | go => exact turn_go h
  | timer => exact turn_timer h
  | syscall num =>
    obtain ⟨cur, hcur, h⟩ := Option.bind_eq_some_iff.mp h
    cases h
    have hc := runningProc_eq_some.mp hcur
    refine isTurn_event (by simp [event, hcur]) (.syscall cur num hc) ?_ rfl
    rw [modify_cpu, ← hc, update_eq_self]
  | sleep | kexit =>
    obtain ⟨cur, hcur, h⟩ := Option.bind_eq_some_iff.mp h
    cases h
    have hc := runningProc_eq_some.mp hcur
    exact isTurn_event (by simp [event, hcur])
      (.sched cur _ (by simp [hc, current]) (by decide) (by simp [hc, MayLeave])) rfl rfl
  | wakeup q =>
    simp only [exec] at h
    split_ifs at h
    cases h
    exact isTurn_outside rfl .wakeup rfl rfl
  | allocproc q =>
    simp only [exec] at h
    split_ifs at h with hq
    cases h
    exact isTurn_outside rfl (.allocproc hq.2) rfl rfl
  | ready q =>
    simp only [exec] at h
    split_ifs at h with hq
    cases h
    exact isTurn_outside rfl (.ready hq.2) rfl rfl
  | freeproc q =>
    simp only [exec] at h
    split_ifs at h with hq
    cases h
    exact isTurn_outside rfl (.freeproc hq.2) rfl rfl

lemma IsTurn.proc_of_ne {l : Label n} {place : Cpu} (h : IsTurn s l s' place) {p : ProcId}
    (hp : ∀ e, s.event l ≠ some (p, e)) : s'.proc p = s.proc p := by
  rw [h.proc]
  cases hev : s.event l with
  | none => rfl
  | some pe =>
    have hne : p ≠ pe.1 := fun heq => hp pe.2 (by rw [hev, heq])
    exact update_of_ne hne _ _

lemma IsTurn.proc_of_eq {l : Label n} {place : Cpu} (h : IsTurn s l s' place) {p : ProcId}
    {e : Event} (hev : s.event l = some (p, e)) : s'.proc p = e.apply (s.proc p) := by
  rw [h.proc, hev]
  exact update_self _ _ _

end State

/-! ## Levels and ticks -/

lemma timeQuantum_pos {level : ℤ} (h : 0 ≤ level) (h' : level ≤ 3) : 0 < timeQuantum level := by
  interval_cases level <;> decide

/-- The bounds of the accounting of a process. -/
structure Proc.InBounds (pr : Proc) : Prop where
  level_nonneg : 0 ≤ pr.level
  level_le : pr.level ≤ 3
  ticks_nonneg : 0 ≤ pr.ticksUsed
  ticks_le : pr.ticksUsed ≤ timeQuantum pr.level
  ticks_lt : pr.state ≠ .running → pr.ticksUsed < timeQuantum pr.level

namespace Proc.InBounds

variable {pr : Proc} {state : ProcState} {level : Fin 4} {num : ℤ} {e : Event}

lemma of_reset (hl : pr.level = 0) (ht : pr.ticksUsed = 0) : pr.InBounds where
  level_nonneg := hl.ge
  level_le := by omega
  ticks_nonneg := ht.ge
  ticks_le := by rw [hl, ht]; decide
  ticks_lt _ := by rw [hl, ht]; decide

lemma dispatch (h : pr.InBounds) : pr.dispatch.InBounds :=
  ⟨h.1, h.2, h.3, h.4, fun hne => absurd rfl hne⟩

lemma tick (h : pr.InBounds) (hr : pr.state = .running)
    (hlt : pr.ticksUsed < timeQuantum pr.level) : pr.tick.InBounds :=
  ⟨h.1, h.2, Int.add_nonneg h.3 zero_le_one, hlt, fun hne => absurd hr hne⟩

lemma syscall (h : pr.InBounds) : (pr.syscall num).InBounds := by
  unfold Proc.syscall
  split_ifs
  · exact ⟨h.1, h.2, h.3, h.4, h.5⟩
  · exact h

/-- A process that has used up its quantum starts a new slice; it sleeps or exits only if it has
not. -/
theorem sched (h : pr.InBounds) (hl : pr.level = level.val)
    (hlt : state ≠ .runnable → pr.ticksUsed < timeQuantum pr.level) :
    (pr.sched state level).InBounds := by
  unfold Proc.sched Proc.afterSwtch
  have hnonneg := h.level_nonneg
  have hle := h.level_le
  split_ifs with hend hdemote
  · have hpos : 0 < timeQuantum (pr.level + 1) :=
      timeQuantum_pos (by omega) (by have := hdemote.2; simp only at this; omega)
    exact ⟨by simp only; omega, hdemote.2, le_rfl, hpos.le, fun _ => hpos⟩
  · have hpos := timeQuantum_pos hnonneg hle
    exact ⟨hnonneg, hle, le_rfl, hpos.le, fun _ => hpos⟩
  · refine ⟨hnonneg, hle, h.3, h.4, fun _ => ?_⟩
    -- either the process was preempted before the end of its quantum, or it may leave
    by_cases hs : state = .runnable
    · rw [not_and, not_le, ← hl] at hend
      exact hend hs
    · exact hlt hs

lemma outside (h : pr.InBounds) (he : e.Outside pr) : (e.apply pr).InBounds := by
  cases he with
  | boost =>
    unfold Event.apply Proc.priorityBoost
    split_ifs
    · exact .of_reset rfl rfl
    · exact h
  | wakeup =>
    unfold Event.apply Proc.wakeup
    split_ifs with hs
    · exact ⟨h.1, h.2, h.3, h.4, fun _ => h.5 (by rw [hs]; decide)⟩
    · exact h
  | allocproc | freeproc => exact .of_reset rfl rfl
  | ready hs => exact ⟨h.1, h.2, h.3, h.4, fun _ => h.5 (by rw [hs]; decide)⟩

end Proc.InBounds

namespace Event.Outside

variable {pr : Proc} {e : Event}

/-- A running process is changed by none but itself. -/
theorem apply_of_running (he : e.Outside pr) (hr : pr.state = .running) : e.apply pr = pr := by
  cases he with
  | boost => simp [Event.apply, Proc.priorityBoost, hr]
  | wakeup => simp [Event.apply, Proc.wakeup, hr]
  | allocproc h | ready h | freeproc h => simp [hr] at h

lemma state_ne_running (he : e.Outside pr) (hr : pr.state ≠ .running) :
    (e.apply pr).state ≠ .running := by
  cases he with
  | boost =>
    unfold Event.apply Proc.priorityBoost
    split_ifs <;> exact hr
  | wakeup =>
    unfold Event.apply Proc.wakeup
    split_ifs
    · simp
    · exact hr
  | allocproc | ready | freeproc => simp [Event.apply, Proc.allocproc, Proc.ready, Proc.freeproc]

end Event.Outside

@[simp]
lemma Proc.sched_state (pr : Proc) (state : ProcState) (level : Fin 4) :
    (pr.sched state level).state = state := by
  unfold Proc.sched Proc.afterSwtch
  split_ifs <;> rfl

@[simp]
lemma Proc.syscall_state (pr : Proc) (num : ℤ) : (pr.syscall num).state = pr.state := by
  unfold Proc.syscall
  split_ifs <;> rfl

@[simp]
lemma Proc.syscall_level (pr : Proc) (num : ℤ) : (pr.syscall num).level = pr.level := by
  unfold Proc.syscall
  split_ifs <;> rfl

@[simp]
lemma Proc.syscall_ticksUsed (pr : Proc) (num : ℤ) :
    (pr.syscall num).ticksUsed = pr.ticksUsed := by
  unfold Proc.syscall
  split_ifs <;> rfl

/-! ## The invariant -/

/-- The CPUs and the process table agree. -/
structure Sound {n : ℕ} (s : State n) : Prop where
  /-- A CPU runs a process that is RUNNING, at the level from which it was picked. -/
  current : ∀ {c cur}, (s.cpu c).current = some cur →
    (s.proc cur.p).state = .running ∧ (s.proc cur.p).level = cur.level.val
  /-- A process that may sleep or exit has not used up its quantum. -/
  mayLeave : ∀ {c cur}, (s.cpu c).current = some cur → (s.cpu c).MayLeave →
    (s.proc cur.p).ticksUsed < timeQuantum (s.proc cur.p).level
  /-- No two CPUs run the same process. -/
  distinct : ∀ {c c' cur cur'}, (s.cpu c).current = some cur → (s.cpu c').current = some cur' →
    cur.p = cur'.p → c = c'
  /-- A process that is RUNNING is on some CPU. -/
  onCpu : ∀ {p}, (s.proc p).state = .running → ∃ c cur, (s.cpu c).current = some cur ∧ cur.p = p
  bounds : ∀ p, (s.proc p).InBounds

namespace Sound

variable {n : ℕ} {s s' : State n} {c : Fin n} {place : Cpu}

lemma boot : Sound (boot n) where
  current h := by cases h
  mayLeave h := by cases h
  distinct h := by cases h
  onCpu {p} h := by
    -- the first process is RUNNABLE, the others are UNUSED
    unfold Sched.boot at h
    by_cases hp : p = 0
    · simp [hp, Proc.ready] at h
    · simp [hp] at h
  bounds p := by
    unfold Sched.boot
    by_cases hp : p = 0
    · subst hp
      exact .of_reset rfl rfl
    · simp only [update_of_ne hp]
      exact .of_reset rfl rfl

/-- A step in which the CPU keeps its process, and no process starts or stops running. -/
theorem keep (h : Sound s) (hcpu : s'.cpu = update s.cpu c place)
    (hcur : place.current = (s.cpu c).current)
    (hstate : ∀ p, (s'.proc p).state = .running ↔ (s.proc p).state = .running)
    (hlevel : ∀ p, (s.proc p).state = .running → (s'.proc p).level = (s.proc p).level)
    (hleave : ∀ c' cur, (s.cpu c').current = some cur → (s'.cpu c').MayLeave →
      (s'.proc cur.p).ticksUsed < timeQuantum (s'.proc cur.p).level)
    (hbounds : ∀ p, (s'.proc p).InBounds) : Sound s' := by
  have hsame : ∀ c', (s'.cpu c').current = (s.cpu c').current := by
    intro c'
    rw [hcpu]
    by_cases hc : c' = c
    · subst hc
      rw [update_self, hcur]
    · rw [update_of_ne hc]
  refine ⟨fun {c' cur} hc => ?_, fun {c' cur} hc => ?_, fun {c₁ c₂ cur cur'} hc hc' => ?_,
    fun {p} hp => ?_, hbounds⟩
  · rw [hsame] at hc
    obtain ⟨hrun, hl⟩ := h.current hc
    exact ⟨(hstate _).mpr hrun, (hlevel _ hrun).trans hl⟩
  · exact hleave _ _ ((hsame c').symm.trans hc)
  · exact h.distinct ((hsame c₁).symm.trans hc) ((hsame c₂).symm.trans hc')
  · obtain ⟨c', cur, hc, hp⟩ := h.onCpu ((hstate p).mp hp)
    exact ⟨c', cur, (hsame c').trans hc, hp⟩

lemma dispatch (h : Sound s) {i : ProcId} {level : Fin 4} (hidle : (s.cpu c).current = none)
    (hel : (s.proc i).Eligible level)
    (hcpu : s'.cpu = update s.cpu c (.running ⟨i, level⟩))
    (hproc : s'.proc = update s.proc i (s.proc i).dispatch) : Sound s' := by
  have hi : s'.proc i = (s.proc i).dispatch := by rw [hproc, update_self]
  have hne : ∀ p, p ≠ i → s'.proc p = s.proc p := fun p hp => by
    rw [hproc, update_of_ne hp]
  have hc : s'.cpu c = .running ⟨i, level⟩ := by rw [hcpu, update_self]
  have hcne : ∀ c', c' ≠ c → s'.cpu c' = s.cpu c' := fun c' hc' => by
    rw [hcpu, update_of_ne hc']
  -- the process is RUNNABLE, so no CPU runs it
  have hfree : ∀ {c' cur}, (s.cpu c').current = some cur → cur.p ≠ i := by
    rintro c' cur hc' rfl
    have hrun := (h.current hc').1
    rw [hel.1] at hrun
    cases hrun
  -- a CPU of the new state is the one that picked the process, or as it was
  have hcases : ∀ {c' cur}, (s'.cpu c').current = some cur →
      c' = c ∧ cur = ⟨i, level⟩ ∨ c' ≠ c ∧ (s.cpu c').current = some cur := by
    intro c' cur hcur
    by_cases hc' : c' = c
    · subst hc'
      rw [hc] at hcur
      exact .inl ⟨rfl, (Option.some.inj hcur).symm⟩
    · rw [hcne c' hc'] at hcur
      exact .inr ⟨hc', hcur⟩
  refine ⟨fun {c' cur} hcur => ?_, fun {c' cur} hcur hleave => ?_,
    fun {c₁ c₂ cur cur'} hcur hcur' hp => ?_, fun {p} hp => ?_, fun p => ?_⟩
  · obtain ⟨-, rfl⟩ | ⟨-, hcur⟩ := hcases hcur
    · rw [hi]
      exact ⟨rfl, hel.2⟩
    · rw [hne _ (hfree hcur)]
      exact h.current hcur
  · obtain ⟨-, rfl⟩ | ⟨hc', hcur⟩ := hcases hcur
    · rw [hi]
      exact (h.bounds i).ticks_lt (by rw [hel.1]; decide)
    · rw [hne _ (hfree hcur)]
      rw [hcne _ hc'] at hleave
      exact h.mayLeave hcur hleave
  · obtain ⟨rfl, rfl⟩ | ⟨-, hcur⟩ := hcases hcur <;>
      obtain ⟨rfl, rfl⟩ | ⟨-, hcur'⟩ := hcases hcur'
    · rfl
    · exact absurd hp.symm (hfree hcur')
    · exact absurd hp (hfree hcur)
    · exact h.distinct hcur hcur' hp
  · by_cases hpi : p = i
    · exact ⟨c, ⟨i, level⟩, by rw [hc]; rfl, hpi.symm⟩
    · rw [hne p hpi] at hp
      obtain ⟨c', cur, hcur, hp⟩ := h.onCpu hp
      have hc' : c' ≠ c := by
        rintro rfl
        rw [hidle] at hcur
        cases hcur
      exact ⟨c', cur, by rw [hcne c' hc']; exact hcur, hp⟩
  · by_cases hpi : p = i
    · rw [hpi, hi]
      exact (h.bounds i).dispatch
    · rw [hne p hpi]
      exact h.bounds p

/-- A process switches to the scheduler. -/
theorem sched (h : Sound s) {cur : Current} {state : ProcState}
    (hcur : (s.cpu c).current = some cur) (hstate : state ≠ .running)
    (hleave : state ≠ .runnable → (s.cpu c).MayLeave)
    (hcpu : s'.cpu = update s.cpu c .scheduler)
    (hproc : s'.proc = update s.proc cur.p ((s.proc cur.p).sched state cur.level)) :
    Sound s' := by
  have hi : s'.proc cur.p = (s.proc cur.p).sched state cur.level := by
    rw [hproc, update_self]
  have hne : ∀ p, p ≠ cur.p → s'.proc p = s.proc p := fun p hp => by
    rw [hproc, update_of_ne hp]
  -- the CPU runs no process any more, and the others run other processes
  have hcases : ∀ {c' cur'}, (s'.cpu c').current = some cur' →
      (s.cpu c').current = some cur' ∧ s'.cpu c' = s.cpu c' ∧ cur'.p ≠ cur.p := by
    intro c' cur' hcur'
    have hc' : c' ≠ c := by
      rintro rfl
      rw [hcpu, update_self] at hcur'
      cases hcur'
    have hsame : s'.cpu c' = s.cpu c' := by rw [hcpu, update_of_ne hc']
    rw [hsame] at hcur'
    exact ⟨hcur', hsame, fun hp => hc' (h.distinct hcur' hcur hp)⟩
  refine ⟨fun {c' cur'} hcur' => ?_, fun {c' cur'} hcur' hmay => ?_,
    fun {c₁ c₂ cur₁ cur₂} hcur₁ hcur₂ => ?_, fun {p} hp => ?_, fun p => ?_⟩
  · obtain ⟨hold, -, hp⟩ := hcases hcur'
    rw [hne _ hp]
    exact h.current hold
  · obtain ⟨hold, hsame, hp⟩ := hcases hcur'
    rw [hne _ hp]
    rw [hsame] at hmay
    exact h.mayLeave hold hmay
  · exact h.distinct (hcases hcur₁).1 (hcases hcur₂).1
  · by_cases hpi : p = cur.p
    · rw [hpi, hi, Proc.sched_state] at hp
      exact absurd hp hstate
    · rw [hne p hpi] at hp
      obtain ⟨c', cur', hcur', hp⟩ := h.onCpu hp
      have hc' : c' ≠ c := by
        rintro rfl
        rw [hcur] at hcur'
        cases hcur'
        exact hpi hp.symm
      exact ⟨c', cur', by rw [hcpu, update_of_ne hc']; exact hcur', hp⟩
  · by_cases hpi : p = cur.p
    · rw [hpi, hi]
      exact (h.bounds _).sched (h.current hcur).2 fun hs => h.mayLeave hcur (hleave hs)
    · rw [hne p hpi]
      exact h.bounds p

lemma tick (h : Sound s) {cur : Current} (hplace : s.cpu c = .running cur)
    (hcur : place.current = some cur)
    (hleave : place.MayLeave → (s.proc cur.p).ticksUsed + 1 < timeQuantum (s.proc cur.p).level)
    (hcpu : s'.cpu = update s.cpu c place)
    (hproc : s'.proc = update s.proc cur.p (s.proc cur.p).tick) : Sound s' := by
  have hold : (s.cpu c).current = some cur := by rw [hplace]; rfl
  have hrun := (h.current hold).1
  refine h.keep hcpu (hcur.trans hold.symm) (fun p => ?_) (fun p _ => ?_)
    (fun c' cur' hcur' hmay => ?_) fun p => ?_ <;> rw [hproc]
  · by_cases hp : p = cur.p
    · subst hp
      rw [update_self]
      rfl
    · rw [update_of_ne hp]
  · by_cases hp : p = cur.p
    · subst hp
      rw [update_self]
      rfl
    · rw [update_of_ne hp]
  · by_cases hc' : c' = c
    · subst hc'
      rw [hold] at hcur'
      cases hcur'
      rw [hcpu, update_self] at hmay
      rw [update_self]
      exact hleave hmay
    · rw [hcpu, update_of_ne hc'] at hmay
      rw [update_of_ne fun hp => hc' (h.distinct hcur' hold hp)]
      exact h.mayLeave hcur' hmay
  · by_cases hp : p = cur.p
    · subst hp
      rw [update_self]
      exact (h.bounds _).tick hrun (h.mayLeave hold (by rw [hplace]; trivial))
    · rw [update_of_ne hp]
      exact h.bounds p

/-- A step that changes neither state, level nor ticks of a process that runs. -/
theorem modify (h : Sound s) {q : ProcId} {pr : Proc}
    (hcpu : s'.cpu = update s.cpu c place)
    (hproc : s'.proc = update s.proc q pr) (hcur : place.current = (s.cpu c).current)
    (hleave : place.MayLeave → (s.cpu c).MayLeave)
    (hstate : pr.state = .running ↔ (s.proc q).state = .running)
    (hsame : (s.proc q).state = .running →
      pr.level = (s.proc q).level ∧ pr.ticksUsed = (s.proc q).ticksUsed)
    (hbounds : pr.InBounds) : Sound s' := by
  refine h.keep hcpu hcur (fun p => ?_) (fun p hp => ?_) (fun c' cur' hcur' hmay => ?_) fun p => ?_
    <;> rw [hproc]
  · by_cases hp : p = q
    · subst hp
      rwa [update_self]
    · rw [update_of_ne hp]
  · by_cases hpq : p = q
    · subst hpq
      rw [update_self]
      exact (hsame hp).1
    · rw [update_of_ne hpq]
  · have hold : (s.cpu c').MayLeave := by
      by_cases hc' : c' = c
      · subst hc'
        rw [hcpu, update_self] at hmay
        exact hleave hmay
      · rwa [hcpu, update_of_ne hc'] at hmay
    have hlt := h.mayLeave hcur' hold
    by_cases hq : cur'.p = q
    · obtain ⟨hl, ht⟩ := hsame (hq ▸ (h.current hcur').1)
      rwa [hq, update_self, hl, ht, ← hq]
    · rwa [update_of_ne hq]
  · by_cases hp : p = q
    · subst hp
      rwa [update_self]
    · rw [update_of_ne hp]
      exact h.bounds p

lemma turn (h : Sound s) {l : Label n} (ht : s.IsTurn l s' place) : Sound s' := by
  obtain ⟨hturn, hcpu, hproc⟩ := ht
  cases hev : s.event l with
  | none =>
    rw [hev] at hturn hproc
    cases hturn with
    | control _ hcur hleave =>
      -- no entry changes: an update with the old entry
      refine h.modify (q := 0) hcpu ?_ hcur hleave Iff.rfl (fun _ => ⟨rfl, rfl⟩) (h.bounds 0)
      rw [update_eq_self]
      exact hproc
  | some pe =>
    rw [hev] at hturn hproc
    cases hturn with
    | dispatch level i hidle hel => exact h.dispatch hidle hel hcpu hproc
    | tick cur _ hplace hcur hleave => exact h.tick hplace hcur hleave hcpu hproc
    | syscall cur num hplace =>
      exact h.modify hcpu hproc (by rw [hplace]) (by rw [hplace]; exact id)
        (by simp [Event.apply]) (fun _ => by simp [Event.apply]) (h.bounds _).syscall
    | sched cur state hcur hstate hleave => exact h.sched hcur hstate hleave hcpu hproc
    | outside q e _ he hcur hleave =>
      refine h.modify hcpu hproc hcur hleave ⟨fun hrun => ?_, fun hrun => ?_⟩ (fun hrun => ?_)
        ((h.bounds q).outside he)
      · exact not_not.mp fun hne => he.state_ne_running hne hrun
      · rwa [he.apply_of_running hrun]
      · rw [he.apply_of_running hrun]
        exact ⟨rfl, rfl⟩

lemma of_reachable (h : (schedSystem n).Reachable s) : Sound s := by
  refine h.invariant (I := Sound) ?_ ?_
  · rintro s rfl
    exact .boot
  · intro s l s' _ hs hstep
    obtain ⟨place, ht⟩ := State.isTurn_of_exec hstep
    exact hs.turn ht

end Sound

/-- The process that a CPU runs is RUNNING and no other CPU runs it, and a process that is RUNNING
is on some CPU. -/
theorem running_on_one_cpu {n : ℕ} {s : State n} (h : (schedSystem n).Reachable s) :
    (∀ c cur, (s.cpu c).current = some cur → (s.proc cur.p).state = .running ∧
      ∀ c' cur', (s.cpu c').current = some cur' → cur'.p = cur.p → c' = c) ∧
    ∀ p, (s.proc p).state = .running → ∃ c cur, (s.cpu c).current = some cur ∧ cur.p = p := by
  have hs := Sound.of_reachable h
  constructor
  · intro c cur hcur
    exact ⟨(hs.current hcur).1, fun c' cur' hcur' heq => hs.distinct hcur' hcur heq⟩
  · exact fun p => hs.onCpu

/-- CPU 0 dispatches process 0, which forks process 1, and CPU 1 dispatches process 1. -/
def twoDispatches : List (Label 2) :=
  [(0, .go), (0, .go), (0, .allocproc 1), (0, .ready 1), (1, .go), (1, .go)]

theorem running_on_one_cpu_two : ∃ s, (schedSystem 2).Reachable s ∧
    (s.cpu 0).current = some ⟨0, 0⟩ ∧ (s.cpu 1).current = some ⟨1, 0⟩ ∧
    (s.proc 0).state = .running ∧ (s.proc 1).state = .running ∧
    ∀ c cur, (s.cpu c).current = some cur → cur.p = 1 → c = 1 := by
  have hrun : ((twoDispatches.foldlM (fun (s : State 2) l => s.exec l.1 l.2) (boot 2)).any fun s =>
      (s.cpu 0).current = some ⟨0, 0⟩ ∧ (s.cpu 1).current = some ⟨1, 0⟩) := by
    decide +kernel
  have hboot : (schedSystem 2).Reachable (boot 2) := .init rfl
  obtain ⟨s, hreach, h0, h1⟩ := hboot.exists_of_foldlM (fun _ _ _ => id) hrun
  obtain ⟨hcurrent, -⟩ := running_on_one_cpu hreach
  exact ⟨s, hreach, h0, h1, (hcurrent _ _ h0).1, (hcurrent _ _ h1).1, (hcurrent _ _ h1).2⟩

end Xv6.Sched
