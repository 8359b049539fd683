import Xv6.Sched.Overtaking

/-!
# Which processes the global boost reaches

`priority_boost` resets the processes that are RUNNABLE. It runs in the timer interrupt of the
process that the CPU executes, and that process is RUNNING. On one CPU a process that stays active
is at level 0 at some moment of a stretch exactly if it is there at the beginning or one of the
boosts runs in the interrupt of another process, or of the idle scheduler (`boost_reaches_iff`).

A process that computes alone is interrupted by every timer tick. It is never reset, however many
boosts there are (`Alone`).
-/

namespace Xv6.Sched

open Function List Option

open VM (ProcId ProcState)

/-- RUNNABLE or RUNNING. -/
def Proc.Active (pr : Proc) : Prop := pr.state = .runnable ∨ pr.state = .running

instance (pr : Proc) : Decidable pr.Active := by
  unfold Proc.Active
  infer_instance

/-- `priority_boost` visits the process, in a timer interrupt that is not one of the process. -/
def BoostedByOther (p : ProcId) (x : State 1 × Label 1) : Prop :=
  x.2.2 = .go ∧ match x.1.cpu x.2.1 with
    | .boost cur (q :: _) => q = p ∧ cur.map Current.p ≠ some p
    | _ => False

instance (p : ProcId) : DecidablePred (BoostedByOther p) := fun x => by
  unfold BoostedByOther
  split <;> infer_instance

/-- `global_ticks` reaches 128. -/
def StartsBoost (x : State 1 × Label 1) : Prop :=
  x.2.2 = .go ∧ match x.1.cpu x.2.1 with
    | .globalTick _ _ => 128 ≤ x.1.globalTicks + 1
    | _ => False

instance : DecidablePred StartsBoost := fun x => by
  unfold StartsBoost
  split <;> infer_instance

section Step

variable {s s' : State 1} {l : Label 1} {p : ProcId}

lemma event_of_boostedByOther (h : BoostedByOther p (s, l)) : s.event l = some (p, .boost) := by
  obtain ⟨c, a⟩ := l
  obtain ⟨rfl, h⟩ := h
  simp only at h
  split at h
  · next cur q rest hc => simp [State.event, hc, h.1]
  · exact h.elim

/-- A boost that resets a process does not run in its own interrupt. -/
theorem boostedByOther_of_event (hs : Sound s) (hev : s.event l = some (p, .boost))
    (hp : (s.proc p).state = .runnable) : BoostedByOther p (s, l) := by
  obtain ⟨c, a⟩ := l
  cases a with
  | go =>
    refine ⟨rfl, ?_⟩
    simp only [State.event] at hev ⊢
    split at hev
    · split_ifs at hev
      cases hev
    · next cur i rest hc =>
      cases hev
      rw [hc]
      refine ⟨rfl, fun hcur => ?_⟩
      obtain ⟨cur', rfl, rfl⟩ := map_eq_some_iff.mp hcur
      have hrun := (hs.current (show (s.cpu c).current = some cur' by rw [hc]; rfl)).1
      rw [hp] at hrun
      cases hrun
    · cases hev
    · cases hev
  | timer | syscall _ | sleep | kexit =>
    obtain ⟨cur, -, heq⟩ := map_eq_some_iff.mp hev
    cases heq
  | wakeup _ | allocproc _ | ready _ | freeproc _ => cases hev

/-- On one CPU, a process that is RUNNING is the one that a boost interrupts. -/
theorem runnable_of_boostedByOther (hs : Sound s) (h : BoostedByOther p (s, l))
    (hp : (s.proc p).Active) : (s.proc p).state = .runnable := by
  refine hp.resolve_right fun hrun => ?_
  obtain ⟨c, cur, hcur, rfl⟩ := hs.onCpu hrun
  obtain ⟨-, h⟩ := h
  obtain rfl : l.1 = c := Subsingleton.elim _ _
  simp only at h
  split at h
  · next cur' q rest hc =>
    rw [hc] at hcur
    obtain rfl : cur' = some cur := hcur
    exact h.2 rfl
  · exact h

/-- An entry that is allocated or freed does not belong to an active process. -/
theorem not_active_of_event {n : ℕ} {s s' : State n} {l : Label n} {place : Cpu}
    (ht : s.IsTurn l s' place)
    (hev : s.event l = some (p, .allocproc) ∨ s.event l = some (p, .freeproc)) :
    ¬(s.proc p).Active := by
  have hturn := ht.turn
  obtain hev | hev := hev <;> rw [hev] at hturn
  · cases hturn with
    | outside _ _ _ he =>
      cases he with
      | allocproc hu => simp [Proc.Active, hu]
  · cases hturn with
    | outside _ _ _ he =>
      cases he with
      | freeproc hu => obtain hu | hu := hu <;> simp [Proc.Active, hu]

section

variable (hs : (schedSystem 1).Reachable s) (hstep : (schedSystem 1).step s l s')
  (hp : (s.proc p).Active)

include hs hstep hp

/-- An active process gets to level 0 only by a boost in the interrupt of another. -/
theorem level_zero_step (hl : (s'.proc p).level = 0) :
    (s.proc p).level = 0 ∨ BoostedByOther p (s, l) := by
  have hsound : Sound s := .of_reachable hs
  obtain ⟨place, ht⟩ := State.isTurn_of_exec hstep
  by_cases hend : SliceEnds s l p
  · -- a slice end does not lower the level number
    have hlevel := level_of_sliceEnds hsound ht hend
    have hnonneg := (hsound.bounds p).level_nonneg
    left
    split_ifs at hlevel <;> omega
  · obtain ⟨hreset, -⟩ | ⟨-, hsame⟩ := level_of_not_sliceEnds hsound ht hend
    · obtain ⟨hev, hr⟩ | hev | hev := hreset
      · exact .inr (boostedByOther_of_event hsound hev hr)
      -- an entry that is allocated or freed does not belong to an active process
      · exact absurd hp (not_active_of_event ht (.inl hev))
      · exact absurd hp (not_active_of_event ht (.inr hev))
    · exact .inl (hsame ▸ hl)

/-- A boost in the interrupt of another process resets an active process. -/
theorem level_of_boostedByOther (h : BoostedByOther p (s, l)) : (s'.proc p).level = 0 := by
  obtain ⟨place, ht⟩ := State.isTurn_of_exec hstep
  have hr := runnable_of_boostedByOther (.of_reachable hs) h hp
  rw [ht.proc_of_eq (event_of_boostedByOther h)]
  simp [Event.apply, Proc.priorityBoost, hr]

end

end Step

/-- On one CPU, over any stretch of a run in which a process is RUNNABLE or RUNNING: it is at level
0 at some moment if and only if it is so at the beginning, or `priority_boost` visits it in a timer
interrupt of another process or of the scheduler. -/
theorem boost_reaches_iff {s s' : State 1} {h : History 1} {p : ProcId}
    (hs : (schedSystem 1).Reachable s) (ht : (schedSystem 1).Trace s h s')
    (hp : ∀ t ∈ s' :: h.map Prod.fst, (t.proc p).Active) :
    (∃ t ∈ s' :: h.map Prod.fst, (t.proc p).level = 0) ↔
      (s.proc p).level = 0 ∨ ∃ x ∈ h, BoostedByOther p x := by
  induction ht with
  | nil => simp
  | @cons t s'' h l ht hstep ih =>
    have htr := ht.reachable hs
    have htp : (t.proc p).Active := hp t (by simp)
    have hbefore := ih fun u hu => hp u (mem_cons_of_mem _ hu)
    constructor
    · rintro ⟨u, hu, hl⟩
      -- level 0 after the last step was there before, or comes from a boost
      have hor : (∃ u ∈ t :: h.map Prod.fst, (u.proc p).level = 0) ∨ BoostedByOther p (t, l) := by
        obtain rfl | hu := mem_cons.mp hu
        · obtain hl | hb := level_zero_step htr hstep htp hl
          · exact .inl ⟨t, by simp, hl⟩
          · exact .inr hb
        · exact .inl ⟨u, hu, hl⟩
      obtain hu | hb := hor
      · obtain hl | ⟨x, hx, hb⟩ := hbefore.mp hu
        · exact .inl hl
        · exact .inr ⟨x, mem_cons_of_mem _ hx, hb⟩
      · exact .inr ⟨(t, l), mem_cons_self, hb⟩
    · intro hor
      obtain hold | hb : ((s.proc p).level = 0 ∨ ∃ x ∈ h, BoostedByOther p x) ∨
          BoostedByOther p (t, l) := by
        obtain hl | ⟨x, hx, hb⟩ := hor
        · exact .inl (.inl hl)
        · obtain rfl | hx := mem_cons.mp hx
          · exact .inr hb
          · exact .inl (.inr ⟨x, hx, hb⟩)
      · obtain ⟨u, hu, hl⟩ := hbefore.mpr hold
        exact ⟨u, mem_cons_of_mem _ hu, hl⟩
      · exact ⟨s'', by simp, level_of_boostedByOther htr hstep htp hb⟩

/-- A process that runs at level 0 uses up its quantum and is demoted. -/
def demotion : List (Label 1) :=
  (0, .timer) :: List.replicate (NPROC + 3) (0, .go) ++ [(0, .timer), (0, .go), (0, .go)]

/-- The first process forks and is demoted. Then both processes sleep, and are woken after 125 ticks
of the idle CPU. -/
def bothWoken : List (Label 1) :=
  [(0, .go), (0, .go), (0, .allocproc 1), (0, .ready 1)] ++ demotion ++
    -- the child is picked at level 0, and then the parent at level 1
    [(0, .go), (0, .go), (0, .sleep)] ++ List.replicate (NPROC + 3) (0, .go) ++ [(0, .sleep)] ++
    (List.replicate 125 [(0, Action.timer), (0, .go), (0, .go)]).flatten ++
    [(0, .wakeup 0), (0, .wakeup 1)]

/-- The child is picked and interrupted; the tick is the one of the boost. -/
def childInterrupted : List (Label 1) :=
  List.replicate (NPROC + 1) (0, .go) ++ (0, .timer) :: List.replicate (NPROC + 3) (0, .go)

theorem boost_reaches_iff_child : ∃ s s' h, (schedSystem 1).Reachable s ∧
    (schedSystem 1).Trace s h s' ∧ (∀ t ∈ s' :: h.map Prod.fst, (t.proc 0).Active) ∧
    (s.proc 0).level = 1 ∧ (s'.cpu 0).current.map Current.p = some 1 ∧
    ∃ t ∈ s' :: h.map Prod.fst, (t.proc 0).level = 0 := by
  obtain ⟨s, h, s', hs, ht, hactive, hlevel, hcur, hboost⟩ :=
    exists_trace bothWoken childInterrupted
    (fun s h s' => (∀ t ∈ s' :: h.map Prod.fst, (t.proc 0).Active) ∧ (s.proc 0).level = 1 ∧
      (s'.cpu 0).current.map Current.p = some 1 ∧ ∃ x ∈ h, BoostedByOther 0 x) (by decide +kernel)
  exact ⟨s, s', h, hs, ht, hactive, hlevel, hcur,
    (boost_reaches_iff hs ht hactive).mpr (.inr hboost)⟩

/-! ## A process that computes alone -/

/-- A timer interrupt of the scheduler. -/
def Cpu.IdleTrap : Cpu → Prop
  | .globalTick none _ => True
  | .boost none _ => True
  | .trapEnd none _ => True
  | _ => False

/-- The step of a process that only computes: the CPU goes on, and takes an interrupt whenever the
process runs. -/
def State.spin (s : State 1) : Label 1 :=
  match s.cpu 0 with
  | .running _ => (0, .timer)
  | _ => (0, .go)

/-- No other process is active, and the process has left level 0. -/
structure Alone (p : ProcId) (s : State 1) : Prop where
  others : ∀ q, q ≠ p → ¬(s.proc q).Active
  active : (s.proc p).Active
  level : (s.proc p).level ≠ 0
  notIdle : ¬(s.cpu 0).IdleTrap

namespace Alone

variable {p : ProcId} {s s' : State 1}

/-- Only the process itself is on the CPU. -/
theorem current_eq (hs : (schedSystem 1).Reachable s) (ha : Alone p s) {cur : Current}
    (hcur : (s.cpu 0).current = some cur) : cur.p = p := by
  by_contra hne
  exact ha.others _ hne (.inr ((Sound.of_reachable hs).current hcur).1)

/-- If the CPU runs no process, the process is RUNNABLE at one of the four levels. -/
theorem eligible (hs : (schedSystem 1).Reachable s) (ha : Alone p s)
    (hcur : (s.cpu 0).current = none) : ∃ level, (s.proc p).Eligible level := by
  have hsound : Sound s := .of_reachable hs
  have hr : (s.proc p).state = .runnable := by
    refine ha.active.resolve_right fun hrun => ?_
    obtain ⟨c, cur, hc, -⟩ := hsound.onCpu hrun
    obtain rfl : c = 0 := Subsingleton.elim _ _
    rw [hcur] at hc
    cases hc
  have hb := hsound.bounds p
  have hnonneg := hb.level_nonneg
  have hle := hb.level_le
  refine ⟨⟨(s.proc p).level.toNat, by omega⟩, hr, ?_⟩
  exact (Int.toNat_of_nonneg hnonneg).symm

/-- A bound on the steps to the next tick of `global_ticks`. -/
def toTick : Cpu → ℕ
  | .globalTick _ _ => 0
  | .lookHigher _ _ rest => rest.length + 1
  | .running _ => NPROC + 2
  | .scan level rest => (3 - level.val) * (NPROC + 1) + rest.length + NPROC + 3
  | .scheduler => 4 * (NPROC + 1) + NPROC + 3
  | .trapEnd _ _ => 4 * (NPROC + 1) + NPROC + 4
  | .boost _ rest => rest.length + 4 * (NPROC + 1) + NPROC + 5

lemma length_scanOrder (index : ProcId) : (scanOrder index).length = NPROC := by
  have := index.isLt
  simp only [scanOrder, length_append, length_drop, length_take, length_finRange]
  omega

/-- `Approaches s`: the next step of the process does not count a tick, and brings the CPU closer to
the next one. -/
def Approaches (s : State 1) : Prop :=
  ∃ s', (schedSystem 1).step s s.spin s' ∧ toTick (s'.cpu 0) < toTick (s.cpu 0) ∧
    s'.globalTicks = s.globalTicks

/-- The case of a step of the scheduler or of the trap handler. -/
theorem approaches_of_go (s' : State 1) (hspin : s.spin = (0, .go)) (hgo : s.go 0 = some s')
    (hlt : toTick (s'.cpu 0) < toTick (s.cpu 0)) (hticks : s'.globalTicks = s.globalTicks) :
    Approaches s :=
  ⟨s', by rw [hspin]; exact hgo, hlt, hticks⟩

lemma approaches_scan (hs : (schedSystem 1).Reachable s) (ha : Alone p s) {level : Fin 4}
    {rest : List ProcId} (hc : s.cpu 0 = .scan level rest) : Approaches s := by
  have hspin : s.spin = (0, .go) := by simp [State.spin, hc]
  cases rest with
  | nil =>
    by_cases hl : level.val + 1 < 4
    · refine approaches_of_go (s.goto 0 (.scan ⟨level.val + 1, hl⟩
        (scanOrder (s.roundrobinIndex ⟨level.val + 1, hl⟩)))) hspin
        (by simp only [State.go, hc, dif_pos hl]) ?_ rfl
      simp only [State.goto_cpu, update_self, hc, toTick, length_scanOrder, length_nil]
      have h3 : 3 - level.val = (3 - (level.val + 1)) + 1 := by omega
      rw [h3, Nat.add_mul]
      omega
    · -- the scan has passed over all levels, but the process is eligible
      obtain ⟨hbelow, done, hdone, hnone⟩ := Scanned.of_reachable hs _ _ hc
      obtain ⟨k, hk⟩ := ha.eligible hs (by rw [hc]; rfl)
      obtain hlt | rfl : k < level ∨ k = level := by
        have := k.isLt
        rw [Fin.lt_def, Fin.ext_iff]
        omega
      · exact absurd hk (hbelow p k hlt)
      · rw [append_nil] at hdone
        exact absurd hk (hnone p (hdone ▸ mem_scanOrder _ p))
  | cons i rest =>
    by_cases hel : (s.proc i).Eligible level
    · refine approaches_of_go ({ s with
          roundrobinIndex := update s.roundrobinIndex level (i + 1) }.modify i
            Proc.dispatch |>.goto 0 (.running ⟨i, level⟩)) hspin
        (by simp only [State.go, hc, if_pos hel]) ?_ rfl
      simp only [State.goto_cpu, update_self, hc, toTick]
      omega
    · refine approaches_of_go (s.goto 0 (.scan level rest)) hspin
        (by simp only [State.go, hc, if_neg hel]) ?_ rfl
      simp only [State.goto_cpu, update_self, hc, toTick, length_cons]
      omega

/-- Away from the counting of a tick, every step approaches it. -/
theorem approaches (hs : (schedSystem 1).Reachable s) (ha : Alone p s)
    (hc : ∀ cur y, s.cpu 0 ≠ .globalTick cur y) : Approaches s := by
  -- outside of a process the CPU just goes on
  have hspin : (∀ cur, s.cpu 0 ≠ .running cur) → s.spin = (0, .go) := by
    intro hnot
    unfold State.spin
    split
    · next cur hcur => exact absurd hcur (hnot cur)
    · rfl
  cases hplace : s.cpu 0 with
  | scheduler =>
    refine approaches_of_go (s.goto 0 (.scan 0 (scanOrder (s.roundrobinIndex 0))))
      (hspin (by simp [hplace])) (by simp only [State.go, hplace]) ?_ rfl
    simp [hplace, toTick, length_scanOrder, NPROC]
  | scan level rest => exact approaches_scan hs ha hplace
  | running cur =>
    have htimer : s.spin = (0, .timer) := by simp [State.spin, hplace]
    let pr := (s.proc cur.p).tick
    refine ⟨(s.modify cur.p Proc.tick).goto 0 (if timeQuantum pr.level ≤ pr.ticksUsed then
      .globalTick (some cur) true else .lookHigher cur pr.level (List.finRange NPROC)), ?_, ?_, rfl⟩
    · rw [htimer]
      simp only [schedSystem, State.exec, State.timer, hplace, pr]
    · simp only [State.goto_cpu, update_self, hplace]
      split_ifs <;> simp [toTick]
  | lookHigher cur k rest =>
    have hgo := hspin (by simp [hplace])
    cases rest with
    | nil =>
      exact approaches_of_go (s.goto 0 (.globalTick (some cur) false)) hgo
        (by simp only [State.go, hplace]) (by simp [hplace, toTick]) rfl
    | cons q rest =>
      by_cases hq : (s.proc q).state = .runnable ∧ (s.proc q).level < k
      · exact approaches_of_go (s.goto 0 (.globalTick (some cur) true)) hgo
          (by simp only [State.go, hplace, if_pos hq]) (by simp [hplace, toTick]) rfl
      · exact approaches_of_go (s.goto 0 (.lookHigher cur k rest)) hgo
          (by simp only [State.go, hplace, if_neg hq]) (by simp [hplace, toTick]) rfl
  | globalTick cur y => exact absurd hplace (hc cur y)
  | boost cur rest =>
    have hgo := hspin (by simp [hplace])
    cases rest with
    | nil =>
      exact approaches_of_go (s.goto 0 (.trapEnd cur true)) hgo (by simp only [State.go, hplace])
        (by simp [hplace, toTick]) rfl
    | cons i rest =>
      exact approaches_of_go ((s.modify i Proc.priorityBoost).goto 0 (.boost cur rest)) hgo
        (by simp only [State.go, hplace]) (by simp [hplace, toTick]) rfl
  | trapEnd cur y =>
    have hgo := hspin (by simp [hplace])
    cases cur with
    | none => exact absurd (by simp [hplace, Cpu.IdleTrap]) ha.notIdle
    | some cur =>
      cases y with
      | true =>
        exact approaches_of_go
          ((s.modify cur.p (·.sched .runnable cur.level)).goto 0 .scheduler) hgo
          (by simp only [State.go, hplace]) (by simp [hplace, toTick]) rfl
      | false =>
        exact approaches_of_go (s.goto 0 (.running cur)) hgo (by simp only [State.go, hplace])
          (by simp [hplace, toTick, NPROC]) rfl

/-- The steps of the process lead to no interrupt of the scheduler. -/
theorem notIdle_step (h : ¬(s.cpu 0).IdleTrap) (hstep : (schedSystem 1).step s s.spin s') :
    ¬(s'.cpu 0).IdleTrap := by
  change s.exec s.spin.1 s.spin.2 = some s' at hstep
  unfold State.spin at hstep
  split at hstep
  · next cur hc =>
    simp only [State.exec, State.timer, hc, Option.some.injEq] at hstep
    subst hstep
    simp only [State.goto_cpu, update_self]
    split_ifs <;> simp [Cpu.IdleTrap]
  · replace hstep : s.go 0 = some s' := hstep
    unfold State.go at hstep
    cases hc : s.cpu 0 with rw [hc] at hstep h
    | scheduler =>
      cases hstep
      simp [Cpu.IdleTrap]
    | running cur => cases hstep
    | scan level rest | lookHigher cur currLevel rest =>
      cases rest <;> dsimp only at hstep <;> (try split at hstep) <;> cases hstep <;>
        simp [Cpu.IdleTrap]
    | globalTick cur y =>
      cases cur with
      | none => exact absurd trivial h
      | some cur =>
        dsimp only at hstep
        split_ifs at hstep <;> cases hstep <;> simp [Cpu.IdleTrap]
    | boost cur rest =>
      cases cur with
      | none => exact absurd trivial h
      | some cur => cases rest <;> cases hstep <;> simp [Cpu.IdleTrap]
    | trapEnd cur y => cases cur <;> cases y <;> cases hstep <;> simp [Cpu.IdleTrap]

section

variable (hs : (schedSystem 1).Reachable s) (ha : Alone p s)

include hs ha

/-- The steps of the process change no other process, but for visits of a boost. -/
theorem spin_event {q : ProcId} {e : Event} (hev : s.event s.spin = some (q, e)) :
    e = .boost ∨ q = p ∧ (e.apply (s.proc p)).Active := by
  unfold State.spin at hev
  split at hev
  · next cur hc =>
    simp only [State.event, State.runningProc, hc, map_some, Option.some.injEq,
      Prod.mk.injEq] at hev
    obtain ⟨rfl, rfl⟩ := hev
    exact .inr ⟨ha.current_eq hs (by rw [hc]; rfl), ha.active⟩
  · simp only [State.event] at hev
    split at hev
    · next level i rest hc =>
      split_ifs at hev with hel
      cases hev
      refine .inr ⟨?_, .inr rfl⟩
      by_contra hne
      exact ha.others _ hne (.inl hel.1)
    · cases hev
      exact .inl rfl
    · next cur hc =>
      cases hev
      exact .inr ⟨ha.current_eq hs (by rw [hc]; rfl), .inl (by simp [Event.apply])⟩
    · cases hev

/-- No boost in the interrupt of another process visits the process. -/
theorem not_boostedByOther {l : Label 1} : ¬BoostedByOther p (s, l) := by
  rintro ⟨-, h⟩
  rw [show l.1 = 0 from Subsingleton.elim _ _] at h
  simp only at h
  split at h
  · next cur q rest hc =>
    cases cur with
    | none => exact ha.notIdle (by rw [hc]; trivial)
    | some cur => exact h.2 (congrArg some (ha.current_eq hs (by rw [hc]; rfl)))
  · exact h

/-- A process that computes alone stays alone, and away from level 0. -/
theorem step (hstep : (schedSystem 1).step s s.spin s') : Alone p s' := by
  obtain ⟨place, ht⟩ := State.isTurn_of_exec hstep
  refine ⟨fun q hq => ?_, ?_, fun hl => ?_, notIdle_step ha.notIdle hstep⟩
  · by_cases hev : ∃ e, s.event s.spin = some (q, e)
    · obtain ⟨e, hev⟩ := hev
      obtain rfl | ⟨rfl, -⟩ := ha.spin_event hs hev
      · -- the boost does not change a process that is not RUNNABLE
        have hr : (s.proc q).state ≠ .runnable := fun hr => ha.others q hq (.inl hr)
        rw [ht.proc_of_eq hev]
        simpa [Event.apply, Proc.priorityBoost, hr] using ha.others q hq
      · exact absurd rfl hq
    · rw [ht.proc_of_ne (not_exists.mp hev)]
      exact ha.others q hq
  · by_cases hev : ∃ e, s.event s.spin = some (p, e)
    · obtain ⟨e, hev⟩ := hev
      rw [ht.proc_of_eq hev]
      obtain rfl | ⟨-, hactive⟩ := ha.spin_event hs hev
      · have hactive := ha.active
        unfold Event.apply Proc.priorityBoost
        split_ifs <;> exact hactive
      · exact hactive
    · rw [ht.proc_of_ne (not_exists.mp hev)]
      exact ha.active
  · obtain hl | hb := level_zero_step hs hstep ha.active hl
    · exact ha.level hl
    · exact ha.not_boostedByOther hs hb

end

/-- `Spins p s h s'`: a stretch of the run of a process that computes alone. -/
structure Spins (p : ProcId) (s : State 1) (h : History 1) (s' : State 1) : Prop where
  trace : (schedSystem 1).Trace s h s'
  alone : ∀ t ∈ s' :: h.map Prod.fst, Alone p t

lemma Spins.refl (ha : Alone p s) : Spins p s [] s := ⟨.nil, by simpa using ha⟩

lemma Spins.cons {h : History 1} {s'' : State 1} (hs : (schedSystem 1).Reachable s)
    (hspin : Spins p s h s') (hstep : (schedSystem 1).step s' s'.spin s'') :
    Spins p s ((s', s'.spin) :: h) s'' := by
  refine ⟨.cons hspin.trace hstep, fun t ht => ?_⟩
  obtain rfl | ht := mem_cons.mp ht
  · exact (hspin.alone s' mem_cons_self).step (hspin.trace.reachable hs) hstep
  · exact hspin.alone t ht

lemma Spins.exists_tick {h : History 1} (hs : (schedSystem 1).Reachable s)
    (hspin : Spins p s h s') :
    ∃ h' s'' cur y, Spins p s (h' ++ h) s'' ∧ s''.cpu 0 = .globalTick cur y ∧
      s''.globalTicks = s'.globalTicks := by
  generalize hm : toTick (s'.cpu 0) = m
  induction m using Nat.strong_induction_on generalizing h s' with
  | _ m ih =>
    by_cases htick : ∃ cur y, s'.cpu 0 = .globalTick cur y
    · obtain ⟨cur, y, hc⟩ := htick
      exact ⟨[], s', cur, y, hspin, hc, rfl⟩
    · push Not at htick
      have ha := hspin.alone s' mem_cons_self
      obtain ⟨t, hstep, hlt, hticks⟩ := ha.approaches (hspin.trace.reachable hs) htick
      obtain ⟨h', s'', cur, y, hspin', hc, hticks'⟩ := ih _ (hm ▸ hlt) (hspin.cons hs hstep) rfl
      exact ⟨h' ++ [(s', s'.spin)], s'', cur, y, by simpa using hspin', hc, hticks'.trans hticks⟩

lemma Spins.exists_boost {h : History 1} (hs : (schedSystem 1).Reachable s)
    (hspin : Spins p s h s') :
    ∃ h' s'', Spins p s (h' ++ h) s'' ∧ 1 ≤ h'.countP fun x => StartsBoost x := by
  generalize hm : 128 - s'.globalTicks = m
  induction m using Nat.strong_induction_on generalizing h s' with
  | _ m ih =>
    obtain ⟨h₁, t, cur, y, hspin₁, hc, hticks⟩ := hspin.exists_tick hs
    have hlabel : t.spin = (0, .go) := by simp [State.spin, hc]
    by_cases hb : 128 ≤ t.globalTicks + 1
    · -- this tick starts a boost
      have hgo : t.go 0 =
          some ({ t with globalTicks := 0 }.goto 0 (.boost cur (List.finRange NPROC))) := by
        simp [State.go, hc, hb]
      refine ⟨(t, t.spin) :: h₁, _, hspin₁.cons hs (by rw [hlabel]; exact hgo), ?_⟩
      have hstart : StartsBoost (t, t.spin) := by simp [StartsBoost, hlabel, hc, hb]
      simp [hstart]
    · have hgo : t.go 0 =
          some ({ t with globalTicks := t.globalTicks + 1 }.goto 0 (.trapEnd cur y)) := by
        simp [State.go, hc, hb]
      have hspin₂ := hspin₁.cons hs (by rw [hlabel]; exact hgo)
      have hlt : 128 - (t.globalTicks + 1) < m := by omega
      obtain ⟨h₂, s'', hspin₃, hcount⟩ := ih _ hlt hspin₂ rfl
      refine ⟨h₂ ++ (t, t.spin) :: h₁, s'', by simpa using hspin₃, ?_⟩
      rw [countP_append]
      omega

/-- A process that computes alone sees two whole boosts without being reset. -/
theorem exists_two_boosts (hs : (schedSystem 1).Reachable s) (ha : Alone p s) :
    ∃ h s', Spins p s h s' ∧ 2 ≤ h.countP fun x => StartsBoost x := by
  obtain ⟨h₁, s₁, hspin₁, hcount₁⟩ := (Spins.refl ha).exists_boost hs
  obtain ⟨h₂, s₂, hspin₂, hcount₂⟩ := hspin₁.exists_boost hs
  -- the second boost is over when the next tick is counted
  obtain ⟨h₃, s₃, cur, y, hspin₃, -, -⟩ := hspin₂.exists_tick hs
  refine ⟨_, s₃, hspin₃, ?_⟩
  simp only [countP_append]
  omega

end Alone

/-- The first process uses up its quantum and computes on, alone: two global boosts pass in which it
is RUNNABLE or RUNNING and never at level 0. -/
theorem boost_misses_running : ∃ (s s' : State 1) (h : History 1), (schedSystem 1).Reachable s ∧
    (schedSystem 1).Trace s h s' ∧ 2 ≤ h.countP (fun x => StartsBoost x) ∧
    ∀ t ∈ s' :: h.map Prod.fst, (t.proc 0).Active ∧ (t.proc 0).level ≠ 0 := by
  have hrun : ((((0, .go) :: (0, .go) :: demotion).foldlM
      (fun (s : State 1) l => s.exec l.1 l.2) (boot 1)).any fun s =>
      (∀ q, q ≠ 0 → ¬(s.proc q).Active) ∧ (s.proc 0).Active ∧ (s.proc 0).level ≠ 0 ∧
        s.cpu 0 = .scheduler) := by
    decide +kernel
  have hboot : (schedSystem 1).Reachable (boot 1) := .init rfl
  obtain ⟨s, hs, hothers, hactive, hlevel, hcpu⟩ :=
    hboot.exists_of_foldlM (fun _ _ _ => id) hrun
  have ha : Alone 0 s := ⟨hothers, hactive, hlevel, by rw [hcpu]; exact id⟩
  obtain ⟨h, s', hspin, hcount⟩ := ha.exists_two_boosts hs
  exact ⟨s, s', h, hs, hspin.trace, hcount,
    fun t ht => ⟨(hspin.alone t ht).active, (hspin.alone t ht).level⟩⟩

end Xv6.Sched
