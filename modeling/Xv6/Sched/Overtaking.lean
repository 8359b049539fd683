import Xv6.Sched.Accounting

/-!
# Bounded overtaking

On one CPU the scan of the scheduler is not interrupted. So when it gets to a process, every process
before it in the scan was tested and was not eligible (`Scanned`). A process that waits at a level
is therefore overtaken only by processes of lower level number, and at its own level only by
processes that come before it in the circular order that starts at `roundrobin_index`. Every
dispatch at the level moves the index past the process that was picked, and the circular distance
from the index to the waiting process falls (`distance_succ_lt`).
-/

namespace Xv6.Sched

open Function List Option

open VM (ProcId ProcState)

/-! ## The circular order of the scan -/

/-- The position of a process in the scan that starts at `index`. -/
def distance (index p : ProcId) : ℕ := (p - index).val

lemma distance_lt (index p : ProcId) : distance index p < NPROC := (p - index).isLt

lemma distance_of_le {index p : ProcId} (h : index ≤ p) : distance index p = p.val - index.val :=
  Fin.sub_val_of_le h

lemma distance_of_lt {index p : ProcId} (h : p < index) :
    distance index p = NPROC - index.val + p.val := by
  have hlt : NPROC - index.val + p.val < NPROC := by
    have := index.isLt
    have := Fin.lt_def.mp h
    omega
  rw [distance, Fin.sub_def]
  exact Nat.mod_eq_of_lt hlt

lemma le_of_mem_drop {k : ℕ} {p : ProcId} (h : p ∈ (List.finRange NPROC).drop k) :
    k ≤ p.val := by
  obtain ⟨j, hj, rfl⟩ := mem_drop_iff_getElem.mp h
  simp

lemma lt_of_mem_take {k : ℕ} {p : ProcId} (h : p ∈ (List.finRange NPROC).take k) :
    p.val < k := by
  obtain ⟨j, hj, rfl⟩ := mem_take_iff_getElem.mp h
  simp only [getElem_finRange, Fin.val_cast]
  exact (lt_min_iff.mp hj).1

lemma mem_scanOrder (index p : ProcId) : p ∈ scanOrder index := by
  have hall : p ∈ (List.finRange NPROC).take index ++ (List.finRange NPROC).drop index := by
    rw [take_append_drop]
    exact mem_finRange p
  exact mem_append.mpr (mem_append.mp hall).symm

lemma pairwise_scanOrder (index : ProcId) :
    (scanOrder index).Pairwise fun p q => distance index p < distance index q := by
  have hsorted := pairwise_lt_finRange NPROC
  refine pairwise_append.mpr ⟨?_, ?_, fun p hp q hq => ?_⟩
  · -- the first pass, from the index on
    refine (hsorted.sublist (drop_sublist _ _)).imp_of_mem fun {p q} hp hq hlt => ?_
    have hp : index ≤ p := le_of_mem_drop hp
    rw [distance_of_le hp, distance_of_le (le_of_mem_drop hq)]
    exact Nat.sub_lt_sub_right hp hlt
  · -- the second pass, up to the index
    refine (hsorted.sublist (take_sublist _ _)).imp_of_mem fun {p q} hp hq hlt => ?_
    rw [distance_of_lt (lt_of_mem_take hp), distance_of_lt (lt_of_mem_take hq)]
    exact Nat.add_lt_add_left hlt _
  · have hp' : index.val ≤ p.val := le_of_mem_drop hp
    rw [distance_of_le hp', distance_of_lt (lt_of_mem_take hq)]
    have := p.isLt
    omega

/-- Moving the index past a process that comes before `p` brings it closer to `p`. -/
theorem distance_succ_lt {index i p : ProcId} (h : distance index i < distance index p) :
    distance (i + 1) p < distance index p := by
  have hsub : p - (i + 1) = (p - index) - ((i - index) + 1) := by abel
  have hnext : ((i - index) + 1).val = (i - index).val + 1 := by
    rw [Fin.val_add, Fin.val_one', Nat.add_mod_mod]
    exact Nat.mod_eq_of_lt (lt_of_le_of_lt h (p - index).isLt)
  have hle : (i - index) + 1 ≤ p - index := by
    rw [Fin.le_def, hnext]
    exact h
  unfold distance at h ⊢
  rw [hsub, Fin.sub_val_of_le hle, hnext]
  omega

/-! ## The scan on one CPU -/

/-- What the scan has passed over is not eligible. -/
def Scanned (s : State 1) : Prop :=
  ∀ level rest, s.cpu 0 = .scan level rest →
    (∀ q, ∀ k < level, ¬(s.proc q).Eligible k) ∧
    ∃ done, scanOrder (s.roundrobinIndex level) = done ++ rest ∧
      ∀ q ∈ done, ¬(s.proc q).Eligible level

/-- How a CPU gets into a scan. -/
inductive State.Scans (s : State 1) (level : Fin 4) : List ProcId → Prop
  | start (h : s.cpu 0 = .scheduler) (hl : level = 0) :
      Scans s level (scanOrder (s.roundrobinIndex level))
  | nextLevel (k : Fin 4) (h : s.cpu 0 = .scan k []) (hk : level.val = k.val + 1) :
      Scans s level (scanOrder (s.roundrobinIndex level))
  | nextProc (i : ProcId) (rest : List ProcId) (h : s.cpu 0 = .scan level (i :: rest))
      (hi : ¬(s.proc i).Eligible level) : Scans s level rest

namespace State

variable {s s' : State 1} {c : Fin 1} {a : Action}

/-- A step into a scan changes nothing but the place of the CPU. -/
theorem scans_of_go {level : Fin 4} {rest : List ProcId} (h : s.go 0 = some s')
    (hcpu : s'.cpu 0 = .scan level rest) :
    s.Scans level rest ∧ s'.proc = s.proc ∧ s'.roundrobinIndex = s.roundrobinIndex := by
  unfold go at h
  cases hc : s.cpu 0 with rw [hc] at h
  | scheduler =>
    cases h
    simp only [goto_cpu, update_self, Cpu.scan.injEq] at hcpu
    obtain ⟨rfl, rfl⟩ := hcpu
    exact ⟨.start hc rfl, rfl, rfl⟩
  | scan k rest' =>
    cases rest' with
    | nil =>
      dsimp only at h
      split at h <;> cases h <;>
        simp only [goto_cpu, update_self, Cpu.scan.injEq, reduceCtorEq] at hcpu
      obtain ⟨rfl, rfl⟩ := hcpu
      exact ⟨.nextLevel k hc rfl, rfl, rfl⟩
    | cons i rest' =>
      dsimp only at h
      split_ifs at h with hel <;> cases h <;>
        simp only [goto_cpu, update_self, Cpu.scan.injEq, reduceCtorEq] at hcpu
      obtain ⟨rfl, rfl⟩ := hcpu
      exact ⟨.nextProc i rest' hc hel, rfl, rfl⟩
  | running cur => cases h
  | globalTick cur shouldYield =>
    dsimp only at h
    split_ifs at h <;> cases h <;> simp at hcpu
  | lookHigher cur currLevel rest | boost cur rest =>
    cases rest <;> dsimp only at h <;> (try split_ifs at h) <;> cases h <;> simp at hcpu
  | trapEnd cur shouldYield => cases cur <;> cases shouldYield <;> cases h <;> simp at hcpu

lemma scans_of_exec {level : Fin 4} {rest : List ProcId} (h : s.exec c a = some s')
    (hcpu : s'.cpu 0 = .scan level rest) :
    s.Scans level rest ∧ s'.proc = s.proc ∧ s'.roundrobinIndex = s.roundrobinIndex := by
  obtain rfl : c = 0 := Subsingleton.elim _ _
  cases a with
  | go => exact scans_of_go h hcpu
  | timer =>
    simp only [exec, timer] at h
    split at h <;> cases h
    · simp at hcpu
    · simp only [goto_cpu, update_self] at hcpu
      split_ifs at hcpu
  | syscall num =>
    obtain ⟨cur, hcur, h⟩ := bind_eq_some_iff.mp h
    cases h
    rw [modify_cpu, runningProc_eq_some.mp hcur] at hcpu
    cases hcpu
  | sleep | kexit =>
    obtain ⟨cur, -, h⟩ := bind_eq_some_iff.mp h
    cases h
    simp at hcpu
  | wakeup q | allocproc q | ready q | freeproc q =>
    simp only [exec] at h
    split_ifs at h with hc
    cases h
    rw [modify_cpu] at hcpu
    simp [runningProc, hcpu] at hc

end State

namespace Scanned

variable {s s' : State 1} {l : Label 1}

lemma step (h : Scanned s) (hstep : (schedSystem 1).step s l s') : Scanned s' := by
  intro level rest hcpu
  obtain ⟨hscan, hproc, hindex⟩ := State.scans_of_exec hstep hcpu
  rw [hproc, hindex]
  cases hscan with
  | start hc hl =>
    subst hl
    exact ⟨fun q k hk => absurd hk (Fin.not_lt_zero k), [], rfl, by simp⟩
  | nextLevel k hc hk =>
    -- the scan of the level before has passed over every process
    obtain ⟨hbelow, done, hdone, hnone⟩ := h _ _ hc
    refine ⟨fun q k' hk' => ?_, [], rfl, by simp⟩
    obtain hlt | heq : k' < k ∨ k' = k := by
      have := Fin.lt_def.mp hk'
      rw [Fin.lt_def, Fin.ext_iff]
      omega
    · exact hbelow q k' hlt
    · subst heq
      refine hnone q ?_
      rw [append_nil] at hdone
      exact hdone ▸ mem_scanOrder _ q
  | nextProc i _ hc hi =>
    obtain ⟨hbelow, done, hdone, hnone⟩ := h _ _ hc
    refine ⟨hbelow, done ++ [i], by simp [hdone], fun q hq => ?_⟩
    obtain hq | hq := mem_append.mp hq
    · exact hnone q hq
    · rwa [mem_singleton.mp hq]

lemma of_reachable (h : (schedSystem 1).Reachable s) : Scanned s := by
  refine h.invariant (I := Scanned) ?_ fun s l s' _ hs hstep => hs.step hstep
  rintro s rfl level rest hcpu
  cases hcpu

end Scanned

/-! ## Dispatches -/

section Dispatch

variable {n : ℕ}

/-- A step that picks a process of the level. -/
def DispatchesAt (level : ℤ) (x : State n × Label n) : Prop :=
  match x.1.event x.2 with
  | some (q, .dispatch) => (x.1.proc q).level = level
  | _ => False

instance (level : ℤ) : DecidablePred (DispatchesAt (n := n) level) := fun x => by
  unfold DispatchesAt
  rcases x.1.event x.2 with _ | ⟨q, e⟩
  · exact instDecidableFalse
  · cases e <;> dsimp only <;> infer_instance

/-- A step that picks a process. -/
def Dispatches (x : State n × Label n) : Prop :=
  match x.1.event x.2 with
  | some (_, .dispatch) => True
  | _ => False

instance : DecidablePred (Dispatches (n := n)) := fun x => by
  unfold Dispatches
  rcases x.1.event x.2 with _ | ⟨q, e⟩
  · exact instDecidableFalse
  · cases e <;> dsimp only <;> infer_instance

variable {s s' : State 1} {l : Label 1} {p q : ProcId}

/-- A process is picked in a scan, and the index of its level moves past it. -/
theorem dispatch_cases (hstep : (schedSystem 1).step s l s')
    (hev : s.event l = some (q, .dispatch)) :
    ∃ level rest, s.cpu 0 = .scan level (q :: rest) ∧ (s.proc q).Eligible level ∧
      s'.roundrobinIndex = update s.roundrobinIndex level (q + 1) := by
  obtain ⟨c, a⟩ := l
  obtain rfl : c = 0 := Subsingleton.elim _ _
  cases a with
  | go =>
    simp only [State.event] at hev
    split at hev
    · next level i rest hc =>
      split_ifs at hev with hel
      cases hev
      refine ⟨level, rest, hc, hel, ?_⟩
      simp only [schedSystem, State.exec, State.go, hc, if_pos hel, Option.some.injEq] at hstep
      rw [← hstep]
      rfl
    all_goals cases hev
  | timer | syscall _ | sleep | kexit =>
    obtain ⟨cur, -, heq⟩ := map_eq_some_iff.mp hev
    cases heq
  | wakeup _ | allocproc _ | ready _ | freeproc _ => cases hev

lemma roundrobinIndex_eq (hstep : (schedSystem 1).step s l s')
    (hev : ∀ q, s.event l ≠ some (q, .dispatch)) : s'.roundrobinIndex = s.roundrobinIndex := by
  obtain ⟨c, a⟩ := l
  cases a with
  | go =>
    replace hstep : s.go c = some s' := hstep
    unfold State.go at hstep
    cases hc : s.cpu c with rw [hc] at hstep
    | scheduler =>
      cases hstep
      rfl
    | scan level rest =>
      cases rest with
      | nil =>
        dsimp only at hstep
        split at hstep <;> cases hstep <;> rfl
      | cons i rest =>
        dsimp only at hstep
        split_ifs at hstep with hel <;> cases hstep
        · exact absurd (by simp [State.event, hc, hel]) (hev i)
        · rfl
    | running cur => cases hstep
    | globalTick cur shouldYield =>
      dsimp only at hstep
      split_ifs at hstep <;> cases hstep <;> rfl
    | lookHigher cur currLevel rest | boost cur rest =>
      cases rest <;> dsimp only at hstep <;> (try split_ifs at hstep) <;> cases hstep <;> rfl
    | trapEnd cur shouldYield => cases cur <;> cases shouldYield <;> cases hstep <;> rfl
  | timer =>
    replace hstep : s.timer c = some s' := hstep
    unfold State.timer at hstep
    split at hstep <;> cases hstep <;> rfl
  | syscall _ | sleep | kexit =>
    obtain ⟨cur, -, hstep⟩ := bind_eq_some_iff.mp hstep
    cases hstep
    rfl
  | wakeup _ | allocproc _ | ready _ | freeproc _ =>
    simp only [schedSystem, State.exec] at hstep
    split_ifs at hstep
    cases hstep
    rfl

/-- The scan that picks `q` has not passed over a process that waits at level `k`: the level of `q`
is at most `k`, and at level `k` itself `q` comes first. -/
theorem dispatch_before {k : Fin 4} (hs : (schedSystem 1).Reachable s)
    (hstep : (schedSystem 1).step s l s') (hev : s.event l = some (q, .dispatch))
    (hp : (s.proc p).Eligible k) (hne : p ≠ q) :
    (s.proc q).level ≤ k.val ∧ ((s.proc q).level = k.val →
      distance (s'.roundrobinIndex k) p < distance (s.roundrobinIndex k) p) := by
  obtain ⟨level, rest, hc, hel, hindex⟩ := dispatch_cases hstep hev
  obtain ⟨hbelow, done, hdone, hnone⟩ := Scanned.of_reachable hs _ _ hc
  have hle : level ≤ k := not_lt.mp fun hlt => hbelow p k hlt hp
  refine ⟨by rw [hel.2]; exact_mod_cast hle, fun heq => ?_⟩
  obtain rfl : level = k := by
    rw [hel.2] at heq
    exact Fin.ext (by exact_mod_cast heq)
  -- `p` is among the processes still to be tested, after `q`
  have hmem : p ∈ rest := by
    have hall := mem_scanOrder (s.roundrobinIndex level) p
    rw [hdone] at hall
    obtain hin | hin := mem_append.mp hall
    · exact absurd hp (hnone p hin)
    · exact (mem_cons.mp hin).resolve_left hne
  have hsorted := pairwise_scanOrder (s.roundrobinIndex level)
  rw [hdone] at hsorted
  have hlt := rel_of_pairwise_cons (pairwise_append.mp hsorted).2.1 hmem
  rw [hindex, update_self]
  exact distance_succ_lt hlt

/-- While a process waits at level `k`, no process of a higher level number is picked, and every
dispatch at level `k` brings the index of the level closer to it. -/
theorem waiting_step {k : Fin 4} (hs : (schedSystem 1).Reachable s)
    (hstep : (schedSystem 1).step s l s') (hp : (s.proc p).Eligible k)
    (hp' : (s'.proc p).Eligible k) :
    (∀ q, s.event l = some (q, .dispatch) → (s.proc q).level ≤ k.val) ∧
      distance (s'.roundrobinIndex k) p + (if DispatchesAt k.val (s, l) then 1 else 0) ≤
        distance (s.roundrobinIndex k) p := by
  by_cases hd : ∃ q, s.event l = some (q, .dispatch)
  · obtain ⟨q, hev⟩ := hd
    -- the process itself is not picked, since it is still RUNNABLE
    have hne : p ≠ q := by
      rintro rfl
      obtain ⟨place, ht⟩ := State.isTurn_of_exec hstep
      have hstate := hp'.1
      rw [ht.proc_of_eq hev] at hstate
      cases hstate
    obtain ⟨hle, hlt⟩ := dispatch_before hs hstep hev hp hne
    refine ⟨fun q' hq' => ?_, ?_⟩
    · rw [hev] at hq'
      cases hq'
      exact hle
    · split_ifs with hat
      · simp only [DispatchesAt, hev] at hat
        exact hlt hat
      · -- a dispatch at another level leaves the index alone
        obtain ⟨level, rest, -, hel, hindex⟩ := dispatch_cases hstep hev
        simp only [DispatchesAt, hev] at hat
        have hk : k ≠ level := by
          rintro rfl
          exact hat hel.2
        rw [hindex, update_of_ne hk]
        exact le_rfl
  · have hnone : ∀ q, s.event l ≠ some (q, .dispatch) := not_exists.mp hd
    refine ⟨fun q hq => absurd hq (hnone q), ?_⟩
    have hat : ¬DispatchesAt k.val (s, l) := by
      intro hat
      unfold DispatchesAt at hat
      split at hat
      · next q hq => exact hnone q hq
      · exact hat
    rw [if_neg hat, roundrobinIndex_eq hstep hnone]
    exact le_rfl

/-- While a process waits at level `k`, the dispatches at level `k` are bounded by its distance from
the index. -/
theorem waiting_trace {k : Fin 4} {h : History 1} (hs : (schedSystem 1).Reachable s)
    (ht : (schedSystem 1).Trace s h s')
    (hp : ∀ t ∈ s' :: h.map Prod.fst, (t.proc p).Eligible k) :
    (∀ x ∈ h, ∀ q, x.1.event x.2 = some (q, .dispatch) → (x.1.proc q).level ≤ k.val) ∧
      distance (s'.roundrobinIndex k) p + h.countP (fun x => DispatchesAt k.val x) ≤
        distance (s.roundrobinIndex k) p := by
  induction ht with
  | nil => exact ⟨by simp, by simp⟩
  | @cons t s'' h l ht hstep ih =>
    have htp : (t.proc p).Eligible k := hp t (by simp)
    obtain ⟨hlevels, hcount⟩ := ih fun u hu => hp u (by
      simp only [map_cons, mem_cons] at hu ⊢
      exact .inr hu)
    obtain ⟨hle, hdist⟩ := waiting_step (ht.reachable hs) hstep htp (hp _ (by simp))
    refine ⟨fun x hx => ?_, ?_⟩
    · obtain rfl | hx := mem_cons.mp hx
      · exact hle
      · exact hlevels x hx
    · rw [countP_cons]
      simp only [decide_eq_true_eq]
      omega

/-- A process that is RUNNABLE stays so until it is picked, and its level changes only to 0. -/
theorem runnable_step {n : ℕ} {s s' : State n} {l : Label n} (hs : (schedSystem n).Reachable s)
    (hstep : (schedSystem n).step s l s') (hp : (s.proc p).state = .runnable)
    (hev : s.event l ≠ some (p, .dispatch)) : (s'.proc p).state = .runnable ∧
      ((s'.proc p).level = (s.proc p).level ∨ (s'.proc p).level = 0) := by
  obtain ⟨place, ht⟩ := State.isTurn_of_exec hstep
  have hsound : Sound s := .of_reachable hs
  have hidle : ∀ {c cur}, (s.cpu c).current = some cur → cur.p ≠ p := by
    rintro c cur hcur rfl
    have hrun := (hsound.current hcur).1
    rw [hp] at hrun
    cases hrun
  by_cases he : ∃ e, s.event l = some (p, e)
  · obtain ⟨e, he⟩ := he
    rw [ht.proc_of_eq he]
    have hturn := ht.turn
    rw [he] at hturn
    -- only events from outside reach a process that no CPU runs
    cases hturn with
    | dispatch => exact absurd he hev
    | tick cur _ hplace | syscall cur _ hplace =>
      exact absurd rfl (hidle (c := l.1) (by rw [hplace]; rfl))
    | sched cur _ hcur => exact absurd rfl (hidle hcur)
    | outside _ _ _ hout =>
      cases hout with
      | boost => simp [Event.apply, Proc.priorityBoost, hp]
      | wakeup => simp [Event.apply, Proc.wakeup, hp]
      | allocproc hu | ready hu | freeproc hu => simp [hp] at hu
  · rw [ht.proc_of_ne (not_exists.mp he)]
    exact ⟨hp, .inl rfl⟩

/-- A process that is RUNNABLE at level 0 stays so until it is picked. -/
theorem eligible_zero_of_trace {h : History 1} (hs : (schedSystem 1).Reachable s)
    (ht : (schedSystem 1).Trace s h s') (hp : (s.proc p).Eligible 0)
    (hnot : ∀ x ∈ h, x.1.event x.2 ≠ some (p, .dispatch)) :
    ∀ t ∈ s' :: h.map Prod.fst, (t.proc p).Eligible 0 := by
  induction ht with
  | nil => simpa using hp
  | @cons t s'' h l ht hstep ih =>
    have hbefore := ih fun x hx => hnot x (mem_cons_of_mem _ hx)
    have htp : (t.proc p).Eligible 0 := hbefore t (by simp)
    obtain ⟨hstate, hlevel⟩ :=
      runnable_step (ht.reachable hs) hstep htp.1 (hnot (t, l) mem_cons_self)
    intro u hu
    obtain rfl | hu := mem_cons.mp hu
    · refine ⟨hstate, ?_⟩
      obtain hlevel | hlevel := hlevel
      · exact hlevel.trans htp.2
      · exact hlevel
    · exact hbefore u hu

/-- A process that a boost has reset is picked at the latest by the dispatch number `NPROC`. -/
theorem dispatched_after_boost {h : History 1} (hs : (schedSystem 1).Reachable s)
    (ht : (schedSystem 1).Trace s h s') (hp : (s.proc p).Eligible 0)
    (hcount : NPROC ≤ h.countP fun x => Dispatches x) :
    ∃ x ∈ h, x.1.event x.2 = some (p, .dispatch) := by
  by_contra hnot
  simp only [not_exists, not_and] at hnot
  obtain ⟨hlevels, hbound⟩ := waiting_trace hs ht (eligible_zero_of_trace hs ht hp hnot)
  -- every dispatch is one at level 0
  have hall : h.countP (fun x => Dispatches x) ≤
      h.countP fun x => DispatchesAt ((0 : Fin 4).val : ℤ) x := by
    refine countP_mono_left fun x hx hd => ?_
    simp only [decide_eq_true_eq] at hd ⊢
    unfold Dispatches at hd
    split at hd
    · next q hq =>
      simp only [DispatchesAt, hq]
      have hge := ((Sound.of_reachable (ht.reachable_of_mem hs hx)).bounds q).level_nonneg
      exact le_antisymm (hlevels x hx q hq) hge
    · exact hd.elim
  have := distance_lt (s.roundrobinIndex 0) p
  omega

end Dispatch

/-- On one CPU, over any stretch of a run in which a process waits at a level without being picked,
no process of a higher level number is picked, and at most `NPROC - 1` of the same level. A process
that is RUNNABLE when `priority_boost` visits it is among the next `NPROC` that are picked. -/
theorem bounded_overtaking {s s' : State 1} {h : History 1} (hs : (schedSystem 1).Reachable s)
    (ht : (schedSystem 1).Trace s h s') (p : ProcId) :
    (∀ level : Fin 4, (∀ t ∈ s' :: h.map Prod.fst, (t.proc p).Eligible level) →
      (∀ x ∈ h, ∀ q, x.1.event x.2 = some (q, .dispatch) → (x.1.proc q).level ≤ level.val) ∧
        h.countP (fun x => DispatchesAt level.val x) ≤ NPROC - 1) ∧
    ∀ s₀ l, (schedSystem 1).step s₀ l s → s₀.event l = some (p, .boost) →
      (s₀.proc p).state = .runnable → NPROC ≤ h.countP (fun x => Dispatches x) →
      ∃ x ∈ h, x.1.event x.2 = some (p, .dispatch) := by
  refine ⟨fun level hp => ?_, fun s₀ l hstep hev hr hcount => ?_⟩
  · obtain ⟨hlevels, hbound⟩ := waiting_trace hs ht hp
    have := distance_lt (s.roundrobinIndex level) p
    exact ⟨hlevels, by omega⟩
  · refine dispatched_after_boost hs ht ?_ hcount
    obtain ⟨place, hturn⟩ := State.isTurn_of_exec hstep
    rw [hturn.proc_of_eq hev]
    simp [Event.apply, Proc.priorityBoost, hr, Proc.Eligible]

/-- A run that is executed up to a state, and recorded from there on. -/
theorem exists_trace (ls ls' : List (Label 1)) (P : State 1 → History 1 → State 1 → Prop)
    [∀ s h s', Decidable (P s h s')]
    (hrun : ((ls.foldlM (fun (s : State 1) l => s.exec l.1 l.2) (boot 1)).any fun s =>
      (ls'.foldlM (TransitionSystem.Trace.record fun s l => s.exec l.1 l.2) ([], s)).any
        fun x => P s x.1 x.2) = true) :
    ∃ s h s', (schedSystem 1).Reachable s ∧ (schedSystem 1).Trace s h s' ∧ P s h s' := by
  obtain ⟨s, hs, hrest⟩ := any_eq_true _ _ |>.mp hrun
  obtain ⟨⟨h, s'⟩, ht, hx⟩ := any_eq_true _ _ |>.mp hrest
  exact ⟨s, h, s', (TransitionSystem.Run.of_foldlM (fun _ _ _ => id) hs).reachable (.init rfl),
    .of_foldlM (fun _ _ _ => id) ht, of_decide_eq_true hx⟩

/-- The first process forks twice, which makes the processes 1 and 2 RUNNABLE. -/
def forkTwice : List (Label 1) :=
  [(0, .go), (0, .go), (0, .allocproc 1), (0, .ready 1), (0, .allocproc 2), (0, .ready 2)]

/-- The first process sleeps, and the scheduler picks process 1; process 2 is overtaken. -/
def overtakeOnce : List (Label 1) := [(0, .sleep), (0, .go), (0, .go)]

theorem bounded_overtaking_once : ∃ s s' h, (schedSystem 1).Reachable s ∧
    (schedSystem 1).Trace s h s' ∧ (∀ t ∈ s' :: h.map Prod.fst, (t.proc 2).Eligible 0) ∧
    h.countP (fun x => DispatchesAt 0 x) = 1 ∧
    h.countP (fun x => DispatchesAt 0 x) ≤ NPROC - 1 := by
  obtain ⟨s, h, s', hs, ht, hwait, hcount⟩ := exists_trace forkTwice overtakeOnce
    (fun _ h s' => (∀ t ∈ s' :: h.map Prod.fst, (t.proc 2).Eligible 0) ∧
      h.countP (fun x => DispatchesAt 0 x) = 1) (by decide +kernel)
  exact ⟨s, s', h, hs, ht, hwait, hcount, ((bounded_overtaking hs ht 2).1 0 hwait).2⟩

end Xv6.Sched
