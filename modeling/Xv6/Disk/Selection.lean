import Xv6.Disk.QueueIntact

/-!
# Which request becomes active

The two passes of the selection in `virtio_disk_rw`. The first finds the smallest level of a
requesting process, the second the first request of that level or the nearest one.
-/

namespace Xv6.Disk

open LinkedQueue List

/-- The level of the process that made the request; a request without one comes last. -/
def requestLevel (s : DiskState) (level : ℕ → ℤ) (b : BufId) : ℤ :=
  ((s.buf b).p.map level).getD 0x7fffffff

section Selection

variable {s : DiskState} {level : ℕ → ℤ} {best : ℤ} {found : Bool}

/-- The first pass: unless no level is below the initial value, a request has the best one. -/
theorem bestLevel_spec (hlevel : ∀ p, level p ≤ 0x7fffffff) (queue : List BufId) :
    ∃ best found, bestLevel s level queue = (best, found) ∧
      (∀ b ∈ queue, best ≤ requestLevel s level b) ∧
      (found = false ∧ best = 0x7fffffff ∨
        found = true ∧ best < 0x7fffffff ∧ ∃ b ∈ queue, requestLevel s level b = best) := by
  unfold bestLevel
  induction queue using reverseRecOn with
  | nil => exact ⟨_, _, rfl, by simp, .inl ⟨rfl, rfl⟩⟩
  | append_singleton queue b ih =>
    obtain ⟨best, found, heq, hmin, hfound⟩ := ih
    simp only [foldl_append, heq, foldl_cons, foldl_nil, forall_mem_append, forall_mem_singleton]
    have hfound' := hfound.imp_right fun h => h.imp_right fun h => h.imp_right fun ⟨c, hc, hl⟩ =>
      (⟨c, mem_append_left [b] hc, hl⟩ : ∃ c ∈ queue ++ [b], requestLevel s level c = best)
    cases hp : (s.buf b).p with
    | none =>
      have hb : requestLevel s level b = 0x7fffffff := by simp [requestLevel, hp]
      exact ⟨best, found, rfl, ⟨hmin, by omega⟩, hfound'⟩
    | some p =>
      have hb : requestLevel s level b = level p := by simp [requestLevel, hp]
      have hle := hlevel p
      dsimp only
      split_ifs with hlt
      · refine ⟨_, _, rfl, ⟨fun c hc => ?_, hb.ge⟩, .inr ⟨rfl, by omega, b, by simp, hb⟩⟩
        exact (Int.le_of_lt hlt).trans (hmin c hc)
      · exact ⟨best, found, rfl, ⟨hmin, by omega⟩, hfound'⟩

/-- The second pass: `c` is the first request of the level, or it is nearer than those before it and
as near as those behind it. -/
theorem chooseLoop_spec {queue : List BufId} (hqueue : ∀ b ∈ queue,
    (!found ∨ (s.buf b).p.map level = some best) ↔ requestLevel s level b = best)
    (chosen : BufId) (minDist : ℕ) :
    (∃ pre c post, queue = pre ++ c :: post ∧
      chooseLoop s level best found queue chosen minDist = c ∧ requestLevel s level c = best ∧
      (s.schedPolicy ≠ 0 → distance s c < minDist) ∧
      (∀ b ∈ pre, requestLevel s level b = best → s.schedPolicy ≠ 0 ∧ distance s c < distance s b) ∧
      ∀ b ∈ post, requestLevel s level b = best → s.schedPolicy ≠ 0 →
        distance s c ≤ distance s b) ∨
    chooseLoop s level best found queue chosen minDist = chosen ∧
      ∀ b ∈ queue, requestLevel s level b = best → s.schedPolicy ≠ 0 ∧ minDist ≤ distance s b := by
  induction queue generalizing chosen minDist with
  | nil => exact .inr ⟨rfl, by simp⟩
  | cons curr rest ih =>
    rw [forall_mem_cons] at hqueue
    simp only [chooseLoop, hqueue.1]
    split_ifs with hcurr hpolicy hnear
    · exact .inl ⟨[], curr, rest, rfl, rfl, hcurr, fun h => absurd hpolicy h, by simp,
        fun _ _ _ h => absurd hpolicy h⟩
    · -- the rest is compared with `curr`
      rcases ih hqueue.2 curr (distance s curr) with
        ⟨pre, c, post, rfl, heq, hc, hdist, hpre, hpost⟩ | ⟨heq, hrest⟩
      · refine .inl ⟨curr :: pre, c, post, rfl, heq, hc, fun h => (hdist h).trans hnear, ?_, hpost⟩
        exact forall_mem_cons.mpr ⟨fun _ => ⟨hpolicy, hdist hpolicy⟩, hpre⟩
      · exact .inl ⟨[], curr, rest, rfl, heq, hcurr, fun _ => hnear, by simp,
          fun b hb hl _ => (hrest b hb hl).2⟩
    all_goals
      -- `curr` is passed over: it is too far, or of another level
      have hskip : requestLevel s level curr = best →
          s.schedPolicy ≠ 0 ∧ minDist ≤ distance s curr := by grind
      rcases ih hqueue.2 chosen minDist with
        ⟨pre, c, post, rfl, heq, hc, hdist, hpre, hpost⟩ | ⟨heq, hrest⟩
      · refine .inl ⟨curr :: pre, c, post, rfl, heq, hc, hdist, ?_, hpost⟩
        refine forall_mem_cons.mpr ⟨fun hl => ?_, hpre⟩
        exact ⟨(hskip hl).1, (hdist (hskip hl).1).trans_le (hskip hl).2⟩
      · exact .inr ⟨heq, forall_mem_cons.mpr ⟨hskip, hrest⟩⟩

end Selection

/-- Whichever waiting process runs the selection, it makes the same request active: one of the
smallest level, under policy 0 the earliest of that level, under policy 1 the nearest of that level
and the earliest of the nearest. -/
theorem disk_selection {s : DiskState} {level : ℕ → ℤ} {queue : List BufId}
    (hchain : Chain s.links s.diskQueue queue) (hn : queue.Nodup) (hne : queue ≠ [])
    (hactive : s.diskActive = none) (hlevel : ∀ p, level p ≤ 0x7fffffff)
    (hdist : ∀ b ∈ queue, distance s b < 2 ^ 32 - 1) :
    ∃ pre c post, queue = pre ++ c :: post ∧
      (∀ b ∈ queue, requestLevel s level c ≤ requestLevel s level b) ∧
      (s.schedPolicy = 0 → ∀ b ∈ pre, requestLevel s level b ≠ requestLevel s level c) ∧
      (s.schedPolicy = 1 →
        (∀ b ∈ pre, requestLevel s level b = requestLevel s level c →
          distance s c < distance s b) ∧
        ∀ b ∈ post, requestLevel s level b = requestLevel s level c →
          distance s c ≤ distance s b) ∧
      ∀ b, s.pending b = true → s.asleep b = false →
        ∃ s', schedulerLoop b level s = some s' ∧ s'.diskActive = some c := by
  obtain ⟨best, found, hbest, hmin, hfound⟩ := bestLevel_spec (s := s) hlevel queue
  have hqueue : ∀ b ∈ queue,
      (!found ∨ (s.buf b).p.map level = some best) ↔ requestLevel s level b = best := by
    intro b hb
    rcases hfound with ⟨rfl, hmax⟩ | ⟨rfl, hlt, -⟩
    · -- every level is the initial value
      refine iff_of_true (.inl rfl) (Int.le_antisymm ?_ (hmin b hb))
      unfold requestLevel
      cases (s.buf b).p with
      | none => exact hmax.ge
      | some p => exact (hlevel p).trans hmax.ge
    · simp [requestLevel, Option.getD_eq_iff, hlt.ne']
  have hmem : ∃ b ∈ queue, requestLevel s level b = best := by
    rcases hfound with ⟨rfl, -⟩ | ⟨-, -, hmem⟩
    · obtain ⟨b, hb⟩ := exists_mem_of_ne_nil _ hne
      exact ⟨b, hb, (hqueue b hb).mp (.inl rfl)⟩
    · exact hmem
  obtain ⟨head, hhead⟩ : ∃ head, s.diskQueue = some head := by
    refine Option.ne_none_iff_exists'.mp fun hq => ?_
    rw [hq] at hchain
    cases hchain
    exact hne rfl
  rcases chooseLoop_spec hqueue head 0xFFFFFFFF with
    ⟨pre, c, post, hsplit, hc, hcl, -, hpre, hpost⟩ | ⟨-, hfar⟩
  · refine ⟨pre, c, post, hsplit, ?_, ?_, ?_, fun b hpending hawake => ?_⟩
    · rw [hcl]
      exact hmin
    · rw [hcl]
      exact fun hpolicy b hb hl => (hpre b hb hl).1 hpolicy
    · rw [hcl]
      exact fun hpolicy => ⟨fun b hb hl => (hpre b hb hl).2,
        fun b hb hl => hpost b hb hl (by simp [hpolicy])⟩
    · have hcollect := hchain.collect_eq (length_le_fuel hn)
      rw [hhead] at hcollect
      simp [schedulerLoop, hpending, hawake, hactive, hhead, hcollect, choose, hbest, hc]
  · obtain ⟨b, hb, hl⟩ := hmem
    exact absurd (hdist b hb) (hfar b hb hl).2.not_gt

lemma four_le_nbuf : 4 ≤ NBUF := by decide

/-- One of four buffers. -/
def request (i : Fin 4) : BufId := i.castLE four_le_nbuf

/-- Four requests while the head is at block 10. The first one is the nearest, but its process has
level 1. The others have level 0; of these the third and the fourth are equally near. -/
def fourRequests (schedPolicy : ℕ) : DiskState :=
  { initState schedPolicy with
    buf := fun b =>
      { dev := 1, blockno := [10, 30, 12, 8].getD b 0, refcnt := 1, p := some b, locked := true
        qnext := if h : b.val + 1 < 4 then some (request ⟨b + 1, h⟩) else none }
    diskQueue := some (request 0)
    headPosition := 10
    pending := fun b => b.val < 4 }

@[inherit_doc fourRequests]
def fourLevels (p : ℕ) : ℤ := if p = 0 then 1 else 0

theorem disk_selection_four :
    (∀ i, ∃ s', schedulerLoop (request i) fourLevels (fourRequests 0) = some s' ∧
      s'.diskActive = some (request 1)) ∧
    ∀ i, ∃ s', schedulerLoop (request i) fourLevels (fourRequests 1) = some s' ∧
      s'.diskActive = some (request 2) := by
  have hlevel : ∀ p, fourLevels p ≤ 0x7fffffff := by
    intro p
    unfold fourLevels
    split <;> decide
  have hchain : ∀ policy, Chain (fourRequests policy).links (fourRequests policy).diskQueue
      [request 0, request 1, request 2, request 3] := fun _ => .cons (.cons (.cons (.cons .nil)))
  have hpending : ∀ policy i, (fourRequests policy).pending (request i) = true :=
    fun _ i => decide_eq_true i.isLt
  -- the positions of the request that becomes active
  have hpos : ∀ {pre post c}, [request 0, request 1, request 2, request 3] = pre ++ c :: post →
      pre = [] ∧ c = request 0 ∨ pre = [request 0] ∧ c = request 1 ∨
        pre = [request 0, request 1] ∧ c = request 2 ∨
        pre = [request 0, request 1, request 2] ∧ c = request 3 := by
    intro pre post c h
    simp only [cons_eq_append_iff, nil_eq, append_eq_nil_iff, cons.injEq] at h
    grind
  constructor
  · obtain ⟨pre, c, post, hsplit, hmin, hfirst, -, hstep⟩ := disk_selection (hchain 0) (by decide)
      (by simp) rfl hlevel (by decide)
    have hc : c = request 1 := by
      rcases hpos hsplit with ⟨rfl, rfl⟩ | ⟨rfl, rfl⟩ | ⟨rfl, rfl⟩ | ⟨rfl, rfl⟩
      · exact absurd (hmin (request 1) (by simp)) (by decide)
      · rfl
      all_goals exact absurd rfl (hfirst rfl (request 1) (by simp))
    exact fun i => hc ▸ hstep _ (hpending 0 i) rfl
  · obtain ⟨pre, c, post, hsplit, hmin, -, hnear, hstep⟩ := disk_selection (hchain 1) (by decide)
      (by simp) rfl hlevel (by decide)
    have hc : c = request 2 := by
      rcases hpos hsplit with ⟨rfl, rfl⟩ | ⟨rfl, rfl⟩ | ⟨rfl, rfl⟩ | ⟨rfl, rfl⟩
      · exact absurd (hmin (request 1) (by simp)) (by decide)
      · obtain rfl : [request 2, request 3] = post := by simpa using hsplit
        exact absurd ((hnear rfl).2 (request 2) (by simp) rfl) (by decide)
      · rfl
      · exact absurd ((hnear rfl).1 (request 2) (by simp) rfl) (by decide)
    exact fun i => hc ▸ hstep _ (hpending 1 i) rfl

end Xv6.Disk
