import Xv6.Disk.Model

/-!
# No request is lost from the disk queue, unless `bget` cuts it

`QueueIntact` says that the walk from `disk_queue` ends, visits no buffer twice and visits every
pending buffer. The queue operations keep this. `bget` keeps it exactly when the buffer it returns
is not pending with another request linked behind it (`BgetSafe`): clearing `qnext` then drops all
the requests behind it, as `bget_cuts_queue` shows on a run with three processes.
-/

namespace Xv6.Disk

open LinkedQueue Function TransitionSystem List Option

/-! ## The property and the condition -/

/-- Every pending buffer is reachable from `disk_queue`, exactly once, and the queue ends. -/
def QueueIntact (s : DiskState) : Prop :=
  ∃ queue, Chain s.links s.diskQueue queue ∧ queue.Nodup ∧ ∀ b, s.pending b = true → b ∈ queue

/-- The condition on `bget`: the cached buffer of the block is not queued in front of another
request. -/
def BgetSafe (s : DiskState) : DiskOp → Prop
  | .bget dev blockno _ => ∀ b, findCached s dev blockno = some b →
      s.pending b = true → (s.buf b).qnext = none
  | _ => True

/-! ## Links -/

namespace DiskState

@[simp]
lemma links_setBuf (s : DiskState) (b : BufId) (v : Buf) :
    (s.setBuf b v).links = update s.links b v.qnext := by
  funext c
  by_cases h : c = b
  · subst h
    simp [links, setBuf]
  · simp [links, setBuf, h]

@[simp]
lemma pending_setBuf (s : DiskState) (b : BufId) (v : Buf) :
    (s.setBuf b v).pending = s.pending := rfl

lemma links_setBuf_of_qnext (s : DiskState) {b : BufId} {v : Buf}
    (h : v.qnext = (s.buf b).qnext) : (s.setBuf b v).links = s.links := by
  rw [links_setBuf, h]
  exact update_eq_self b s.links

end DiskState

/-! ## The invariant -/

/-- The references to a buffer: the processes that wait for its sleep-lock and the one that holds
it. -/
def references (s : DiskState) (b : BufId) : ℕ := s.waiting b + if (s.buf b).locked then 1 else 0

/-- The invariant: the queue consists of exactly the pending buffers, a pending buffer is locked,
and `refcnt` counts the references. -/
structure QueueInv (s : DiskState) : Prop where
  queue : ∃ queue, Chain s.links s.diskQueue queue ∧ queue.Nodup ∧
    ∀ b, b ∈ queue ↔ s.pending b = true
  locked : ∀ b, s.pending b = true → (s.buf b).locked = true
  refcnt : ∀ b, (s.buf b).refcnt = references s b

lemma QueueInv.intact {s : DiskState} (h : QueueInv s) : QueueIntact s := by
  obtain ⟨queue, hchain, hn, hmem⟩ := h.queue
  exact ⟨queue, hchain, hn, fun b hb => (hmem b).mpr hb⟩

lemma length_le_fuel {queue : List BufId} (hn : queue.Nodup) : queue.length ≤ NBUF + 1 := by
  have hcard := hn.length_le_card
  rw [Fintype.card_fin] at hcard
  omega

lemma QueueInv.not_pending_of_refcnt {s : DiskState} (h : QueueInv s) {b : BufId}
    (hb : (s.buf b).refcnt = 0) : s.pending b = false := by
  by_contra hc
  have hlocked := h.locked b (by simpa using hc)
  have hcount := h.refcnt b
  rw [references, hlocked, if_pos rfl] at hcount
  omega

/-- Clearing the link of a buffer that is not pending, or that is last, changes no queue. -/
private theorem chain_clear_of_safe {links : BufId → Option BufId} {head : Option BufId}
    {queue : List BufId} (hchain : Chain links head queue) {b : BufId}
    (hb : b ∈ queue → links b = none) : Chain (update links b none) head queue := by
  by_cases hmem : b ∈ queue
  · rw [← hb hmem, update_eq_self]
    exact hchain
  · exact hchain.update_of_notMem hmem none

/-! ## Steps -/

section Steps

variable {s s' : DiskState}

lemma queueInv_init (schedPolicy : ℕ) : QueueInv (initState schedPolicy) where
  queue := ⟨[], .nil, nodup_nil, fun b => by simp [initState]⟩
  locked b hb := by simp [initState] at hb
  refcnt b := rfl

/-- The lock, the references and the waiters of a buffer change, and its link stays or is cleared.
-/
private theorem QueueInv.setBuf (h : QueueInv s) {b : BufId} {v : Buf} {n : ℕ} (lru : List BufId)
    (hq : v.qnext = (s.buf b).qnext ∨
      v.qnext = none ∧ (s.pending b = true → (s.buf b).qnext = none))
    (hl : s.pending b = true → v.locked = true) (hr : v.refcnt = n + if v.locked then 1 else 0) :
    QueueInv { s.setBuf b v with waiting := update s.waiting b n, lru := lru } := by
  obtain ⟨queue, hchain, hn, hmem⟩ := h.queue
  refine ⟨⟨queue, ?_, hn, hmem⟩, fun c => ?_, fun c => ?_⟩
  · change Chain (s.setBuf b v).links s.diskQueue queue
    rcases hq with hq | ⟨hq, hsafe⟩
    · rwa [DiskState.links_setBuf_of_qnext _ hq]
    · rw [DiskState.links_setBuf, hq]
      exact chain_clear_of_safe hchain fun hb => hsafe ((hmem b).mp hb)
  · exact (forall_update_iff s.buf fun c v => s.pending c = true → v.locked = true).mpr
      ⟨hl, fun c _ => h.locked c⟩ c
  · by_cases hcb : c = b
    · subst hcb
      simpa [references, DiskState.setBuf] using hr
    · simpa [references, DiskState.setBuf, hcb] using h.refcnt c

lemma QueueInv.bget (h : QueueInv s) {dev blockno p : ℕ}
    (hsafe : BgetSafe s (.bget dev blockno p)) (hstep : Disk.bget dev blockno p s = some s') :
    QueueInv s' := by
  have hcount : ∀ b, (s.buf b).refcnt + 1 =
      s.waiting b + 1 + if (s.buf b).locked then 1 else 0 := by
    intro b
    have := h.refcnt b
    unfold references at this
    omega
  unfold Disk.bget at hstep
  split at hstep
  · next b hb =>
    cases hstep
    exact h.setBuf _ (.inr ⟨rfl, hsafe b hb⟩) (h.locked b) (hcount b)
  · split at hstep
    · next b hb =>
      cases hstep
      have hzero : (s.buf b).refcnt = 0 := by
        have hfound := List.find?_some hb
        simpa using hfound
      have hone := hcount b
      rw [hzero] at hone
      refine h.setBuf _ (.inr ⟨rfl, fun hc => ?_⟩) (h.locked b) hone
      rw [h.not_pending_of_refcnt hzero] at hc
      cases hc
    · cases hstep

lemma QueueInv.acquiresleep (h : QueueInv s) {b : BufId}
    (hstep : Disk.acquiresleep b s = some s') : QueueInv s' := by
  unfold Disk.acquiresleep at hstep
  split_ifs at hstep with hcond
  cases hstep
  refine h.setBuf _ (.inl rfl) (fun _ => rfl) ?_
  have hcount := h.refcnt b
  simp only [references, hcond.2, Bool.false_eq_true, if_false, if_true] at hcount ⊢
  omega

lemma QueueInv.brelse (h : QueueInv s) {b : BufId} (hstep : Disk.brelse b s = some s') :
    QueueInv s' := by
  unfold Disk.brelse at hstep
  split_ifs at hstep with hcond
  cases hstep
  have hcount := h.refcnt b
  rw [references, hcond.1, if_pos rfl] at hcount
  have hset := fun lru => h.setBuf lru (b := b) (n := s.waiting b)
    (v := { s.buf b with locked := false, refcnt := _ }) (.inl rfl) (by simp [hcond.2])
    (Nat.sub_eq_of_eq_add hcount)
  simp only [update_eq_self] at hset
  exact hset _

lemma QueueInv.enqueueRequest (h : QueueInv s) {b : BufId} {p : ℕ}
    (hstep : Disk.enqueueRequest b p s = some s') : QueueInv s' := by
  unfold Disk.enqueueRequest at hstep
  split_ifs at hstep with hcond
  obtain ⟨queue, hchain, hn, hmem⟩ := h.queue
  have hb : b ∉ queue := by
    rw [hmem, hcond.2]
    decide
  have hlinks : (s.setBuf b { s.buf b with p := some p }).links = s.links :=
    s.links_setBuf_of_qnext rfl
  obtain ⟨head, links, heq, hchain'⟩ := hchain.enqueue_spec hn hb (length_le_fuel hn)
  simp only [hlinks] at hstep
  change (enqueue (NBUF + 1) b s.diskQueue s.links).map _ = _ at hstep
  rw [heq] at hstep
  cases hstep
  refine ⟨⟨queue ++ [b], hchain', ?_, fun c => ?_⟩, fun c hc => ?_, fun c => ?_⟩
  · exact nodup_append.mpr ⟨hn, nodup_singleton b, fun c hc d hd => by
      rintro rfl
      exact hb (mem_singleton.mp hd ▸ hc)⟩
  · by_cases hcb : c = b
    · simp [hcb]
    · simp [hcb, hmem]
  · by_cases hcb : c = b
    · subst hcb
      simpa [DiskState.setLinks, DiskState.setBuf] using hcond.1
    · have hlocked := h.locked c (by simpa [hcb] using hc)
      simpa [DiskState.setLinks, DiskState.setBuf, hcb] using hlocked
  · have hcount := h.refcnt c
    by_cases hcb : c = b
    · subst hcb
      simpa [references, DiskState.setLinks, DiskState.setBuf] using hcount
    · simpa [references, DiskState.setLinks, DiskState.setBuf, hcb] using hcount

lemma QueueInv.schedulerLoop (h : QueueInv s) {b : BufId} {level : ℕ → ℤ}
    (hstep : Disk.schedulerLoop b level s = some s') : QueueInv s' := by
  -- only `disk_active` and the sleeping processes change
  have hframe : s'.buf = s.buf ∧ s'.diskQueue = s.diskQueue ∧ s'.pending = s.pending ∧
      s'.waiting = s.waiting := by
    unfold Disk.schedulerLoop at hstep
    split_ifs at hstep
    split at hstep
    · obtain ⟨queue, -, rfl⟩ := map_eq_some_iff.mp hstep
      exact ⟨rfl, rfl, rfl, rfl⟩
    · cases hstep
      exact ⟨rfl, rfl, rfl, rfl⟩
  obtain ⟨hbuf, hqueue, hpending, hwaiting⟩ := hframe
  have hlinks : s'.links = s.links := by
    unfold DiskState.links
    rw [hbuf]
  refine ⟨?_, ?_, fun c => ?_⟩
  · rw [hlinks, hqueue, hpending]
    exact h.queue
  · rw [hbuf, hpending]
    exact h.locked
  · have hcount := h.refcnt c
    unfold references at hcount ⊢
    rw [hbuf, hwaiting]
    exact hcount

/-- What a completed request leaves: the other pending buffers, all of them woken. -/
theorem QueueInv.completeRequest (h : QueueInv s) {b : BufId}
    (hstep : Disk.completeRequest b s = some s') :
    QueueInv s' ∧ ∀ c, s'.pending c = true → s'.asleep c = false := by
  unfold Disk.completeRequest at hstep
  split_ifs at hstep with hcond
  obtain ⟨queue, hchain, hn, hmem⟩ := h.queue
  obtain ⟨head, links, heq, hchain'⟩ :=
    hchain.dequeue_spec hn ((hmem b).mpr hcond.2) (length_le_fuel hn)
  have hn' : (queue.erase b).Nodup := hn.erase b
  rw [heq, bind_some] at hstep
  simp only [hchain'.collect_eq (length_le_fuel hn'), map_some] at hstep
  cases hstep
  have hmem' : ∀ c, c ∈ queue.erase b ↔ update s.pending b false c = true := by
    intro c
    rw [hn.mem_erase_iff, hmem]
    by_cases hcb : c = b
    · simp [hcb]
    · simp [hcb]
  refine ⟨⟨⟨_, hchain', hn', hmem'⟩, fun c hc => ?_, fun c => h.refcnt c⟩, fun c hc => ?_⟩
  · have hcb : c ≠ b := by
      rintro rfl
      simp at hc
    exact h.locked c (by simpa [hcb] using hc)
  · exact if_pos ((hmem' c).mpr hc)

end Steps

lemma QueueInv.step {s s' : DiskState} {op : DiskOp} (h : QueueInv s) (hsafe : BgetSafe s op)
    (hstep : exec s op = some s') : QueueInv s' := by
  cases op with
  | bget dev blockno p => exact h.bget hsafe hstep
  | acquiresleep b => exact h.acquiresleep hstep
  | brelse b => exact h.brelse hstep
  | enqueue b p => exact h.enqueueRequest hstep
  | schedule b level => exact h.schedulerLoop hstep
  | complete b => exact (h.completeRequest hstep).1

/-- A `bget` that does not meet the condition loses a request. -/
theorem QueueInv.not_intact_of_cut {s s' : DiskState} {op : DiskOp} (h : QueueInv s)
    (hcut : ¬BgetSafe s op) (hstep : exec s op = some s') : ¬QueueIntact s' := by
  cases op with
  | bget dev blockno p =>
    have hbuf : ∃ b, findCached s dev blockno = some b ∧ s.pending b = true ∧
        (s.buf b).qnext ≠ none := by
      by_contra hc
      exact hcut fun b hb hp => by_contra fun hq => hc ⟨b, hb, hp, hq⟩
    obtain ⟨b, hb, hp, hq⟩ := hbuf
    obtain ⟨queue, hchain, hn, hmem⟩ := h.queue
    obtain ⟨l₁, l₂, rfl⟩ := append_of_mem ((hmem b).mpr hp)
    -- something is linked behind `b`
    obtain ⟨c, l₃, rfl⟩ : ∃ c l₃, l₂ = c :: l₃ := by
      cases l₂ with
      | nil =>
        have htail := hchain.tail_of_append
        cases hlink : s.links b with
        | none => exact absurd hlink hq
        | some d => rw [hlink] at htail; cases htail
      | cons c l₃ => exact ⟨c, l₃, rfl⟩
    have hs' : s'.links = update s.links b none ∧ s'.diskQueue = s.diskQueue ∧
        s'.pending = s.pending := by
      change Disk.bget dev blockno p s = some s' at hstep
      unfold Disk.bget at hstep
      rw [hb] at hstep
      cases hstep
      exact ⟨s.links_setBuf b _, rfl, rfl⟩
    rintro ⟨queue', hchain', -, hmem'⟩
    rw [hs'.1, hs'.2.1] at hchain'
    rw [hs'.2.2] at hmem'
    have hcutQueue := hchain'.unique (hchain.clear_link hn)
    have hc : c ∈ l₁ ++ [b] := hcutQueue ▸ hmem' c ((hmem c).mp (by simp))
    have hdisj := (nodup_append.mp hn).2
    rcases mem_append.mp hc with hc₁ | hcb
    · exact hdisj.2 c hc₁ c (by simp) rfl
    · rw [mem_singleton] at hcb
      subst hcb
      simp at hdisj
  | acquiresleep | brelse | enqueue | schedule | complete => exact absurd trivial hcut

lemma queueInv_of_reachable {s : DiskState}
    (h : (diskSystem.restrict BgetSafe).Reachable s) : QueueInv s := by
  refine h.invariant (I := QueueInv) ?_ ?_
  · rintro _ ⟨schedPolicy, rfl⟩
    exact queueInv_init schedPolicy
  · rintro s op s' - hI ⟨hsafe, hstep⟩
    exact hI.step hsafe hstep

/-- **No request is lost while `bget` is safe.** In every state of every run whose `bget` calls
meet the condition, the queue is intact; the next operation keeps it intact if and only if it
meets the condition too; and when a request completes, every process that is still pending is
awake. -/
theorem disk_queue_intact {s : DiskState} (h : (diskSystem.restrict BgetSafe).Reachable s) :
    QueueIntact s ∧
    (∀ op s', exec s op = some s' → (QueueIntact s' ↔ BgetSafe s op)) ∧
    ∀ b s', exec s (.complete b) = some s' →
      s'.diskActive = none ∧ ∀ c, s'.pending c = true → s'.asleep c = false := by
  have hinv := queueInv_of_reachable h
  refine ⟨hinv.intact, fun op s' hstep => ⟨fun hs' => ?_, fun hsafe => ?_⟩, fun b s' hstep => ?_⟩
  · by_contra hcut
    exact hinv.not_intact_of_cut hcut hstep hs'
  · exact (hinv.step hsafe hstep).intact
  · refine ⟨?_, (hinv.completeRequest hstep).2⟩
    change completeRequest b s = some s' at hstep
    unfold completeRequest at hstep
    split_ifs at hstep
    obtain ⟨x, -, hx⟩ := bind_eq_some_iff.mp hstep
    obtain ⟨queue, -, rfl⟩ := map_eq_some_iff.mp hx
    rfl

/-! ## A run that loses a request -/

/-- The two buffers that the first two calls of `bget` take. -/
def firstBuf : BufId := ⟨0, nbuf_pos⟩

@[inherit_doc firstBuf]
def secondBuf : BufId := ⟨1, one_lt_nbuf⟩

/-- Processes 0 and 1 read blocks 10 and 20: their buffers are queued. -/
def twoReaders : List DiskOp :=
  [.bget 1 10 0, .bget 1 20 1, .acquiresleep firstBuf, .acquiresleep secondBuf,
    .enqueue firstBuf 0, .enqueue secondBuf 1]

/-- While two reads are queued, process 2 calls `bget` on the block of the first: the request of
process 1 is pending and no longer in the queue. -/
theorem bget_cuts_queue :
    ∃ s, (twoReaders ++ [DiskOp.bget 1 10 2]).foldlM exec (initState 0) = some s ∧
      diskSystem.Reachable s ∧ s.pending secondBuf = true ∧ ¬QueueIntact s := by
  have hview : ((twoReaders ++ [DiskOp.bget 1 10 2]).foldlM exec (initState 0)).map
      (fun s : DiskState => (s.diskQueue, s.links firstBuf, s.pending secondBuf)) =
        some (some firstBuf, none, true) := by decide
  obtain ⟨s, hs, hview⟩ := map_eq_some_iff.mp hview
  rw [Prod.mk.injEq, Prod.mk.injEq] at hview
  obtain ⟨hhead, hlink, hpending⟩ := hview
  have hrun : diskSystem.Run (initState 0) _ s := .of_foldlM (fun _ _ _ h => h) hs
  refine ⟨s, hs, hrun.reachable (.init ⟨0, rfl⟩), hpending, ?_⟩
  rintro ⟨queue, hchain, -, hmem⟩
  -- the walk from `disk_queue` now ends at the first buffer
  have honly : Chain s.links s.diskQueue [firstBuf] := by
    rw [hhead]
    refine .cons ?_
    rw [hlink]
    exact .nil
  rw [hchain.unique honly] at hmem
  exact absurd (hmem secondBuf hpending) (by decide)

instance (s : DiskState) : DecidablePred (BgetSafe s)
  | .bget .. => inferInstanceAs (Decidable (∀ _, _))
  | .acquiresleep _ | .brelse _ | .enqueue _ _ | .schedule _ _ | .complete _ =>
    inferInstanceAs (Decidable True)

/-- The two queued reads alone leave the queue intact. -/
theorem two_readers_intact :
    ∃ s, twoReaders.foldlM exec (initState 0) = some s ∧ s.pending firstBuf = true ∧
      s.pending secondBuf = true ∧ QueueIntact s := by
  have hview : (twoReaders.foldlM (fun s op => if BgetSafe s op then exec s op else none)
      (initState 0)).any (fun s => s.pending firstBuf && s.pending secondBuf) = true := by
    decide
  obtain ⟨s, hs, hpending⟩ := any_eq_true _ _ |>.mp hview
  rw [Bool.and_eq_true] at hpending
  have hinit : (diskSystem.restrict BgetSafe).Reachable (initState 0) := .init ⟨0, rfl⟩
  have hrun := Run.of_foldlM (S := diskSystem.restrict BgetSafe)
    (restrict_step_of_ite fun _ _ _ h => h) hs
  have hexec : twoReaders.foldlM exec (initState 0) = some s :=
    hrun.foldlM_eq (f := id) (fun _ _ _ _ (_ : True) => And.right) hinit fun _ _ => trivial
  exact ⟨s, hexec, hpending.1, hpending.2, (disk_queue_intact (hrun.reachable hinit)).1⟩

end Xv6.Disk
