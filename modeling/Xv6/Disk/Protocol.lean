import Xv6.Disk.Virtqueue

/-!
# The virtio request protocol

At most one request is on its way, that of `disk_active`. `Stage` is the abstract state of the
driver: no request, or the request of one buffer with the phase that it is in. The phases follow
each other in a fixed order, and `Represents` says which state of the descriptors, the rings and the
indices belongs to each. The indices are the lengths of the histories modulo `2 ^ 16`, so it does
not matter that they wrap.
-/

namespace Xv6.Disk

open Function List Option

/-! ## Ring indices -/

/-- `NUM` divides `2 ^ 16`, so the cell of an index does not depend on how often it has wrapped. -/
theorem toNat_ofNat_mod_num (n : ℕ) : (UInt16.ofNat n).toNat % NUM = n % NUM := by
  rw [UInt16.toNat_ofNat']
  exact Nat.mod_mod_of_dvd n (by decide)

lemma ofNat_add_one (n : ℕ) : UInt16.ofNat n + 1 = UInt16.ofNat (n + 1) := by
  rw [UInt16.ofNat_add]
  rfl

lemma ofNat_ne_ofNat_add_one (n : ℕ) : UInt16.ofNat n ≠ UInt16.ofNat (n + 1) := by
  intro h
  have hnat := congrArg UInt16.toNat h
  rw [UInt16.toNat_ofNat', UInt16.toNat_ofNat'] at hnat
  omega

/-! ## The abstract protocol -/

/-- How far a request has come. -/
inductive Phase where
  /-- The chain is in the avail ring. -/
  | queued
  /-- The device has taken the chain. -/
  | fetched
  /-- The device has served the chain, which is in the used ring. -/
  | served
  /-- The interrupt handler has seen the chain in the used ring. -/
  | seen
deriving DecidableEq

/-- The request that has descriptors, if there is one. -/
abbrev Stage := Option (BufId × Phase)

namespace Stage

/-- The buffers whose chains the device has not yet served or the driver has not yet seen. -/
def waiting : Stage → List BufId
  | none => []
  | some (_, .seen) => []
  | some (b, _) => [b]

/-- The buffers whose chains are in the used ring and have not been seen. -/
def unseen : Stage → List BufId
  | some (b, .served) => [b]
  | _ => []

/-- The heads of the chains that the device works on. -/
def inflight : Stage → List ℕ
  | some (_, .fetched) => [0]
  | _ => []

/-- The number of chains in the avail ring that the device has not taken. -/
def untaken : Stage → ℕ
  | some (_, .queued) => 1
  | _ => 0

/-- The stage after a step. -/
def next (t : Stage) : DriverOp → Stage
  | .start b => t.getD (b, .queued)
  | .fetch => t.map fun (b, _) => (b, .fetched)
  | .serve _ => t.map fun (b, _) => (b, .served)
  | .intrLoop => t.map fun (b, _) => (b, .seen)
  | .finish _ => t.filter fun (_, ph) => ph ≠ .seen
  | _ => t

lemma waiting_next {t : Stage} {op : DriverOp} {b : BufId} (hop : op ≠ .intrLoop)
    (hb : b ∈ waiting t) : b ∈ waiting (t.next op) := by
  match t, hb with
  | some (c, .queued), hb | some (c, .fetched), hb | some (c, .served), hb =>
    cases op with
    | intrLoop => exact absurd rfl hop
    | start | fetch | serve | finish => exact hb
    | bget | acquiresleep | brelse | rw | schedule | kill | intrEnter | intrExit => exact hb

/-- The descriptors of the request of a buffer. -/
def idx : Stage → BufId → Option (ℕ × ℕ × ℕ)
  | none, _ => none
  | some (c, _), b => if b = c then some (0, 1, 2) else none

end Stage

/-- The descriptors `i0`, `i1`, `i2` are in use and are a chain for the buffer `b`: the header, the
data and the status byte. -/
structure Virtqueue.Linked (q : Virtqueue) (write : Bool) (b : BufId) (i0 i1 i2 : ℕ) : Prop where
  bounds : i0 < NUM ∧ i1 < NUM ∧ i2 < NUM
  distinct : i0 ≠ i1 ∧ i0 ≠ i2 ∧ i1 ≠ i2
  used : q.free i0 = false ∧ q.free i1 = false ∧ q.free i2 = false
  head : q.desc i0 =
    { addr := .ops i0, len := 16, chained := true, deviceWrites := false, next := i1 }
  data : q.desc i1 =
    { addr := .data b, len := BSIZE, chained := true, deviceWrites := !write, next := i2 }
  status : q.desc i2 =
    { addr := .status i0, len := 1, chained := false, deviceWrites := true, next := 0 }
  buf : (q.info i0).b = some b

/-- The state of the driver and the device belongs to the stage `t`. -/
structure Driver.Represents (s : Driver) (t : Stage) : Prop where
  availIdx : s.virtq.availIdx = .ofNat s.submitted.length
  usedIdx : s.virtq.usedIdx = .ofNat s.completed.length
  seenIdx : s.virtq.seenIdx = .ofNat s.cleared.length
  submitted : s.submitted = s.cleared ++ t.waiting
  completed : s.completed = s.cleared ++ t.unseen
  lastAvail : ∃ n, s.lastAvail = .ofNat n ∧ n + t.untaken = s.submitted.length
  inflight : s.inflight = t.inflight
  idx : s.idx = t.idx
  disk : ∀ b, s.disk b = true ↔ b ∈ t.waiting
  active : ∀ b ph, t = some (b, ph) → s.cache.diskActive = some b ∧ s.cache.pending b = true
  linked : ∀ b ph, t = some (b, ph) → s.virtq.Linked (s.write b) b 0 1 2
  free : ∀ i < NUM, s.virtq.free i = true ↔ t = none ∨ 3 ≤ i
  availRing : ∀ b, t = some (b, .queued) → s.virtq.availRing (s.cleared.length % NUM) = 0
  usedRing : ∀ b, t = some (b, .served) →
    s.virtq.usedRing (s.cleared.length % NUM) = 0 ∧ (s.virtq.info 0).status = 0

lemma initDriver_represents (schedPolicy : ℕ) : (initDriver schedPolicy).Represents none where
  availIdx := rfl
  usedIdx := rfl
  seenIdx := rfl
  submitted := rfl
  completed := rfl
  lastAvail := ⟨0, rfl, rfl⟩
  inflight := rfl
  idx := rfl
  disk b := by simp [initDriver, Stage.waiting]
  active := nofun
  linked := nofun
  free i _ := by simp [initDriver, virtioDiskInit]
  availRing := nofun
  usedRing := nofun

/-! ## What the steps do to the cache -/

section Cache

variable {c c' : DiskState} {b : BufId} {p : ℕ}

/-- Neither the active request nor the set of pending requests has changed. -/
def DiskState.SameRequests (c c' : DiskState) : Prop :=
  c'.diskActive = c.diskActive ∧ c'.pending = c.pending

lemma bget_sameRequests {dev blockno : ℕ} (h : bget dev blockno p c = some c') :
    c.SameRequests c' := by
  unfold bget at h
  split at h
  · cases h
    exact ⟨rfl, rfl⟩
  · split at h
    · cases h
      exact ⟨rfl, rfl⟩
    · cases h

lemma acquiresleep_sameRequests (h : acquiresleep b c = some c') : c.SameRequests c' := by
  obtain ⟨-, h⟩ := ite_none_right_eq_some.mp h
  cases h
  exact ⟨rfl, rfl⟩

lemma brelse_sameRequests (h : brelse b c = some c') : c.SameRequests c' := by
  obtain ⟨-, h⟩ := ite_none_right_eq_some.mp h
  cases h
  exact ⟨rfl, rfl⟩

lemma enqueueRequest_requests (h : enqueueRequest b p c = some c') :
    c.pending b = false ∧ c'.diskActive = c.diskActive ∧
      c'.pending = update c.pending b true := by
  obtain ⟨⟨-, hpending⟩, h⟩ := ite_none_right_eq_some.mp h
  obtain ⟨⟨head, links⟩, -, rfl⟩ := map_eq_some_iff.mp h
  exact ⟨hpending, rfl, rfl⟩

lemma schedulerLoop_requests {level : ℕ → ℤ} (h : schedulerLoop b level c = some c') :
    c'.pending = c.pending ∧ (c.diskActive = none ∨ c'.diskActive = c.diskActive) := by
  obtain ⟨-, h⟩ := ite_none_right_eq_some.mp h
  split at h
  · rename_i hactive hqueue
    obtain ⟨queue, -, rfl⟩ := map_eq_some_iff.mp h
    exact ⟨rfl, .inl hactive⟩
  · cases h
    exact ⟨rfl, .inr rfl⟩

end Cache

/-! ## Descriptors -/

section Descriptors

variable {q : Virtqueue}

namespace Virtqueue

lemma allocDesc_eq {i : ℕ} (hi : i < NUM) (hfree : q.free i = true)
    (hused : ∀ j < i, q.free j = false) :
    q.allocDesc = some (i, { q with free := update q.free i false }) := by
  have hfind : (List.range NUM).find? q.free = some i := by
    rw [List.find?_range_eq_some]
    exact ⟨hfree, mem_range.mpr hi, fun j hj => by rw [hused j hj]; rfl⟩
  unfold allocDesc
  rw [hfind]

lemma alloc3Desc_eq (hfree : ∀ i < NUM, q.free i = true) :
    q.alloc3Desc = .ok (some (0, 1, 2), { q with
      free := update (update (update q.free 0 false) 1 false) 2
        false }) := by
  have h0 := hfree 0 (by decide)
  have h1 := hfree 1 (by decide)
  have h2 := hfree 2 (by decide)
  unfold alloc3Desc
  rw [allocDesc_eq (by decide) h0 (by omega)]
  dsimp only
  rw [allocDesc_eq (i := 1) (by decide) (by simpa using h1) fun j hj => by
    obtain rfl : j = 0 := by omega
    rfl]
  dsimp only
  rw [allocDesc_eq (i := 2) (by decide) (by simpa using h2) fun j hj => by
    obtain rfl | rfl : j = 0 ∨ j = 1 := by omega
    · rfl
    · rfl]
  rfl

/-- The virtqueue when the chain of the first three descriptors has been freed. -/
def freed (q : Virtqueue) : Virtqueue :=
  { q with
    desc := update (update (update q.desc 0 .zero) 1 .zero) 2 .zero
    free := update (update (update q.free 0 true) 1 true) 2 true
    starved := fun _ => false }

lemma Linked.freeChain_eq {write : Bool} {b : BufId} (h : q.Linked write b 0 1 2) :
    (q.clearInfo 0).freeChain (NUM + 1) 0 = .ok (q.clearInfo 0).freed := by
  obtain ⟨h0, h1, h2⟩ := h.used
  have hhead := h.head
  have hdata := h.data
  have hstatus := h.status
  -- three iterations, each of which leaves the descriptors of the later ones alone
  simp [freeChain, freeDesc, clearInfo, freed, NUM, h0, h1, h2, hhead, hdata, hstatus, bind,
    Except.bind, pure, Except.pure]

end Virtqueue

end Descriptors

/-! ## The steps -/

section Steps

variable {s s' : Driver} {t : Stage} {b : BufId} {ph : Phase}

namespace Driver.Represents

section

variable (h : s.Represents t)

include h

/-- Steps that change only the cache, and keep the active request. -/
theorem of_cache {cache : DiskState}
    (hactive : ∀ b ph, t = some (b, ph) → cache.diskActive = some b ∧ cache.pending b = true) :
    ({ s with cache } : Driver).Represents t :=
  { h with active := hactive }

lemma of_sameRequests {cache : DiskState} (hsame : s.cache.SameRequests cache) :
    ({ s with cache } : Driver).Represents t := by
  refine h.of_cache fun b ph ht => ?_
  rw [hsame.1, hsame.2]
  exact h.active b ph ht

lemma idx_eq_some {i : ℕ × ℕ × ℕ} (hidx : s.idx b = some i) :
    i = (0, 1, 2) ∧ ∃ ph, t = some (b, ph) := by
  rw [h.idx] at hidx
  match t, hidx with
  | some (c, ph), hidx =>
    obtain ⟨rfl, hi⟩ := ite_none_right_eq_some.mp hidx
    exact ⟨(Option.some.inj hi).symm, ph, rfl⟩

/-- A process comes out of the scheduler loop only if no request has descriptors. -/
theorem stage_of_chosen (hb : s.Chosen b) : t = none := by
  obtain ⟨-, -, hactive, hidx, -⟩ := hb
  match t, h with
  | none, _ => rfl
  | some (c, ph), h =>
    have hc := (h.active c ph rfl).1
    rw [hactive] at hc
    cases hc
    rw [h.idx] at hidx
    simp [Stage.idx] at hidx

/-- The beginning of a call. -/
theorem rw {p : ℕ} {write : Bool} (hstep : s.rw b p write = some s') : s'.Represents t := by
  obtain ⟨cache, hcache, rfl⟩ := map_eq_some_iff.mp hstep
  obtain ⟨hpending, hactive, hpending'⟩ := enqueueRequest_requests hcache
  -- the buffer of the stage is pending, so the new request is for another one
  have hne : ∀ c ph, t = some (c, ph) → c ≠ b := by
    rintro c ph ht rfl
    rw [(h.active c ph ht).2] at hpending
    cases hpending
  refine { h with active := fun c ph ht => ?_, linked := fun c ph ht => ?_ }
  · have hc := h.active c ph ht
    rw [hactive, hpending', update_of_ne (hne c ph ht)]
    exact hc
  · dsimp only
    rw [update_of_ne (hne c ph ht)]
    exact h.linked c ph ht

/-- The chosen process gets descriptors and submits its request. -/
theorem start (hb : s.Chosen b) : ∃ s', s.start b = .ok s' ∧ s'.Represents (some (b, .queued)) := by
  obtain rfl := h.stage_of_chosen hb
  obtain ⟨hpending, -, hactive, -, -⟩ := hb
  have hfree : ∀ i < NUM, s.virtq.free i = true := fun i hi => (h.free i hi).mpr (.inl rfl)
  have hsubmitted : s.submitted = s.cleared := h.submitted.trans (append_nil _)
  have hlast : s.lastAvail = .ofNat s.cleared.length := by
    obtain ⟨n, hn, hlen⟩ := h.lastAvail
    rw [hn, ← hsubmitted, ← hlen]
    rfl
  have havail : s.virtq.availIdx = .ofNat s.cleared.length := by
    rw [h.availIdx, hsubmitted]
  unfold Driver.start
  rw [Virtqueue.alloc3Desc_eq hfree]
  refine ⟨_, rfl, ?_⟩
  constructor
  · -- availIdx
    simp only [Virtqueue.submit, length_append, length_singleton]
    rw [h.availIdx, ofNat_add_one]
  · exact h.usedIdx
  · exact h.seenIdx
  · exact congrArg (· ++ [b]) hsubmitted
  · exact h.completed
  · refine ⟨s.cleared.length, hlast, ?_⟩
    rw [← hsubmitted]
    simp [Stage.untaken]
  · exact h.inflight
  · -- idx
    funext c
    have hidx : s.idx c = none := congrFun h.idx c
    by_cases hc : c = b
    · subst hc
      simp [Stage.idx]
    · simp [Stage.idx, hc, hidx]
  · -- disk
    intro c
    have hdisk : s.disk c = false := by
      rw [← Bool.not_eq_true, h.disk]
      simp [Stage.waiting]
    by_cases hc : c = b
    · subst hc
      simp [Stage.waiting]
    · simp [Stage.waiting, hc, hdisk]
  · rintro c ph ⟨⟩
    exact ⟨hactive, hpending⟩
  · -- linked
    rintro c ph ⟨⟩
    constructor <;> simp [Virtqueue.submit, NUM]
  · -- free
    intro i hi
    have hi' := hfree i hi
    simp only [Virtqueue.submit]
    by_cases h3 : 3 ≤ i
    · rw [update_of_ne (by omega), update_of_ne (by omega), update_of_ne (by omega)]
      simp [hi', h3]
    · obtain rfl | rfl | rfl : i = 0 ∨ i = 1 ∨ i = 2 := by omega
      all_goals simp [h3]
  · -- availRing
    rintro c ⟨⟩
    simp only [Virtqueue.submit]
    rw [havail, toNat_ofNat_mod_num, update_self]
  · rintro c ⟨⟩

lemma fetch (hstep : s.fetch = some s') :
    ∃ b, t = some (b, .queued) ∧ s'.Represents (some (b, .fetched)) := by
  obtain ⟨hne, hs⟩ := ite_none_right_eq_some.mp hstep
  cases hs
  obtain ⟨n, hn, hlen⟩ := h.lastAvail
  match t, h with
  | some (b, .queued), h =>
    refine ⟨b, rfl, ?_⟩
    have hcleared : n = s.cleared.length := by
      rw [h.submitted] at hlen
      simpa [Stage.untaken, Stage.waiting] using hlen
    refine { h with
      lastAvail := ⟨n + 1, by rw [hn, ofNat_add_one], hlen⟩
      inflight := ?_
      active := fun c ph hc => ?_
      linked := fun c ph hc => ?_
      free := fun i hi => ?_
      availRing := nofun
      usedRing := nofun }
    · -- the chain is the one that was put there
      dsimp only
      rw [h.inflight, hn, toNat_ofNat_mod_num, hcleared, h.availRing b rfl]
      rfl
    · cases hc
      exact h.active b _ rfl
    · cases hc
      exact h.linked b _ rfl
    · rw [h.free i hi]
      simp
  | none, h | some (b, .fetched), h | some (b, .served), h | some (b, .seen), h =>
    -- the device has looked at the whole avail ring
    refine absurd ?_ hne
    rw [hn, h.availIdx, ← hlen]
    rfl

lemma serve {i : ℕ} (hstep : s.serve i = some s') :
    ∃ b, t = some (b, .fetched) ∧ s'.Represents (some (b, .served)) := by
  obtain ⟨hmem, hs⟩ := ite_none_right_eq_some.mp hstep
  rw [h.inflight] at hmem
  match t, h, hmem with
  | some (b, .fetched), h, hmem =>
    obtain rfl : i = 0 := by simpa [Stage.inflight] using hmem
    obtain ⟨n, hn, hlen⟩ := h.lastAvail
    have hl := h.linked b _ rfl
    -- the descriptors lead to the data and the status byte of the request
    have hdata : s.served 0 = [b] := by
      unfold Driver.served
      rw [hl.head]
      dsimp only
      rw [hl.data]
    have hcompleted : s.completed = s.cleared := h.completed.trans (append_nil _)
    have hused : s.virtq.usedIdx = .ofNat s.cleared.length := by
      rw [h.usedIdx, hcompleted]
    rw [hdata, hl.head] at hs
    dsimp only at hs
    rw [hl.data] at hs
    dsimp only at hs
    rw [hl.status] at hs
    cases hs
    refine ⟨b, rfl, { h with
      usedIdx := ?_
      completed := congrArg (· ++ [b]) hcompleted
      lastAvail := ⟨n, hn, hlen⟩
      inflight := ?_
      active := fun c ph hc => ?_
      linked := fun c ph hc => ?_
      free := fun i hi => ?_
      availRing := nofun
      usedRing := fun c hc => ?_ }⟩
    · dsimp only
      rw [h.usedIdx, ofNat_add_one, length_append, length_singleton]
    · dsimp only
      rw [h.inflight]
      rfl
    · cases hc
      exact h.active b _ rfl
    · cases hc
      exact { hl with buf := by simpa using hl.buf }
    · rw [h.free i hi]
      simp
    · cases hc
      dsimp only
      rw [hused, toNat_ofNat_mod_num, update_self, update_self]
      exact ⟨rfl, rfl⟩

/-- The interrupt handler finds a chain in the used ring: that of the request, which is served. -/
theorem intrLoop (hne : s.virtq.seenIdx ≠ s.virtq.usedIdx) :
    ∃ b s', t = some (b, .served) ∧ s.intrLoop = .ok s' ∧ s'.Represents (some (b, .seen)) ∧
      s'.disk = update s.disk b false ∧ s'.cleared = s.completed := by
  match t, h with
  | some (b, .served), h =>
    obtain ⟨hring, hstatus⟩ := h.usedRing b rfl
    obtain ⟨n, hn, hlen⟩ := h.lastAvail
    have hl := h.linked b _ rfl
    have hid : s.virtq.usedRing (s.virtq.seenIdx.toNat % NUM) = 0 := by
      rw [h.seenIdx, toNat_ofNat_mod_num, hring]
    have hcompleted : s.completed = s.cleared ++ [b] := h.completed
    have hsubmitted : s.submitted = s.cleared ++ [b] := h.submitted
    have hrun : s.intrLoop = .ok { s with
        cache := { s.cache with asleep := update s.cache.asleep b false }
        virtq := { s.virtq with seenIdx := s.virtq.seenIdx + 1 }
        disk := update s.disk b false
        cleared := s.cleared ++ [b] } := by
      unfold Driver.intrLoop
      dsimp only
      rw [hid, if_neg (not_not.mpr hstatus), hl.buf]
      rfl
    refine ⟨b, _, rfl, hrun, { h with
      seenIdx := ?_
      submitted := by rw [hsubmitted]; exact (append_nil _).symm
      completed := by rw [hcompleted]; exact (append_nil _).symm
      lastAvail := ⟨n, hn, hlen⟩
      disk := fun c => ?_
      active := fun c ph hc => ?_
      linked := fun c ph hc => ?_
      free := fun i hi => ?_
      availRing := nofun
      usedRing := nofun }, rfl, hcompleted.symm⟩
    · dsimp only
      rw [h.seenIdx, ofNat_add_one, length_append, length_singleton]
    · -- no other buffer had `disk` set
      have hdisk := h.disk c
      by_cases hc : c = b
      · subst hc
        simp [Stage.waiting]
      · simpa [Stage.waiting, hc] using hdisk
    · cases hc
      exact h.active b _ rfl
    · cases hc
      exact { hl with }
    · rw [h.free i hi]
      simp
  | none, h | some (b, .queued), h | some (b, .fetched), h | some (b, .seen), h =>
    refine absurd ?_ hne
    rw [h.seenIdx, h.usedIdx, h.completed]
    simp [Stage.unseen]

end

/-- The rest of the call, when its process is awake again. -/
theorem finish {r : Except String Driver} (h : s.Represents (some (b, ph)))
    (hstep : s.finish b 0 = some r) :
    ∃ s', r = .ok s' ∧ s'.Represents (Stage.next (some (b, ph)) (.finish b)) := by
  have hl := h.linked b ph rfl
  unfold Driver.finish at hstep
  split_ifs at hstep with hdisk
  · -- it sleeps again
    cases hstep
    have hph : Stage.next (some (b, ph)) (.finish b) = some (b, ph) := by
      rw [h.disk] at hdisk
      cases ph with
      | seen => cases hdisk
      | queued | fetched | served => rfl
    rw [hph]
    exact ⟨_, rfl, h.of_cache fun c ph hc => h.active c ph hc⟩
  · obtain rfl : ph = .seen := by
      rw [h.disk] at hdisk
      cases ph with
      | seen => rfl
      | queued | fetched | served => exact absurd (mem_singleton_self b) hdisk
    rw [hl.freeChain_eq] at hstep
    obtain ⟨cache, hcache, rfl⟩ := map_eq_some_iff.mp hstep
    have hnext : Stage.next (some (b, .seen)) (.finish b) = none := rfl
    rw [hnext]
    refine ⟨_, rfl, { h with
      lastAvail := h.lastAvail
      idx := ?_
      active := nofun
      linked := nofun
      free := fun i hi => ?_
      availRing := nofun
      usedRing := nofun }⟩
    · -- no other request had descriptors
      funext c
      have hidx := congrFun h.idx c
      by_cases hc : c = b
      · subst hc
        simp [Stage.idx]
      · simpa [Stage.idx, hc] using hidx
    · have hfree := h.free i hi
      by_cases h3 : 3 ≤ i
      · simp only [Virtqueue.freed, Virtqueue.clearInfo]
        rw [update_of_ne (by omega), update_of_ne (by omega), update_of_ne (by omega)]
        simp [hfree, h3]
      · obtain rfl | rfl | rfl : i = 0 ∨ i = 1 ∨ i = 2 := by omega
        all_goals simp [Virtqueue.freed, Virtqueue.clearInfo]

/-- No step panics, and each leads to the next stage. -/
theorem exec {op : DriverOp} {r : Except String Driver} (h : s.Represents t)
    (hstep : s.exec op = some r) : ∃ s', r = .ok s' ∧ s'.Represents (t.next op) := by
  cases op with
  | bget dev blockno p =>
    obtain ⟨cache, hcache, rfl⟩ := map_eq_some_iff.mp hstep
    exact ⟨_, rfl, h.of_sameRequests (bget_sameRequests hcache)⟩
  | acquiresleep b =>
    obtain ⟨cache, hcache, rfl⟩ := map_eq_some_iff.mp hstep
    exact ⟨_, rfl, h.of_sameRequests (acquiresleep_sameRequests hcache)⟩
  | brelse b =>
    obtain ⟨cache, hcache, rfl⟩ := map_eq_some_iff.mp hstep
    exact ⟨_, rfl, h.of_sameRequests (brelse_sameRequests hcache)⟩
  | rw b p write =>
    obtain ⟨-, hstep⟩ := ite_none_left_eq_some.mp hstep
    obtain ⟨s', hs, rfl⟩ := map_eq_some_iff.mp hstep
    exact ⟨s', rfl, h.rw hs⟩
  | schedule b level =>
    obtain ⟨-, hstep⟩ := ite_none_left_eq_some.mp hstep
    obtain ⟨cache, hcache, rfl⟩ := map_eq_some_iff.mp hstep
    obtain ⟨hpending, hactive⟩ := schedulerLoop_requests hcache
    refine ⟨_, rfl, h.of_cache fun c ph hc => ?_⟩
    have hc' := h.active c ph hc
    -- the request of the stage is active, so none was chosen
    rcases hactive with hnone | hactive
    · rw [hnone] at hc'
      cases hc'.1
    · rw [hactive, hpending]
      exact hc'
  | start b =>
    obtain ⟨⟨-, hchosen⟩, hs⟩ := ite_none_right_eq_some.mp hstep
    obtain rfl := h.stage_of_chosen hchosen
    obtain ⟨s', hs', hrep⟩ := h.start hchosen
    rw [hs'] at hs
    exact ⟨s', (Option.some.inj hs).symm, hrep⟩
  | finish b =>
    unfold Driver.exec at hstep
    cases hidx : s.idx b with
    | none =>
      simp only [hidx] at hstep
      cases hstep
    | some i =>
      obtain ⟨rfl, ph, rfl⟩ := h.idx_eq_some hidx
      simp only [hidx] at hstep
      obtain ⟨-, hstep⟩ := ite_none_right_eq_some.mp hstep
      exact h.finish hstep
  | kill b =>
    cases hstep
    exact ⟨_, rfl, { h with linked := fun c ph hc => { h.linked c ph hc with } }⟩
  | fetch =>
    obtain ⟨s', hs, rfl⟩ := map_eq_some_iff.mp hstep
    obtain ⟨b, rfl, hrep⟩ := h.fetch hs
    exact ⟨s', rfl, hrep⟩
  | serve i =>
    obtain ⟨s', hs, rfl⟩ := map_eq_some_iff.mp hstep
    obtain ⟨b, rfl, hrep⟩ := h.serve hs
    exact ⟨s', rfl, hrep⟩
  | intrEnter =>
    obtain ⟨-, hs⟩ := ite_none_left_eq_some.mp hstep
    cases hs
    exact ⟨_, rfl, { h with }⟩
  | intrLoop =>
    obtain ⟨⟨-, hne⟩, hs⟩ := ite_none_right_eq_some.mp hstep
    obtain ⟨b, s', rfl, hs', hrep, -, -⟩ := h.intrLoop hne
    rw [hs'] at hs
    exact ⟨s', (Option.some.inj hs).symm, hrep⟩
  | intrExit =>
    obtain ⟨-, hs⟩ := ite_none_right_eq_some.mp hstep
    cases hs
    exact ⟨_, rfl, { h with }⟩

end Driver.Represents

end Steps

/-! ## The protocol -/

lemma exists_stage {s : Driver} (h : driverSystem.Reachable s) : ∃ t, s.Represents t := by
  refine h.invariant (I := fun s => ∃ t, s.Represents t) ?_ ?_
  · rintro s ⟨schedPolicy, rfl⟩
    exact ⟨none, initDriver_represents schedPolicy⟩
  · rintro s op s' - ⟨t, ht⟩ hstep
    obtain ⟨s'', hs, hrep⟩ := ht.exec hstep
    cases hs
    exact ⟨_, hrep⟩

/-- The request protocol holds in a state and for the steps from it. -/
structure Driver.FollowsProtocol (s : Driver) : Prop where
  /-- The device has served all chains but at most one, that of the active request, and the driver
  has seen all served ones but at most that one. -/
  outstanding : s.submitted = s.completed ∨
    ∃ b, s.submitted = s.completed ++ [b] ∧ s.cache.diskActive = some b ∧ (s.idx b).isSome
  /-- Only the active request has descriptors. -/
  active : ∀ b i, s.idx b = some i → s.cache.diskActive = some b
  /-- Its descriptors are distinct, not free and linked to its buffer and status byte. -/
  linked : ∀ b i0 i1 i2, s.idx b = some (i0, i1, i2) → s.virtq.Linked (s.write b) b i0 i1 i2
  /-- An iteration of the interrupt handler clears `disk` of exactly the buffer whose chain the
  device has served. -/
  intrLoop : ∀ s', s.exec .intrLoop = some (.ok s') → ∃ b, s.completed = s.cleared ++ [b] ∧
    s.disk b = true ∧ s'.disk = update s.disk b false ∧ s'.cleared = s.completed
  /-- The handler ends when it has done so for all served chains. -/
  intrExit : ∀ s', s.exec .intrExit = some (.ok s') → s.cleared = s.completed
  /-- No other step clears `disk`. -/
  others : ∀ op s' b, s.exec op = some (.ok s') → s.disk b = true → s'.disk b = false →
    op = .intrLoop
  /-- `alloc3_desc` succeeds whenever it is called. -/
  alloc : ∀ b, s.Chosen b → ∃ i q, s.virtq.alloc3Desc = .ok (some i, q)
  /-- There is no panic, in `free_desc` or elsewhere. -/
  panics : ∀ op msg, s.exec op ≠ some (.error msg)
  /-- Without an active request all descriptors are free. -/
  free : s.cache.diskActive = none → ∀ i < NUM, s.virtq.free i = true

/-- **The virtio request protocol.** In every reachable state of the driver, under all interleavings
with the device and its interrupts, the request protocol holds. -/
theorem virtio_protocol {s : Driver} (h : driverSystem.Reachable s) : s.FollowsProtocol := by
  obtain ⟨t, ht⟩ := exists_stage h
  refine ⟨?_, fun b i hi => ?_, fun b i0 i1 i2 hi => ?_, fun s' hs => ?_, fun s' hs => ?_,
    fun op s' b hs hset hclear => ?_, fun b hb => ?_, fun op msg hs => ?_, fun hactive i hi => ?_⟩
  · -- by the phase of the request
    rw [ht.submitted, ht.completed]
    match t, ht with
    | some (b, .queued), ht | some (b, .fetched), ht =>
      refine .inr ⟨b, by simp [Stage.waiting, Stage.unseen], (ht.active b _ rfl).1, ?_⟩
      rw [ht.idx]
      simp [Stage.idx]
    | none, _ | some (b, .served), _ | some (b, .seen), _ => exact .inl rfl
  · obtain ⟨-, ph, rfl⟩ := ht.idx_eq_some hi
    exact (ht.active b ph rfl).1
  · obtain ⟨hi, ph, rfl⟩ := ht.idx_eq_some hi
    cases hi
    exact ht.linked b ph rfl
  · obtain ⟨⟨-, hne⟩, hs⟩ := ite_none_right_eq_some.mp hs
    obtain ⟨b, s'', rfl, hs', -, hdisk, hcleared⟩ := ht.intrLoop hne
    rw [hs'] at hs
    cases hs
    exact ⟨b, ht.completed, (ht.disk b).mpr (mem_singleton_self b), hdisk, hcleared⟩
  · obtain ⟨⟨-, heq⟩, -⟩ := ite_none_right_eq_some.mp hs
    by_contra hne
    -- otherwise the indices are one apart
    obtain ⟨b, rfl⟩ : ∃ b, t = some (b, .served) := by
      rw [ht.completed] at hne
      match t, hne with
      | some (b, .served), _ => exact ⟨b, rfl⟩
      | none, hne | some (b, .queued), hne | some (b, .fetched), hne | some (b, .seen), hne =>
        exact absurd (append_nil _).symm hne
    rw [ht.seenIdx, ht.usedIdx, ht.completed, length_append] at heq
    exact ofNat_ne_ofNat_add_one _ heq
  · by_contra hop
    obtain ⟨s'', hs', hrep⟩ := ht.exec hs
    cases hs'
    have hwait := Stage.waiting_next hop ((ht.disk b).mp hset)
    rw [← hrep.disk, hclear] at hwait
    cases hwait
  · obtain rfl := ht.stage_of_chosen hb
    exact ⟨_, _, Virtqueue.alloc3Desc_eq fun i hi => (ht.free i hi).mpr (.inl rfl)⟩
  · obtain ⟨s', hs', -⟩ := ht.exec hs
    cases hs'
  · match t, ht with
    | none, ht => exact (ht.free i hi).mpr (.inl rfl)
    | some (b, ph), ht =>
      have hb := (ht.active b ph rfl).1
      rw [hactive] at hb
      cases hb

/-- A run in which the interrupt finds the first request served while another one waits. -/
def servedRun : List DriverOp :=
  let b0 : BufId := ⟨0, nbuf_pos⟩
  let b1 : BufId := ⟨1, one_lt_nbuf⟩
  [.bget 1 7 0, .acquiresleep b0, .rw b0 0 false, .schedule b0 fun _ => 0, .start b0,
    .bget 1 8 1, .acquiresleep b1, .rw b1 1 true, .schedule b1 fun _ => 0, .fetch, .serve 0,
    .intrEnter]

/-- After that run the protocol holds, with the chain of a request in the used ring. -/
theorem virtio_protocol_served : ∃ s, driverSystem.Reachable s ∧
    s.virtq.seenIdx ≠ s.virtq.usedIdx ∧ s.FollowsProtocol := by
  have heval : (servedRun.foldlM (fun s op => (Driver.exec s op).bind Except.toOption)
      (initDriver 0)).any (fun s => decide (s.virtq.seenIdx ≠ s.virtq.usedIdx)) = true := by
    decide +kernel
  obtain ⟨s, hs, hne⟩ := any_eq_true _ _ |>.mp heval
  have hrun : driverSystem.Run (initDriver 0) servedRun s := by
    refine .of_foldlM (fun s op s' hstep => ?_) hs
    obtain ⟨r, hr, hok⟩ := bind_eq_some_iff.mp hstep
    cases r with
    | error msg => cases hok
    | ok s'' =>
      cases hok
      exact hr
  have hreach := hrun.reachable (.init ⟨0, rfl⟩)
  exact ⟨s, hreach, of_decide_eq_true hne, virtio_protocol hreach⟩

end Xv6.Disk
