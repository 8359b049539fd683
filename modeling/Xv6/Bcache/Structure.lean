import Xv6.Bcache.Model
import Xv6.Foundations.Sums

/-!
# The structure of the buffer cache

What holds of the list of buffers, of the blocks they hold and of their reference counts in every
run.

## Main results

* `CacheInv.of_reachable`: the invariant.
* `CacheInv.recycled`: only a buffer without references is used for another block.
-/

namespace Xv6.Bcache

open Function List Cache

open VM (ProcId)

/-- The reference of a process that waits for the buffer, or that has not dropped it yet. -/
def Place.refs (b : BufId) : Place → ℕ
  | .waiting c _ _ _ | .releasing c => if c = b then 1 else 0
  | _ => 0

namespace Cache

/-- The reference of the holder of the sleep-lock. -/
def holders (s : Cache) (b : BufId) : ℕ := if s.lock b = none then 0 else 1

/-- The buffer `a` was released to a reference count of `0` after `b`, or neither ever was. -/
def Newer (s : Cache) (a b : BufId) : Prop :=
  s.stamp b < s.stamp a ∨ s.stamp a = 0 ∧ s.stamp b = 0

end Cache

/-- The invariant of the buffer cache. -/
structure CacheInv (s : Cache) : Prop where
  refcnt : ∀ b, (s.buf b).refcnt = ∑ p, (s.place p).refs b + s.holders b + s.pins b
  reading : ∀ {p b dev blockno}, s.place p = .reading b dev blockno → s.lock b = some p
  unique : ∀ {b c}, (s.buf b).dev ≠ 0 → (s.buf b).dev = (s.buf c).dev →
    (s.buf b).blockno = (s.buf c).blockno → b = c
  ring : ∃ l, s.links.Ring l ∧ (∀ b, b ∈ l) ∧ l.Pairwise s.Newer
  stamp_le : ∀ b, s.stamp b ≤ s.clock

section Invariant

variable {s s' : Cache} {p : ProcId} {b : BufId} {a : Act}

/-! ## What a step does -/

/-- The steps of a process, one by one. -/
inductive CacheStep (s : Cache) (p : ProcId) : Act → Cache → Prop
  | bget {dev blockno : ℕ} {read : Bool} {b : BufId} {t : Cache} (hp : s.place p = .idle)
    (hget : s.bget dev blockno = some (b, t)) :
    CacheStep s p (.bget dev blockno read) (t.goto p (.waiting b dev blockno read))
  | acquiresleep {b : BufId} {dev blockno : ℕ} {read : Bool}
    (hp : s.place p = .waiting b dev blockno read) (hlock : s.lock b = none) :
    CacheStep s p .acquiresleep
      { s.goto p (if read ∧ (s.buf b).valid = false then .reading b dev blockno else .idle) with
        lock := update s.lock b (some p) }
  | read {b : BufId} {dev blockno : ℕ} (hp : s.place p = .reading b dev blockno) :
    CacheStep s p .read ((s.setBuf b
      { s.buf b with data := s.disk (s.buf b).blockno, valid := true }).goto p .idle)
  | modify {b : BufId} {data : Block} (hp : s.place p = .idle) (hlock : s.lock b = some p) :
    CacheStep s p (.modify b data)
      { s.setBuf b { s.buf b with data := data } with dirty := update s.dirty b true }
  | bwrite {b : BufId} (hp : s.place p = .idle) (hlock : s.lock b = some p) :
    CacheStep s p (.bwrite b)
      { s.write b with disk := update s.disk (s.buf b).blockno (s.buf b).data }
  | logWrite {b : BufId} (hp : s.place p = .idle) (hlock : s.lock b = some p) :
    CacheStep s p (.logWrite b) (s.logWrite b)
  | bpin {b : BufId} (hp : s.place p = .idle) (hlock : s.lock b = some p) :
    CacheStep s p (.bpin b) (s.bpin b)
  | bunpin {b : BufId} (hp : s.place p = .idle) (hpins : 0 < s.pins b) :
    CacheStep s p (.bunpin b) (s.bunpin b)
  | clearLog (hp : s.place p = .idle) : CacheStep s p .clearLog { s with log := [] }
  | brelse {b : BufId} (hp : s.place p = .idle) (hlock : s.lock b = some p) :
    CacheStep s p (.brelse b)
      { s.goto p (.releasing b) with lock := update s.lock b none }
  | drop {b : BufId} (hp : s.place p = .releasing b) :
    CacheStep s p .drop ((s.drop b).goto p .idle)

lemma cacheStep_of_exec (hs : s.exec p a = some s') : CacheStep s p a s' := by
  cases a with
  | bget dev blockno read =>
    simp only [exec] at hs
    split_ifs at hs with hp
    obtain ⟨⟨b, t⟩, hget, rfl⟩ := Option.map_eq_some_iff.mp hs
    exact .bget hp hget
  | acquiresleep =>
    simp only [exec] at hs
    split at hs
    next b dev blockno read hp =>
      by_cases hlock : s.lock b = none
      · rw [if_pos hlock] at hs
        obtain rfl := Option.some.inj hs
        exact .acquiresleep hp hlock
      · rw [if_neg hlock] at hs
        cases hs
    next => cases hs
  | read =>
    simp only [exec] at hs
    split at hs
    next b dev blockno hp =>
      obtain rfl := Option.some.inj hs
      exact .read hp
    next => cases hs
  | drop =>
    simp only [exec] at hs
    split at hs
    next b hp =>
      obtain rfl := Option.some.inj hs
      exact .drop hp
    next => cases hs
  | modify b data | bwrite b | logWrite b | bpin b | bunpin b | clearLog | brelse b =>
    simp only [exec] at hs
    split_ifs at hs with hcond
    obtain rfl := Option.some.inj hs
    constructor <;> simp [hcond]

/-! ## The loops of `bget` -/

lemma length_lt_of_ring {l : List BufId} (hring : s.links.Ring l) : l.length < NBUF + 1 := by
  have hle := hring.nodup.length_le_card
  rw [Fintype.card_fin] at hle
  omega

lemma CacheInv.findCached_cases (h : CacheInv s) (dev blockno : ℕ) :
    (∃ b, s.findCached dev blockno = some b ∧ (s.buf b).dev = dev ∧ (s.buf b).blockno = blockno) ∨
    s.findCached dev blockno = none ∧
      ∀ b, (s.buf b).dev = dev → (s.buf b).blockno ≠ blockno := by
  obtain ⟨l, hring, hall, -⟩ := h.ring
  have hfind : s.findCached dev blockno =
      l.find? fun b => (s.buf b).dev = dev ∧ (s.buf b).blockno = blockno :=
    hring.scan_next _ (length_lt_of_ring hring)
  rw [hfind]
  cases hl : l.find? fun b => decide ((s.buf b).dev = dev ∧ (s.buf b).blockno = blockno) with
  | some b => exact .inl ⟨b, rfl, by simpa using List.find?_some hl⟩
  | none =>
    refine .inr ⟨rfl, fun b hdev hno => ?_⟩
    have hb := List.find?_eq_none.mp hl b (hall b)
    simp [hdev, hno] at hb

lemma findUnused_eq {l : List BufId} (hring : s.links.Ring l) :
    s.findUnused = l.reverse.find? fun b => (s.buf b).refcnt = 0 :=
  hring.scan_prev _ (length_lt_of_ring hring)

lemma CacheInv.findUnused_eq_some (h : CacheInv s) (hb : s.findUnused = some b) :
    (s.buf b).refcnt = 0 := by
  obtain ⟨l, hring, -⟩ := h.ring
  rw [findUnused_eq hring] at hb
  simpa using List.find?_some hb

/-! ## The initial state -/

lemma ring_binit : ∃ l, binit.Ring l ∧ ∀ b, b ∈ l := by
  have hfold : ∀ (m l : List BufId) (L : CircularLinks BufId), L.Ring l → (l ++ m).Nodup →
      (m.foldl (fun L b => L.pushFront b) L).Ring (m.reverse ++ l) := by
    intro m
    induction m with
    | nil => exact fun l L hL _ => by simpa using hL
    | cons b m ih =>
      intro l L hL hnodup
      have hb : b ∉ l := fun hmem =>
        (nodup_cons.mp (nodup_middle.mp hnodup)).1 (mem_append_left _ hmem)
      have hnodup' : ((b :: l) ++ m).Nodup := nodup_middle.mp hnodup
      simpa using ih (b :: l) (L.pushFront b) (hL.pushFront hb) hnodup'
  have hring := hfold (List.finRange NBUF) [] .empty CircularLinks.ring_empty
    (by simpa using nodup_finRange NBUF)
  exact ⟨_, hring, fun b => by simp⟩

lemma cacheInv_init (h : cacheSystem.init s) : CacheInv s := by
  obtain ⟨hbuf, hlinks, hlock, hplace, hpins, hclock, hstamp, -, -, -⟩ := h
  obtain ⟨l, hring, hall⟩ := ring_binit
  refine ⟨fun b => ?_, fun {p b _ _} hp => ?_, fun {b c} hb => absurd (hbuf b).1 hb,
    ⟨l, hlinks ▸ hring, hall, ?_⟩, fun b => ?_⟩
  · simp [hbuf b, hplace, hpins, Place.refs, holders, hlock]
  · rw [hplace] at hp
    cases hp
  · exact pairwise_of_forall fun a b => .inr ⟨hstamp a, hstamp b⟩
  · simp [hstamp, hclock]

/-! ## The steps -/

lemma sum_refs_goto (s : Cache) (p : ProcId) (pl : Place) (b : BufId) :
    ∑ q, ((s.goto p pl).place q).refs b + (s.place p).refs b =
      ∑ q, (s.place q).refs b + pl.refs b :=
  Finset.sum_update_add (Place.refs b) s.place p pl

/-- A step that neither recycles a buffer nor changes the list. -/
theorem CacheInv.of_refcnt (h : CacheInv s)
    (hbuf : ∀ c, (s'.buf c).dev = (s.buf c).dev ∧ (s'.buf c).blockno = (s.buf c).blockno)
    (hlinks : s'.links = s.links) (hstamp : s'.stamp = s.stamp) (hclock : s'.clock = s.clock)
    (hrefcnt : ∀ c, (s'.buf c).refcnt = ∑ p, (s'.place p).refs c + s'.holders c + s'.pins c)
    (hreading : ∀ {p b dev blockno}, s'.place p = .reading b dev blockno → s'.lock b = some p) :
    CacheInv s' := by
  refine ⟨hrefcnt, hreading, fun {b c} hb hdev hno => ?_, ?_, fun b => ?_⟩
  · rw [(hbuf b).1] at hb
    rw [(hbuf b).1, (hbuf c).1] at hdev
    rw [(hbuf b).2, (hbuf c).2] at hno
    exact h.unique hb hdev hno
  · obtain ⟨l, hring, hall, hsorted⟩ := h.ring
    refine ⟨l, hlinks ▸ hring, hall, hsorted.imp fun hab => ?_⟩
    simpa [Newer, hstamp] using hab
  · rw [hstamp, hclock]
    exact h.stamp_le b

/-- A step in which a process waits for a buffer, or gets on with it, and the buffer's reference
count changes with it. -/
theorem CacheInv.move {pl : Place} {x : Buf} (h : CacheInv s) (hdev : x.dev = (s.buf b).dev)
    (hno : x.blockno = (s.buf b).blockno)
    (hrefcnt : x.refcnt + (s.place p).refs b = (s.buf b).refcnt + pl.refs b)
    (hother : ∀ c, c ≠ b → (s.place p).refs c = pl.refs c)
    (hreading : ∀ c dev blockno, pl ≠ .reading c dev blockno) :
    CacheInv ((s.setBuf b x).goto p pl) := by
  refine h.of_refcnt (fun c => ?_) rfl rfl rfl (fun c => ?_) fun {q c _ _} hq => ?_
  · by_cases hc : c = b
    · subst hc
      exact ⟨by simpa [goto] using hdev, by simpa [goto] using hno⟩
    · simp [goto, hc]
  · have hsum := sum_refs_goto s p pl c
    have hold := h.refcnt c
    change ((s.setBuf b x).buf c).refcnt =
      ∑ q, ((s.goto p pl).place q).refs c + s.holders c + s.pins c
    by_cases hc : c = b
    · subst hc
      rw [setBuf_self]
      omega
    · rw [setBuf_of_ne s x hc]
      have := hother c hc
      omega
  · by_cases hqp : q = p
    · subst hqp
      simp only [goto, update_self] at hq
      exact absurd hq (hreading c _ _)
    · simp only [goto, update_of_ne hqp] at hq
      exact h.reading hq

@[simp]
lemma refs_idle : Place.idle.refs b = 0 := rfl

@[simp]
lemma refs_reading (c : BufId) (dev blockno : ℕ) :
    (Place.reading c dev blockno).refs b = 0 := rfl

@[simp]
lemma refs_waiting (c : BufId) (dev blockno : ℕ) (read : Bool) :
    (Place.waiting c dev blockno read).refs b = if c = b then 1 else 0 := rfl

@[simp]
lemma refs_releasing (c : BufId) : (Place.releasing c).refs b = if c = b then 1 else 0 := rfl

section

variable (h : CacheInv s)

include h

lemma CacheInv.bget_cases {dev blockno : ℕ} (hget : s.bget dev blockno = some (b, s')) :
    ((s.buf b).dev = dev ∧ (s.buf b).blockno = blockno ∧
      s' = s.setBuf b { s.buf b with refcnt := (s.buf b).refcnt + 1 }) ∨
    ((s.buf b).refcnt = 0 ∧ (∀ c, (s.buf c).dev = dev → (s.buf c).blockno ≠ blockno) ∧
      s' = s.setBuf b
        { s.buf b with dev := dev, blockno := blockno, valid := false, refcnt := 1 }) := by
  unfold bget at hget
  rcases h.findCached_cases dev blockno with ⟨c, hfind, hdev, hno⟩ | ⟨hfind, hnone⟩
  · rw [hfind] at hget
    cases hget
    exact .inl ⟨hdev, hno, rfl⟩
  · rw [hfind] at hget
    dsimp only at hget
    split at hget
    next c hunused =>
      cases hget
      exact .inr ⟨h.findUnused_eq_some hunused, hnone, rfl⟩
    next => cases hget

lemma CacheInv.bget {dev blockno : ℕ} {read : Bool} (hp : s.place p = .idle)
    (hget : s.bget dev blockno = some (b, s')) :
    CacheInv (s'.goto p (.waiting b dev blockno read)) := by
  rcases h.bget_cases hget with ⟨-, -, rfl⟩ | ⟨hzero, hnone, rfl⟩
  · exact h.move rfl rfl (by simp [hp]) (fun c hc => by simp [hp, Ne.symm hc]) (by simp)
  · have hold := h.refcnt b
    rw [hzero] at hold
    -- the buffer is recycled: nobody refers to it
    refine ⟨fun c => ?_, fun {q c _ _} hq => ?_, fun {c d} hc hdev hno => ?_, h.ring, h.stamp_le⟩
    · have hsum := sum_refs_goto s p (.waiting b dev blockno read) c
      rw [hp] at hsum
      change ((s.setBuf b _).buf c).refcnt =
        ∑ q, ((s.goto p (.waiting b dev blockno read)).place q).refs c + s.holders c + s.pins c
      by_cases hc : c = b
      · subst hc
        rw [setBuf_self]
        simp only [refs_idle, refs_waiting, if_true] at hsum
        change 1 = _
        omega
      · rw [setBuf_of_ne s _ hc, h.refcnt c]
        simp only [refs_idle, refs_waiting, Ne.symm hc, if_false] at hsum
        omega
    · by_cases hqp : q = p
      · subst hqp
        simp [goto] at hq
      · simp only [goto, update_of_ne hqp] at hq
        exact h.reading hq
    · -- no other buffer has the block
      change ((s.setBuf b _).buf c).dev ≠ 0 at hc
      change ((s.setBuf b _).buf c).dev = ((s.setBuf b _).buf d).dev at hdev
      change ((s.setBuf b _).buf c).blockno = ((s.setBuf b _).buf d).blockno at hno
      by_cases hcb : c = b <;> by_cases hdb : d = b
      · rw [hcb, hdb]
      · subst hcb
        rw [setBuf_self, setBuf_of_ne s _ hdb] at hdev hno
        exact absurd hno.symm (hnone d hdev.symm)
      · subst hdb
        rw [setBuf_self, setBuf_of_ne s _ hcb] at hdev hno
        exact absurd hno (hnone c hdev)
      · rw [setBuf_of_ne s _ hcb, setBuf_of_ne s _ hdb] at hdev hno
        rw [setBuf_of_ne s _ hcb] at hc
        exact h.unique hc hdev hno

lemma CacheInv.relock {pl : Place} {x : Option ProcId}
    (hrefs : pl.refs b + (if x = none then 0 else 1) = (s.place p).refs b + s.holders b)
    (hother : ∀ c, c ≠ b → (s.place p).refs c = pl.refs c)
    (hreading : ∀ c dev blockno, pl = .reading c dev blockno → c = b ∧ x = some p)
    (hlock : ∀ q, q ≠ p → s.lock b ≠ some q) :
    CacheInv { s.goto p pl with lock := update s.lock b x } := by
  refine h.of_refcnt (fun _ => ⟨rfl, rfl⟩) rfl rfl rfl (fun c => ?_) fun {q c _ _} hq => ?_
  · have hsum := sum_refs_goto s p pl c
    have hold := h.refcnt c
    change (s.buf c).refcnt = ∑ q, ((s.goto p pl).place q).refs c +
      (if update s.lock b x c = none then 0 else 1) + s.pins c
    by_cases hc : c = b
    · subst hc
      rw [update_self]
      omega
    · rw [update_of_ne hc]
      change _ = _ + s.holders c + _
      have := hother c hc
      omega
  · change update s.lock b x c = some q
    by_cases hqp : q = p
    · subst hqp
      simp only [goto, update_self] at hq
      obtain ⟨rfl, rfl⟩ := hreading c _ _ hq
      exact update_self ..
    · simp only [goto, update_of_ne hqp] at hq
      have hold := h.reading hq
      rw [update_of_ne]
      · exact hold
      · rintro rfl
        exact hlock q hqp hold

lemma CacheInv.congr
    (hbuf : ∀ c, (s'.buf c).dev = (s.buf c).dev ∧ (s'.buf c).blockno = (s.buf c).blockno ∧
      (s'.buf c).refcnt = (s.buf c).refcnt)
    (hlinks : s'.links = s.links) (hstamp : s'.stamp = s.stamp) (hclock : s'.clock = s.clock)
    (hlock : s'.lock = s.lock) (hplace : s'.place = s.place) (hpins : s'.pins = s.pins) :
    CacheInv s' := by
  refine h.of_refcnt (fun c => ⟨(hbuf c).1, (hbuf c).2.1⟩) hlinks hstamp hclock (fun c => ?_)
    fun {q c _ _} hq => ?_
  · rw [(hbuf c).2.2, hplace, hpins]
    simpa [holders, hlock] using h.refcnt c
  · rw [hlock]
    rw [hplace] at hq
    exact h.reading hq

lemma CacheInv.repin {n m : ℕ} (hn : n + s.pins b = (s.buf b).refcnt + m) :
    CacheInv { s.setBuf b { s.buf b with refcnt := n } with
      pins := update s.pins b m } := by
  refine h.of_refcnt (fun c => ?_) rfl rfl rfl (fun c => ?_) h.reading
  · change ((s.setBuf b _).buf c).dev = _ ∧ ((s.setBuf b _).buf c).blockno = _
    by_cases hc : c = b
    · subst hc
      rw [setBuf_self]
      exact ⟨rfl, rfl⟩
    · rw [setBuf_of_ne s _ hc]
      exact ⟨rfl, rfl⟩
  · have hold := h.refcnt c
    change ((s.setBuf b _).buf c).refcnt =
      ∑ q, (s.place q).refs c + s.holders c + update s.pins b m c
    by_cases hc : c = b
    · subst hc
      rw [setBuf_self, update_self]
      change n = _
      omega
    · rw [setBuf_of_ne s _ hc, update_of_ne hc]
      exact hold

lemma CacheInv.write : CacheInv (s.write b) :=
  h.congr (fun _ => ⟨rfl, rfl, rfl⟩) rfl rfl rfl rfl rfl rfl

lemma CacheInv.logWrite : CacheInv (s.logWrite b) := by
  unfold Cache.logWrite
  split_ifs with hlog
  · exact h.write
  · have hpin : CacheInv (s.bpin b) := h.repin (by omega)
    exact (hpin.write (b := b)).congr (fun _ => ⟨rfl, rfl, rfl⟩) rfl rfl rfl rfl rfl rfl

/-- A buffer that is released to a reference count of `0` becomes the most recent one. -/
theorem CacheInv.moveFront :
    CacheInv { s with
      links := (s.links.unlink b).pushFront b
      clock := s.clock + 1
      stamp := update s.stamp b (s.clock + 1) } := by
  obtain ⟨l, hring, hall, hsorted⟩ := h.ring
  obtain ⟨l₁, l₂, rfl⟩ := append_of_mem (hall b)
  have hnodup := nodup_cons.mp (nodup_middle.mp hring.nodup)
  have hstamp : ∀ c ∈ l₁ ++ l₂, update s.stamp b (s.clock + 1) c = s.stamp c := by
    intro c hc
    refine update_of_ne ?_ _ _
    rintro rfl
    exact hnodup.1 hc
  refine ⟨h.refcnt, h.reading, h.unique, ⟨b :: (l₁ ++ l₂), hring.moveFront, fun c => ?_,
    pairwise_cons.mpr ⟨fun c hc => .inl ?_, ?_⟩⟩, fun c => ?_⟩
  · have hc := hall c
    simp only [mem_append, mem_cons] at hc ⊢
    tauto
  · change update s.stamp b (s.clock + 1) c < update s.stamp b (s.clock + 1) b
    rw [hstamp c hc, update_self]
    have := h.stamp_le c
    omega
  · have hrest : (l₁ ++ l₂).Pairwise s.Newer :=
      hsorted.sublist (List.Sublist.append_left (sublist_cons_self b l₂) l₁)
    refine hrest.imp_of_mem fun {c d} hc hd hcd => ?_
    change update s.stamp b (s.clock + 1) d < update s.stamp b (s.clock + 1) c ∨
      update s.stamp b (s.clock + 1) c = 0 ∧ update s.stamp b (s.clock + 1) d = 0
    rw [hstamp c hc, hstamp d hd]
    exact hcd
  · change update s.stamp b (s.clock + 1) c ≤ s.clock + 1
    by_cases hc : c = b
    · rw [hc, update_self]
    · rw [update_of_ne hc]
      have := h.stamp_le c
      omega

/-- The section of `brelse`. -/
theorem CacheInv.drop (hp : s.place p = .releasing b) : CacheInv ((s.drop b).goto p .idle) := by
  have hpos : 0 < (s.buf b).refcnt := by
    have hle : (s.place p).refs b ≤ ∑ q, (s.place q).refs b :=
      Finset.single_le_sum (f := fun q => (s.place q).refs b) (fun _ _ => Nat.zero_le _)
        (Finset.mem_univ p)
    rw [hp, refs_releasing, if_pos rfl] at hle
    have := h.refcnt b
    omega
  have hmove : CacheInv ((s.setBuf b { s.buf b with refcnt := (s.buf b).refcnt - 1 }).goto p
      .idle) := by
    refine h.move rfl rfl ?_ (fun c hc => ?_) (by simp)
    · rw [hp, refs_releasing, if_pos rfl, refs_idle]
      change (s.buf b).refcnt - 1 + 1 = _
      omega
    · rw [hp, refs_releasing, if_neg (Ne.symm hc), refs_idle]
  unfold Cache.drop
  dsimp only
  split_ifs with hzero
  · exact hmove.moveFront
  · exact hmove

lemma CacheInv.step (hs : s.exec p a = some s') : CacheInv s' := by
  cases cacheStep_of_exec hs with
  | bget hp hget => exact h.bget hp hget
  | acquiresleep hp hlock =>
    split_ifs
    all_goals
      refine h.relock (by simp [hp, hlock, holders]) (fun c hc => ?_) (by simp)
        (by simp [hlock])
      simp [hp, hc.symm]
  | read hp => exact h.move rfl rfl (by simp [hp]) (by simp [hp]) (by simp)
  | @modify b data _ _ =>
    refine h.congr (fun c => ?_) rfl rfl rfl rfl rfl rfl
    by_cases hc : c = b <;> simp [setBuf, hc]
  | bwrite | clearLog => exact h.congr (fun _ => ⟨rfl, rfl, rfl⟩) rfl rfl rfl rfl rfl rfl
  | logWrite => exact h.logWrite
  | bpin => exact h.repin (by omega)
  | @bunpin b _ hpins =>
    refine h.repin ?_
    have := h.refcnt b
    omega
  | brelse hp hlock =>
    refine h.relock (by simp [hp, hlock, holders]) (fun c hc => ?_) (by simp)
      (by simp [hlock, eq_comm])
    simp [hp, hc.symm]
  | drop hp => exact h.drop hp

end

lemma CacheInv.of_reachable (h : cacheSystem.Reachable s) : CacheInv s :=
  h.invariant (I := CacheInv) (fun _ => cacheInv_init) fun _ _ _ _ hI hs => hI.step hs

/-! ## Recycling -/

lemma exists_drop_eq (s : Cache) (b : BufId) : ∃ links clock stamp, s.drop b =
    { s.setBuf b { s.buf b with refcnt := (s.buf b).refcnt - 1 } with
      links := links, clock := clock, stamp := stamp } := by
  unfold Cache.drop
  dsimp only
  split_ifs
  · exact ⟨_, _, _, rfl⟩
  · exact ⟨_, _, _, rfl⟩

lemma exec_block (ha : ∀ dev blockno read, a ≠ .bget dev blockno read)
    (hs : s.exec p a = some s') (b : BufId) :
    (s'.buf b).dev = (s.buf b).dev ∧ (s'.buf b).blockno = (s.buf b).blockno := by
  cases cacheStep_of_exec hs with
  | @bget dev blockno read => exact absurd rfl (ha dev blockno read)
  | acquiresleep | bwrite | clearLog | brelse => exact ⟨rfl, rfl⟩
  | @drop c _ =>
    obtain ⟨links, clock, stamp, hdrop⟩ := exists_drop_eq s c
    simp only [hdrop, goto, setBuf, update_apply]
    grind
  | logWrite =>
    unfold Cache.logWrite
    split_ifs
    · exact ⟨rfl, rfl⟩
    · simp only [bpin, write, setBuf, update_apply]
      grind
  | read | modify | bpin | bunpin =>
    simp only [goto, bpin, bunpin, setBuf, update_apply]
    grind

/-- The blocks that buffers hold change only in `bget`, which gives the block to a buffer without
references. -/
theorem CacheInv.recycled (h : CacheInv s) (hs : s.exec p a = some s') (hb : (s.buf b).refcnt ≠ 0) :
    (s'.buf b).dev = (s.buf b).dev ∧ (s'.buf b).blockno = (s.buf b).blockno := by
  by_cases hget : ∃ dev blockno read, a = .bget dev blockno read
  · obtain ⟨dev, blockno, read, rfl⟩ := hget
    cases cacheStep_of_exec hs with
    | @bget _ _ _ c _ _ hc =>
      rcases h.bget_cases hc with ⟨-, -, rfl⟩ | ⟨hzero, -, rfl⟩
      · by_cases hbc : b = c <;> simp [goto, hbc]
      · have hbc : b ≠ c := by
          rintro rfl
          exact hb hzero
        simp [goto, hbc]
  · exact exec_block (fun dev blockno read ha => hget ⟨dev, blockno, read, ha⟩) hs b

end Invariant

end Xv6.Bcache
