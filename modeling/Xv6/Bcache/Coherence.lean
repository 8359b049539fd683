import Xv6.Bcache.Structure

/-!
# Coherence of the buffer cache

`bread` returns the content last written for its block in every run that uses the cache as the
kernel does: one disk, `log_write` only of a buffer that `bread` has filled and that is pinned until
its content is on the disk, and no modification left unwritten at `brelse`.

## Main results

* `Coherent.of_reachable`: the invariant of such runs.
* `buffer_cache`: the structure of the cache in every run, and what `bread` returns in such runs.
-/

namespace Xv6.Bcache

open Function Option

open VM (ProcId)

/-- The rules for the use of the cache. -/
inductive Rule where
  /-- All blocks are on one disk. -/
  | oneDisk
  /-- `log_write` is given a buffer that has its block, as `bread` returns it. -/
  | logValid
  /-- A block that `log_write` absorbs is still pinned. -/
  | absorbPinned
  /-- The last pin of a buffer is removed when its content is on the disk. -/
  | unpinWritten
  /-- A modification is written before the buffer is released. -/
  | releaseClean
  deriving DecidableEq

instance : Fintype Rule where
  elems := {.oneDisk, .logValid, .absorbPinned, .unpinWritten, .releaseClean}
  complete r := by cases r <;> decide

/-- The step follows the rule. -/
def Rule.Met (s : Cache) (l : ProcId × Act) : Rule → Prop
  | .oneDisk => match l.2 with
    | .bget dev _ _ => dev = ROOTDEV
    | _ => True
  | .logValid => match l.2 with
    | .logWrite b => (s.buf b).valid = true
    | _ => True
  | .absorbPinned => match l.2 with
    | .logWrite b => (s.buf b).blockno ∈ s.log → 0 < s.pins b
    | _ => True
  | .unpinWritten => match l.2 with
    | .bunpin b =>
      1 < s.pins b ∨ s.disk (s.buf b).blockno = s.written (s.buf b).dev (s.buf b).blockno
    | _ => True
  | .releaseClean => match l.2 with
    | .brelse b => s.dirty b = false
    | _ => True

instance (s : Cache) (l : ProcId × Act) (r : Rule) : Decidable (r.Met s l) := by
  unfold Rule.Met
  split <;> split <;> infer_instance

/-- The step follows all rules. -/
def Disciplined (s : Cache) (l : ProcId × Act) : Prop := ∀ r : Rule, r.Met s l

/-- The step from `s` to `s'` is the last one of `bread(dev, blockno)` of the process, which returns
`b`. -/
def Cache.Returns (s s' : Cache) (p : ProcId) (b : BufId) (dev blockno : ℕ) : Prop :=
  (s.place p = .waiting b dev blockno true ∨ s.place p = .reading b dev blockno) ∧
    s'.place p = .idle

/-- The content last written for each block is on the disk, or in a pinned buffer. -/
@[grind cases eager]
structure Coherent (s : Cache) : Prop where
  cache : CacheInv s
  root : ∀ b, (s.buf b).refcnt ≠ 0 → (s.buf b).dev = ROOTDEV
  waiting : ∀ {p b dev blockno read}, s.place p = .waiting b dev blockno read →
    (s.buf b).dev = dev ∧ (s.buf b).blockno = blockno
  reading : ∀ {p b dev blockno}, s.place p = .reading b dev blockno →
    (s.buf b).dev = dev ∧ (s.buf b).blockno = blockno ∧ (s.buf b).valid = false
  invalid : ∀ b, (s.buf b).dev = ROOTDEV → (s.buf b).valid = false →
    s.disk (s.buf b).blockno = s.written ROOTDEV (s.buf b).blockno
  valid : ∀ b, (s.buf b).dev = ROOTDEV → (s.buf b).valid = true → s.dirty b = false →
    (s.buf b).data = s.written ROOTDEV (s.buf b).blockno
  unpinned : ∀ b, (s.buf b).dev = ROOTDEV → s.pins b = 0 →
    s.disk (s.buf b).blockno = s.written ROOTDEV (s.buf b).blockno
  clean : ∀ b, s.lock b = none → s.dirty b = false
  uncached : ∀ k, (∀ b, (s.buf b).dev = ROOTDEV → (s.buf b).blockno ≠ k) →
    s.disk k = s.written ROOTDEV k

section Invariant

variable {s s' : Cache} {p : ProcId} {b : BufId} {a : Act}

/-! ## References -/

lemma CacheInv.refcnt_ne_zero_of_refs (h : CacheInv s) (hp : (s.place p).refs b ≠ 0) :
    (s.buf b).refcnt ≠ 0 := by
  have hle : (s.place p).refs b ≤ ∑ q, (s.place q).refs b :=
    Finset.single_le_sum (f := fun q => (s.place q).refs b) (fun _ _ => Nat.zero_le _)
      (Finset.mem_univ p)
  have := h.refcnt b
  omega

lemma CacheInv.refcnt_ne_zero_of_lock (h : CacheInv s) (hp : s.lock b ≠ none) :
    (s.buf b).refcnt ≠ 0 := by
  have hold : s.holders b = 1 := if_neg hp
  have := h.refcnt b
  omega

/-! ## The steps -/

lemma coherent_init (h : cacheSystem.init s) : Coherent s := by
  have hcache := cacheInv_init h
  obtain ⟨hbuf, -, hlock, hplace, -, -, -, hdirty, -, hwritten⟩ := h
  have hdev : ∀ b, (s.buf b).dev ≠ ROOTDEV := fun b => by
    rw [(hbuf b).1]
    decide
  refine ⟨hcache, fun b hb => absurd (hbuf b).2.2 hb, fun {p b _ _ _} hp => ?_,
    fun {p b _ _} hp => ?_, fun b hb => absurd hb (hdev b), fun b hb => absurd hb (hdev b),
    fun b hb => absurd hb (hdev b), fun b _ => hdirty b, fun k _ => ?_⟩
  · rw [hplace] at hp
    cases hp
  · rw [hplace] at hp
    cases hp
  · rw [hwritten]

lemma Coherent.of_content (h : Coherent s) (hcache : CacheInv s')
    (hbuf : ∀ c, (s'.buf c).dev = (s.buf c).dev ∧ (s'.buf c).blockno = (s.buf c).blockno ∧
      (s'.buf c).valid = (s.buf c).valid ∧ (s'.buf c).data = (s.buf c).data)
    (hroot : ∀ c, (s'.buf c).refcnt ≠ 0 → (s.buf c).dev = ROOTDEV)
    (hdisk : s'.disk = s.disk) (hwritten : s'.written = s.written) (hdirty : s'.dirty = s.dirty)
    (hwaiting : ∀ {q c dev blockno read}, s'.place q = .waiting c dev blockno read →
      (s.buf c).dev = dev ∧ (s.buf c).blockno = blockno)
    (hreading : ∀ {q c dev blockno}, s'.place q = .reading c dev blockno →
      (s.buf c).dev = dev ∧ (s.buf c).blockno = blockno ∧ (s.buf c).valid = false)
    (hunpinned : ∀ c, (s.buf c).dev = ROOTDEV → s'.pins c = 0 →
      s.disk (s.buf c).blockno = s.written ROOTDEV (s.buf c).blockno)
    (hclean : ∀ c, s'.lock c = none → s.dirty c = false) : Coherent s' := by
  refine ⟨hcache, ?_, ?_, ?_, ?_, ?_, ?_, ?_, ?_⟩
  all_goals simp only [hbuf, hdisk, hwritten, hdirty]
  exacts [hroot, hwaiting, hreading, h.invalid, h.valid, hunpinned, hclean, h.uncached]

lemma Coherent.recycle {blockno : ℕ} {read : Bool} (h : Coherent s)
    (hzero : (s.buf b).refcnt = 0)
    (hnone : ∀ c, (s.buf c).dev = ROOTDEV → (s.buf c).blockno ≠ blockno)
    (hcache : CacheInv ((s.setBuf b { s.buf b with
      dev := ROOTDEV, blockno := blockno, valid := false, refcnt := 1 }).goto p
        (.waiting b ROOTDEV blockno read))) :
    Coherent ((s.setBuf b { s.buf b with
      dev := ROOTDEV, blockno := blockno, valid := false, refcnt := 1 }).goto p
        (.waiting b ROOTDEV blockno read)) := by
  have hplace : ∀ q, (s.place q).refs b = 0 := fun q => by
    by_contra hq
    exact h.cache.refcnt_ne_zero_of_refs hq hzero
  have hlock : s.lock b = none := by
    by_contra hb
    exact h.cache.refcnt_ne_zero_of_lock hb hzero
  have hpins : s.pins b = 0 := by
    have := h.cache.refcnt b
    omega
  have hdisk := h.uncached blockno hnone
  constructor
  case cache => exact hcache
  all_goals simp only [Cache.goto, Cache.setBuf, update_apply]
  case waiting =>
    intro q c dev no read' hq
    have := hplace q
    grind [Place.refs]
  case reading =>
    intro q c dev no hq
    have := @CacheInv.reading s h.cache q c dev no
    grind
  case uncached =>
    intro k hk
    -- the block that the buffer held before, or one that was not cached either
    by_cases hb : (s.buf b).dev = ROOTDEV ∧ (s.buf b).blockno = k
    · rw [← hb.2]
      exact h.unpinned b hb.1 hpins
    · refine h.uncached k fun c hc hno => ?_
      grind
  all_goals grind

/-- The holder of a buffer writes it: its new content reaches the disk, or the buffer is valid and
pinned. -/
theorem Coherent.write {disk : ℕ → Block} (h : Coherent s) (hlock : s.lock b = some p)
    (hdisk : ∀ k, k ≠ (s.buf b).blockno → disk k = s.disk k)
    (hown : disk (s.buf b).blockno = (s.buf b).data ∨ (s.buf b).valid = true ∧ 0 < s.pins b) :
    Coherent { s.write b with disk := disk } := by
  have hroot : (s.buf b).dev = ROOTDEV :=
    h.root b (h.cache.refcnt_ne_zero_of_lock (by simp [hlock]))
  -- no other buffer has the block
  have hne : ∀ c, c ≠ b → (s.buf c).dev = ROOTDEV → (s.buf c).blockno ≠ (s.buf b).blockno :=
    fun c hc hdev hno => hc (h.cache.unique (by rw [hdev]; decide) (by rw [hdev, hroot]) hno)
  have hcache : CacheInv { s.write b with disk := disk } :=
    h.cache.congr (fun _ => ⟨rfl, rfl, rfl⟩) rfl rfl rfl rfl rfl rfl
  constructor
  case cache => exact hcache
  all_goals simp only [Cache.write, hroot, update_self, update_apply]
  case uncached =>
    intro k hk
    have := h.uncached k hk
    grind
  all_goals grind

lemma Coherent.bpin (h : Coherent s) (hlock : s.lock b = some p) : Coherent (s.bpin b) := by
  have hroot : (s.buf b).dev = ROOTDEV :=
    h.root b (h.cache.refcnt_ne_zero_of_lock (by simp [hlock]))
  refine h.of_content (h.cache.repin (by omega)) (fun c => ?_) (fun c hc => ?_) rfl rfl rfl
    h.waiting h.reading (fun c hdev hc => ?_) h.clean
  · by_cases hcb : c = b <;> simp [Cache.bpin, Cache.setBuf, hcb]
  · by_cases hcb : c = b
    · rw [hcb, hroot]
    · refine h.root c ?_
      simpa [Cache.bpin, Cache.setBuf, hcb] using hc
  · refine h.unpinned c hdev ?_
    by_cases hcb : c = b <;> simp_all [Cache.bpin]

lemma Coherent.step (h : Coherent s) (hl : Disciplined s (p, a)) (hs : s.exec p a = some s') :
    Coherent s' := by
  have hcache := h.cache.step hs
  cases cacheStep_of_exec hs with
  | bget hp hget =>
    obtain rfl := hl .oneDisk
    rcases h.cache.bget_cases hget with ⟨hdev, hno, rfl⟩ | ⟨hzero, hnone, rfl⟩
    · refine h.of_content hcache ?_ ?_ rfl rfl rfl ?_ ?_ h.unpinned h.clean
      all_goals
        simp only [Cache.goto, Cache.setBuf, update_apply]
        grind
    · exact h.recycle hzero hnone hcache
  | acquiresleep hp hlock =>
    refine h.of_content hcache (fun _ => ⟨rfl, rfl, rfl, rfl⟩) h.root rfl rfl rfl ?_ ?_
      h.unpinned ?_
    all_goals
      simp only [Cache.goto, update_apply]
      grind
  | @read b _ _ hp =>
    have hlock := @h.cache.reading
    have hdisk := h.invalid b
    constructor
    case cache => exact hcache
    case uncached =>
      refine fun k hk => h.uncached k fun c hc => ?_
      simp only [Cache.goto, Cache.setBuf, update_apply] at hk
      grind
    all_goals
      simp only [Cache.goto, Cache.setBuf, update_apply]
      grind
  | modify hp hlock =>
    constructor
    case cache => exact hcache
    case uncached =>
      refine fun k hk => h.uncached k fun c hc => ?_
      simp only [Cache.setBuf, update_apply] at hk
      grind
    all_goals
      simp only [Cache.setBuf, update_apply]
      grind
  | bwrite hp hlock =>
    exact h.write hlock (fun k hk => update_of_ne hk ..) (.inl (update_self ..))
  | @logWrite b hp hlock =>
    unfold Cache.logWrite at hcache ⊢
    split_ifs at hcache ⊢ with hlog
    · exact h.write hlock (fun _ _ => rfl) (.inr ⟨hl .logValid, hl .absorbPinned hlog⟩)
    · have hvalid : (s.buf b).valid = true := hl .logValid
      have hpin : Coherent { (s.bpin b).write b with disk := s.disk } := by
        refine (h.bpin hlock).write hlock (fun _ _ => rfl) (.inr ⟨?_, ?_⟩)
        · simpa [Cache.bpin] using hvalid
        · simp [Cache.bpin]
      exact hpin.of_content hcache (fun _ => ⟨rfl, rfl, rfl, rfl⟩) hpin.root rfl rfl rfl
        hpin.waiting hpin.reading hpin.unpinned hpin.clean
  | bpin hp hlock => exact h.bpin hlock
  | bunpin hp hpins =>
    refine h.of_content hcache ?_ ?_ rfl rfl rfl h.waiting h.reading ?_ h.clean
    all_goals simp only [Cache.bunpin, Cache.setBuf, update_apply]
    · grind
    · grind
    · have hrule := hl .unpinWritten
      simp only [Rule.Met] at hrule
      grind
  | clearLog hp =>
    exact h.of_content hcache (fun _ => ⟨rfl, rfl, rfl, rfl⟩) h.root rfl rfl rfl h.waiting
      h.reading h.unpinned h.clean
  | brelse hp hlock =>
    refine h.of_content hcache (fun _ => ⟨rfl, rfl, rfl, rfl⟩) h.root rfl rfl rfl ?_ ?_
      h.unpinned ?_
    all_goals simp only [Cache.goto, update_apply]
    · grind
    · grind
    · have hrule := hl .releaseClean
      simp only [Rule.Met] at hrule
      grind
  | @drop b hp =>
    obtain ⟨links, clock, stamp, hdrop⟩ := exists_drop_eq s b
    rw [hdrop] at hcache ⊢
    refine h.of_content hcache ?_ ?_ rfl rfl rfl ?_ ?_ h.unpinned h.clean
    all_goals
      simp only [Cache.goto, Cache.setBuf, update_apply]
      grind

lemma Coherent.of_reachable (h : (cacheSystem.restrict Disciplined).Reachable s) : Coherent s :=
  h.invariant (S := cacheSystem.restrict Disciplined) (I := Coherent) (fun _ => coherent_init)
    fun _ _ _ _ hI hs => hI.step hs.1 hs.2

/-! ## What `bread` returns -/

/-- The last step of `bread` returns the buffer of the block, with the content last written. -/
theorem Coherent.returns {dev blockno : ℕ} (h : Coherent s) (hs : s.exec p a = some s')
    (hret : s.Returns s' p b dev blockno) :
    (s'.buf b).dev = dev ∧ (s'.buf b).blockno = blockno ∧ s'.lock b = some p ∧
      (s'.buf b).data = s'.written dev blockno := by
  obtain ⟨hplace | hplace, hidle⟩ := hret
  · -- the process gets the sleep-lock of a buffer that has its block
    have hroot := h.root b (h.cache.refcnt_ne_zero_of_refs (p := p) (by simp [hplace]))
    obtain ⟨rfl, rfl⟩ := h.waiting hplace
    cases a with
    | acquiresleep =>
      simp only [Cache.exec, hplace] at hs
      split_ifs at hs with hlock hread
      · obtain rfl := Option.some.inj hs
        simp [Cache.goto] at hidle
      · obtain rfl := Option.some.inj hs
        have hvalid : (s.buf b).valid = true := by simpa using hread
        refine ⟨rfl, rfl, update_self .., ?_⟩
        have hdata := h.valid b hroot hvalid (h.clean b hlock)
        rw [← hroot] at hdata
        exact hdata
    | _ => simp [Cache.exec, hplace] at hs
  · -- the process reads the block
    have hlock := h.cache.reading hplace
    have hroot := h.root b (h.cache.refcnt_ne_zero_of_lock (by simp [hlock]))
    obtain ⟨rfl, rfl, hvalid⟩ := h.reading hplace
    cases a with
    | read =>
      simp only [Cache.exec, hplace] at hs
      obtain rfl := Option.some.inj hs
      have hdata := h.invalid b hroot hvalid
      rw [← hroot] at hdata
      simpa [Cache.goto, hlock, Cache.setBuf] using hdata
    | _ => simp [Cache.exec, hplace] at hs

end Invariant

/-! ## The buffer cache -/

/-- In every run at most one buffer holds a block, the links form one ring of all buffers, ordered
by their last release to a reference count of `0`, the reference count of a buffer is the number of
processes that wait for it, hold it or are about to drop it, and of its pins, and a buffer with
references is not used for another block. In every run that follows the rules, `bread` returns the
buffer of its block with the content last written. -/
theorem buffer_cache {s : Cache} (h : cacheSystem.Reachable s) :
    (∀ b c, (s.buf b).dev ≠ 0 → (s.buf b).dev = (s.buf c).dev →
      (s.buf b).blockno = (s.buf c).blockno → b = c) ∧
    (∃ l, s.links.Ring l ∧ (∀ b, b ∈ l) ∧ l.Pairwise s.Newer) ∧
    (∀ b, (s.buf b).refcnt = ∑ p, (s.place p).refs b + s.holders b + s.pins b) ∧
    (∀ p a s' b, s.exec p a = some s' → (s.buf b).refcnt ≠ 0 →
      (s'.buf b).dev = (s.buf b).dev ∧ (s'.buf b).blockno = (s.buf b).blockno) ∧
    ((cacheSystem.restrict Disciplined).Reachable s →
      ∀ p a s' b dev blockno, s.exec p a = some s' → s.Returns s' p b dev blockno →
        (s'.buf b).dev = dev ∧ (s'.buf b).blockno = blockno ∧ s'.lock b = some p ∧
          (s'.buf b).data = s'.written dev blockno) := by
  have hinv := CacheInv.of_reachable h
  refine ⟨fun b c => hinv.unique, hinv.ring, hinv.refcnt, fun p a s' b hs hb => hinv.recycled hs hb,
    fun hrules p a s' b dev blockno hs hret => ?_⟩
  exact (Coherent.of_reachable hrules).returns hs hret

/-! ## Runs -/

/-- The state after `binit`, over a disk of zeros. -/
def booted : Cache where
  buf _ := {}
  links := binit
  lock _ := none
  place _ := .idle
  disk _ := 0
  log := []
  pins _ := 0
  clock := 0
  stamp _ := 0
  dirty _ := false
  written _ _ := 0

lemma init_booted : cacheSystem.init booted :=
  ⟨fun _ => ⟨rfl, rfl, rfl⟩, rfl, fun _ => rfl, fun _ => rfl, fun _ => rfl, rfl, fun _ => rfl,
    fun _ => rfl, rfl, fun _ => rfl⟩

/-- The steps of a process that gets the buffer of a block and calls `bread` for it if `read`. -/
def getBlock (p : ProcId) (dev blockno : ℕ) (read : Bool) : List (ProcId × Act) :=
  [(p, .bget dev blockno read), (p, .acquiresleep)]

/-- The steps of a process that gives a buffer back. -/
def giveBack (p : ProcId) (b : BufId) : List (ProcId × Act) := [(p, .brelse b), (p, .drop)]

/-- A block of ones, and a block of twos. -/
def ones : Block := fun _ => 1

@[inherit_doc ones]
def twos : Block := fun _ => 2

/-- The first process and the first buffer that is used. -/
def proc0 : ProcId := ⟨0, nproc_pos⟩

@[inherit_doc proc0]
def buf0 : BufId := ⟨0, nbuf_pos⟩

/-- A page is written as `raid_write_page` does it, without a read before, and read back. -/
def writeRead : List (ProcId × Act) :=
  getBlock proc0 ROOTDEV 5 false ++ [(proc0, .modify buf0 ones), (proc0, .bwrite buf0)] ++
    giveBack proc0 buf0 ++ getBlock proc0 ROOTDEV 5 true

theorem buffer_cache_write_read :
    ∃ s s', (cacheSystem.restrict Disciplined).Reachable s ∧ s.exec proc0 .read = some s' ∧
      s.Returns s' proc0 buf0 ROOTDEV 5 ∧ (s'.buf buf0).data = s'.written ROOTDEV 5 ∧
      s'.written ROOTDEV 5 ⟨0, by decide⟩ = 1 := by
  have hrun : (writeRead.foldlM
      (fun (s : Cache) l => if ∀ r : Rule, r.Met s l then s.exec l.1 l.2 else none) booted).any
      fun s => (s.exec proc0 .read).any fun s' => s.place proc0 = .reading buf0 ROOTDEV 5 ∧
        s'.place proc0 = .idle ∧ s'.written ROOTDEV 5 ⟨0, by decide⟩ = 1 := by
    decide +kernel
  obtain ⟨s, hs, hlast⟩ := any_eq_true _ _ |>.mp hrun
  obtain ⟨s', hs', hprop⟩ := any_eq_true _ _ |>.mp hlast
  obtain ⟨hplace, hidle, hone⟩ := of_decide_eq_true hprop
  have hrun : (cacheSystem.restrict fun s l => ∀ r : Rule, r.Met s l).Run booted writeRead s :=
    .of_foldlM (TransitionSystem.restrict_step_of_ite fun _ _ _ => id) hs
  have hreach : (cacheSystem.restrict Disciplined).Reachable s :=
    hrun.reachable (.init init_booted)
  have hret : s.Returns s' proc0 buf0 ROOTDEV 5 := ⟨.inr hplace, hidle⟩
  have hdata := ((buffer_cache hreach.of_restrict).2.2.2.2 hreach _ _ _ _ _ _ hs' hret).2.2.2
  exact ⟨s, s', hreach, hs', hret, hdata, hone⟩

/-- A run that breaks only the rule given, up to the last step of a `bread` of block `5`. -/
def staleRun : Rule → List (ProcId × Act)
  | .oneDisk =>
    -- block 5 is written on one device and read on another
    getBlock proc0 ROOTDEV 5 false ++ [(proc0, .modify buf0 ones), (proc0, .bwrite buf0)] ++
      giveBack proc0 buf0 ++ getBlock proc0 2 5 true
  | .logValid =>
    -- the buffer is filled after `bget`, and `bread` reads the disk over it
    getBlock proc0 ROOTDEV 5 false ++ [(proc0, .modify buf0 ones), (proc0, .logWrite buf0)] ++
      giveBack proc0 buf0 ++ getBlock proc0 ROOTDEV 5 true
  | .absorbPinned =>
    -- the block is still in the log header when it is written again, but no longer pinned
    getBlock proc0 ROOTDEV 5 true ++
      [(proc0, .read), (proc0, .modify buf0 ones), (proc0, .logWrite buf0), (proc0, .bwrite buf0),
        (proc0, .bunpin buf0), (proc0, .modify buf0 twos), (proc0, .logWrite buf0)] ++
      giveBack proc0 buf0 ++
      -- with all others in use, the buffer goes to another block
      (List.finRange 29).map
        (fun i => (i.succ.castLE (by decide), .bget ROOTDEV (i + 100) false)) ++
      getBlock proc0 ROOTDEV 6 false ++ giveBack proc0 buf0 ++ getBlock proc0 ROOTDEV 5 true
  | .unpinWritten =>
    -- the last pin goes before the block is on the disk, and the buffer goes to another block
    getBlock proc0 ROOTDEV 5 true ++
      [(proc0, .read), (proc0, .modify buf0 ones), (proc0, .logWrite buf0)] ++
      giveBack proc0 buf0 ++ [(proc0, .bunpin buf0)] ++
      getBlock proc0 ROOTDEV 6 false ++ giveBack proc0 buf0 ++ getBlock proc0 ROOTDEV 5 true
  | .releaseClean =>
    getBlock proc0 ROOTDEV 5 true ++ [(proc0, .read), (proc0, .modify buf0 ones)] ++
      giveBack proc0 buf0 ++ [(proc0, .bget ROOTDEV 5 true)]

/-- A run that breaks only this rule makes `bread` return something else than the content last
written. -/
def Rule.Needed (r : Rule) : Prop :=
  ∃ s p a s' b dev blockno,
    (cacheSystem.restrict fun s l => ∀ r', r' ≠ r → r'.Met s l).Reachable s ∧
      s.exec p a = some s' ∧ s.Returns s' p b dev blockno ∧
        (s'.buf b).data ≠ s'.written dev blockno

lemma Rule.needed (r : Rule) : r.Needed := by
  have hrun : ((staleRun r).foldlM
      (fun (s : Cache) l => if ∀ r', r' ≠ r → r'.Met s l then s.exec l.1 l.2 else none)
      booted).any fun s => [Act.acquiresleep, .read].any fun a =>
        (s.exec proc0 a).any fun s' => match s.place proc0 with
          | .waiting b dev blockno true | .reading b dev blockno => s'.place proc0 = .idle ∧
            (s'.buf b).data ⟨0, by decide⟩ ≠ s'.written dev blockno ⟨0, by decide⟩
          | _ => false := by
    revert r
    decide +kernel
  obtain ⟨s, hs, hlast⟩ := any_eq_true _ _ |>.mp hrun
  obtain ⟨a, -, ha⟩ := List.any_eq_true.mp hlast
  obtain ⟨s', hs', hdata⟩ := any_eq_true _ _ |>.mp ha
  have hreach : (cacheSystem.restrict fun s l => ∀ r', r' ≠ r → r'.Met s l).Run booted
      (staleRun r) s :=
    .of_foldlM (TransitionSystem.restrict_step_of_ite fun _ _ _ => id) hs
  have hreach := hreach.reachable (.init init_booted)
  split at hdata
  · rename_i b dev blockno hplace
    obtain ⟨hidle, hne⟩ := of_decide_eq_true hdata
    exact ⟨s, proc0, a, s', b, dev, blockno, hreach, hs', ⟨.inl hplace, hidle⟩,
      fun heq => hne (congrFun heq _)⟩
  · rename_i b dev blockno hplace
    obtain ⟨hidle, hne⟩ := of_decide_eq_true hdata
    exact ⟨s, proc0, a, s', b, dev, blockno, hreach, hs', ⟨.inr hplace, hidle⟩,
      fun heq => hne (congrFun heq _)⟩
  · cases hdata

/-- It is not enough that every modification is written before the buffer is released. -/
theorem bread_stale : Rule.oneDisk.Needed ∧ Rule.logValid.Needed ∧ Rule.absorbPinned.Needed ∧
    Rule.unpinWritten.Needed :=
  ⟨Rule.needed _, Rule.needed _, Rule.needed _, Rule.needed _⟩

end Xv6.Bcache
