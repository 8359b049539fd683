import Xv6.User.FreeList

/-!
# Safety of the allocator

`malloc`, `free` and `morecore` only move memory between the free list and the program: the cells of
all blocks, free or in use, are those of the memory that `sbrk` has handed out (`Inv`). This gives
that the blocks are disjoint, that they lie in that memory and that nothing is lost.

`size` is a `uint`. Where `free` joins blocks that together have `2 ^ 32` units or more, the sum
wraps and the rest of the memory is lost. `heap_safe` is about the programs with which this does not
happen, and `heap_loses_memory` is one with which it does.
-/

namespace Xv6.Umalloc

open LinkedCircle MemBlock Function List Nat Heap Alloc

/-! ## Safety -/

/-- The block of an allocation, with the size in its header. -/
def Heap.blockOf (s : Heap) (a : Alloc) : MemBlock := ⟨a.ap - HEADER, s.size (a.ap - HEADER)⟩

/-- The blocks in use and the free blocks `F` are as they should be. -/
structure Heap.Divided (base : ℕ) (s : Heap) (F : List MemBlock) : Prop where
  /-- Before the first call there is no free list. -/
  free : s.freep = 0 ∧ F = [] ∨ s.IsFreeList base F
  /-- Free blocks do not overlap blocks in use, and these do not overlap each other. -/
  free_apart : ∀ b ∈ F, ∀ a ∈ s.live, b.Apart HEADER (s.blockOf a)
  base_apart : ∀ a ∈ s.live, base + HEADER ≤ (s.blockOf a).addr
  live_apart : s.live.Pairwise fun a a' => (s.blockOf a).Apart HEADER (s.blockOf a')
  /-- Blocks in use lie in the memory from `sbrk`. -/
  inside : ∀ a ∈ s.live, ∀ x, (s.blockOf a).addr ≤ x → x < (s.blockOf a).stop HEADER →
    ∃ r ∈ s.obtained, r.addr ≤ x ∧ x < r.stop HEADER
  aligned : ∀ a ∈ s.live, HEADER ∣ a.ap
  /-- They hold the bytes that were asked for. -/
  holds : ∀ a ∈ s.live, (s.blockOf a).addr + HEADER = a.ap ∧
    a.ap + a.nbytes ≤ (s.blockOf a).stop HEADER
  /-- Nothing is lost. -/
  total : (F.map units).sum + (s.live.map fun a => (s.blockOf a).units).sum =
    (s.obtained.map units).sum

/-- Blocks that a call joins have together fewer than `2 ^ 32` units. This is about the block that
is freed, or, if there is no free block that is large enough, about the memory that `sbrk` hands
out. -/
def Heap.NoOverflow (base : ℕ) (s : Heap) : Call → Prop
  | .malloc nbytes sbrk => ∀ F p, (s.start base).IsFreeList base F →
      (∀ b ∈ F, b.units < nunits nbytes) →
      sbrk s.brk (coreUnits (nunits nbytes) * HEADER) = some p →
      joinedUnits F ⟨p, coreUnits (nunits nbytes)⟩ < 2 ^ 32
  | .free ap => ∀ F, s.IsFreeList base F →
      joinedUnits F ⟨ap - HEADER, s.size (ap - HEADER)⟩ < 2 ^ 32
  | .write _ _ => True

/-- The allocator is safe: memory is divided among blocks, and the calls that may be made, and do
not overflow, return. -/
def Heap.Safe (base : ℕ) (s : Heap) : Prop :=
  (∃ F, s.Divided base F) ∧ ∀ c, s.Allowed c → s.NoOverflow base c →
    ∃ N s', ∀ fuel ≥ N, s.exec base fuel c = some s'

/-! ## The invariant -/

/-- The block for a request. -/
def Alloc.block (a : Alloc) : MemBlock := ⟨a.ap - HEADER, nunits a.nbytes⟩

/-- Memory is divided among the free blocks `F`, the blocks `H` that are on their way between the
program and the free list, and the allocations `L`. -/
structure Inv (base : ℕ) (s : Heap) (F H : List MemBlock) (L : List Alloc) : Prop where
  free : s.IsFreeList base F
  held : ∀ b ∈ H, 0 < b.units ∧ s.size b.addr = b.units
  live : ∀ a ∈ L, HEADER ≤ a.ap ∧ s.size a.block.addr = a.block.units
  cells : cellsOf HEADER (F ++ H ++ L.map block) = cellsOf HEADER s.obtained
  nodup : (cellsOf HEADER s.obtained).Nodup
  bounds : ∀ x ∈ cellsOf HEADER s.obtained, HEADER ∣ x ∧ base + HEADER ≤ x ∧ x + HEADER ≤ s.brk
  brk : base + HEADER ≤ s.brk

lemma nunits_pos (nbytes : ℕ) : 0 < nunits nbytes := succ_pos _

section Inv

variable {base fuel : ℕ} {s s' : Heap} {F F' H : List MemBlock} {L : List Alloc} {b c : MemBlock}

namespace Inv

section

variable (h : Inv base s F H L)

include h

lemma pos (hb : b ∈ F ++ H ++ L.map block) : 0 < b.units := by
  rcases mem_append.mp hb with hb | hb
  · rcases mem_append.mp hb with hb | hb
    · exact h.free.pos b hb
    · exact (h.held b hb).1
  · obtain ⟨a, -, rfl⟩ := mem_map.mp hb
    exact nunits_pos _

lemma bounds_of_mem (hb : b ∈ F ++ H ++ L.map block) :
    HEADER ∣ b.addr ∧ base + HEADER ≤ b.addr ∧ b.addr + HEADER ≤ s.brk := by
  refine h.bounds _ ?_
  rw [← h.cells]
  exact Multiset.mem_of_le (cells_le_cellsOf hb) (addr_mem_cells (h.pos hb))

lemma apart : (F ++ H ++ L.map block).Pairwise (Apart HEADER) := by
  refine pairwise_apart ?_ (fun b hb => (h.bounds_of_mem hb).1) fun b hb => h.pos hb
  rw [h.cells]
  exact h.nodup

/-- The header of an allocation is not that of a free or held block. -/
theorem header_ne {a : Alloc} (ha : a ∈ L) (hb : b ∈ F ++ H) : a.block.addr ≠ b.addr := by
  have hblock : a.block ∈ L.map block := mem_map.mpr ⟨a, ha, rfl⟩
  have hapart := (pairwise_append.mp h.apart).2.2 b hb a.block hblock
  exact (hapart.addr_ne (by decide) (h.pos (mem_append_left _ hb)) (nunits_pos _)).symm

/-- The header of an allocation is outside of those that `free` and `malloc` write. -/
theorem header_notMem {a : Alloc} (ha : a ∈ L) : a.block.addr ∉ base :: F.map addr := by
  intro hmem
  rcases mem_cons.mp hmem with heq | hmem
  · have hle := (h.bounds_of_mem (mem_append_right _ (mem_map.mpr ⟨a, ha, rfl⟩))).2.1
    have hpos : 0 < HEADER := by decide
    omega
  · obtain ⟨b, hb, heq⟩ := mem_map.mp hmem
    exact h.header_ne ha (mem_append_left _ hb) heq.symm

end

/-- `free` moves the held block into the free list. -/
theorem free_held (h : Inv base s F [b] L) (hfits : joinedUnits F b < 2 ^ 32) :
    ∃ s' F', (∀ fuel > F.length, s.free fuel (b.addr + HEADER) = some s') ∧ Inv base s' F' [] L ∧
      (∃ c ∈ F', b.units ≤ c.units) ∧ s'.live = s.live := by
  obtain ⟨hn, hsize⟩ := h.held b (by simp)
  have hbounds := h.bounds_of_mem (b := b) (by simp)
  have hpos : 0 < HEADER := by decide
  have hapart : ∀ c ∈ F, c.Apart HEADER b := fun c hc =>
    (pairwise_append.mp (pairwise_append.mp h.apart).1).2.2 c hc b (by simp)
  obtain ⟨s', F', hrun, hF', hcells, hbig, hsame⟩ :=
    h.free.free (by omega) hn hsize hapart hfits
  refine ⟨s', F', hrun, ⟨hF', by simp, fun a ha => ?_, ?_, ?_, ?_, ?_⟩, hbig, hsame.live⟩
  · obtain ⟨hap, hheader⟩ := h.live a ha
    refine ⟨hap, (hsame.size _ fun hmem => ?_).trans hheader⟩
    rcases mem_cons.mp hmem with heq | hmem
    · exact h.header_ne ha (by simp) heq
    · exact h.header_notMem ha hmem
  · rw [hsame.obtained, ← h.cells]
    simp only [cellsOf_append, cellsOf_cons, cellsOf_nil, Multiset.add_zero, hcells]
  · rw [hsame.obtained]
    exact h.nodup
  · rw [hsame.obtained, hsame.brk]
    exact h.bounds
  · rw [hsame.brk]
    exact h.brk

/-- `malloc` takes a block that is large enough. -/
theorem take_held {n prevp : ℕ} (h : Inv base s F [] L) (hc : c ∈ F)
    (hprev : prevp ∈ base :: F.map addr) (hnext : s.ptr prevp = c.addr) (hn : 0 < n)
    (hle : n ≤ c.units) :
    ∃ (blk : MemBlock) (s' : Heap) (F' : List MemBlock),
      s.take n prevp c.addr = (blk.addr + HEADER, s') ∧ blk.units = n ∧ Inv base s' F' [blk] L ∧
        s'.live = s.live := by
  obtain ⟨blk, s', F', hrun, hF', hunits, hsize, hcells, hsame⟩ :=
    h.free.take hc hprev hnext hn hle
  have hcells' :
      cellsOf HEADER (F' ++ [blk] ++ L.map block) = cellsOf HEADER s'.obtained := by
    rw [hsame.obtained, ← h.cells]
    simp only [cellsOf_append, cellsOf_cons, cellsOf_nil, Multiset.add_zero, hcells]
  refine ⟨blk, s', F', hrun, hunits, ⟨hF', ?_, fun a ha => ?_, hcells', ?_, ?_, ?_⟩, hsame.live⟩
  · simp [hunits, hsize, hn]
  · obtain ⟨hap, hheader⟩ := h.live a ha
    refine ⟨hap, (hsame.size _ fun hmem => ?_).trans hheader⟩
    rcases mem_cons.mp hmem with heq | hmem
    · -- the block was taken from free memory, so it has no cell of an allocation
      have hnodup := h.nodup
      rw [← hsame.obtained, ← hcells', cellsOf_append, cellsOf_append] at hnodup
      have hdisj := (Multiset.nodup_add.mp hnodup).2.2
      have hblk : blk.addr ∈ cellsOf HEADER F' + cellsOf HEADER [blk] := by
        refine Multiset.mem_add.mpr (.inr ?_)
        exact Multiset.mem_of_le (cells_le_cellsOf (by simp)) (addr_mem_cells (by omega))
      have hlive : a.block.addr ∈ cellsOf HEADER (L.map block) :=
        Multiset.mem_of_le (cells_le_cellsOf (mem_map.mpr ⟨a, ha, rfl⟩))
          (addr_mem_cells (nunits_pos _))
      rw [heq] at hlive
      exact Multiset.disjoint_left.mp hdisj hblk hlive
    · exact h.header_notMem ha hmem
  · rw [hsame.obtained]
    exact h.nodup
  · rw [hsame.obtained, hsame.brk]
    exact h.bounds
  · rw [hsame.brk]
    exact h.brk

lemma grow {p nu : ℕ} (h : Inv base s F [] L) (hp : s.brk ≤ p) (haligned : HEADER ∣ p)
    (hnu : 0 < nu) : Inv base (s.grow p nu) F [⟨p, nu⟩] L := by
  have hbrk := h.brk
  have hpos : 0 < HEADER := by decide
  have hsize : ∀ x < s.brk, (s.grow p nu).size x = s.size x := fun x hx =>
    update_of_ne (by omega) ..
  have hbelow : ∀ b ∈ F ++ [] ++ L.map block, b.addr < s.brk := by
    intro b hb
    have hle := (h.bounds_of_mem hb).2.2
    omega
  have hcells : cellsOf HEADER (s.grow p nu).obtained =
      cellsOf HEADER s.obtained + (⟨p, nu⟩ : MemBlock).cells HEADER := by
    simp [Heap.grow]
  have hnew : ∀ x ∈ (⟨p, nu⟩ : MemBlock).cells HEADER,
      HEADER ∣ x ∧ p ≤ x ∧ x + HEADER ≤ p + nu * HEADER := by
    intro x hx
    obtain ⟨i, hi, rfl⟩ := mem_cells.mp hx
    refine ⟨Nat.dvd_add haligned (Dvd.intro i rfl), Nat.le_add_right _ _, ?_⟩
    have hmul := mul_le_mul_left HEADER (succ_le_of_lt hi)
    rw [mul_succ, mul_comm HEADER nu] at hmul
    dsimp only
    omega
  refine ⟨⟨h.free.circle, fun b hb => ?_, ?_, h.free.freep, h.free.increasing, h.free.gaps,
    h.free.pos⟩, ?_, fun a ha => ?_, ?_, ?_, fun x hx => ?_, ?_⟩
  · rw [hsize _ (hbelow b (by simp [hb]))]
    exact h.free.size b hb
  · rw [hsize _ (by omega)]
    exact h.free.base_size
  · rintro b hb
    obtain rfl := mem_singleton.mp hb
    exact ⟨hnu, update_self ..⟩
  · rw [hsize _ (hbelow _ (mem_append_right _ (mem_map.mpr ⟨a, ha, rfl⟩)))]
    exact h.live a ha
  · rw [hcells, ← h.cells]
    simp only [cellsOf_append, cellsOf_cons, cellsOf_nil, Multiset.add_zero]
    ac_rfl
  · rw [hcells]
    refine Multiset.nodup_add.mpr ⟨h.nodup, nodup_cells hpos, Multiset.disjoint_left.mpr ?_⟩
    intro x hx hx'
    have hlo := (h.bounds x hx).2.2
    have hhi := (hnew x hx').2.1
    omega
  · change HEADER ∣ x ∧ base + HEADER ≤ x ∧ x + HEADER ≤ p + nu * HEADER
    rw [hcells] at hx
    rcases Multiset.mem_add.mp hx with hx | hx
    · obtain ⟨hdvd, hlo, hhi⟩ := h.bounds x hx
      exact ⟨hdvd, hlo, by omega⟩
    · obtain ⟨hdvd, hlo, hhi⟩ := hnew x hx
      exact ⟨hdvd, by omega, hhi⟩
  · change base + HEADER ≤ p + nu * HEADER
    omega

lemma freep_ne_zero (h : Inv base s F H L) (hbase : 0 < base) : s.freep ≠ 0 := by
  rcases mem_cons.mp h.free.freep with heq | hmem
  · omega
  · obtain ⟨b, hb, heq⟩ := mem_map.mp hmem
    have hlt := h.free.base_lt hb
    omega

/-- The result of `malloc`: no memory, or a block that is now on its way to the program. -/
def Outcome (base n : ℕ) (L : List Alloc) (r : ℕ) (s' : Heap) : Prop :=
  (r = 0 ∧ ∃ F', Inv base s' F' [] L) ∨
    ∃ (blk : MemBlock) (F' : List MemBlock), r = blk.addr + HEADER ∧ blk.units = n ∧
      Inv base s' F' [blk] L

/-- The loop of `malloc` ends, and takes a block unless `sbrk` fails. -/
theorem mallocLoop {n : ℕ} {sbrk : Sbrk} (h : Inv base s F [] L) (hbase : 0 < base) (hn : 0 < n)
    (hsbrk : SbrkLawful sbrk)
    (hfits : (∀ b ∈ F, b.units < n) → ∀ p, sbrk s.brk (coreUnits n * HEADER) = some p →
      joinedUnits F ⟨p, coreUnits n⟩ < 2 ^ 32) :
    ∃ N r s', (∀ fuel ≥ N, s.mallocLoop sbrk n fuel s.freep (s.ptr s.freep) = some (r, s')) ∧
      s'.live = s.live ∧ Outcome base n L r s' := by
  by_cases hbig : ∃ c ∈ F, n ≤ c.units
  · -- a free block is large enough
    obtain ⟨prevp, hprev, c, hc, hle, hnext, hloop⟩ := h.free.mallocLoop_of_exists sbrk hn hbig
    obtain ⟨blk, s', F', htake, hunits, hinv, hlive⟩ := h.take_held hc hprev hnext hn hle
    refine ⟨F.length + 1, blk.addr + HEADER, s', fun fuel hfuel => ?_, hlive,
      .inr ⟨blk, F', rfl, hunits, hinv⟩⟩
    rw [hloop fuel (by omega), htake]
  · have hsmall : ∀ c ∈ F, c.units < n := fun c hc =>
      Nat.lt_of_not_le fun hle => hbig ⟨c, hc, hle⟩
    have hcore : 0 < coreUnits n ∧ n ≤ coreUnits n := by
      unfold coreUnits
      split_ifs <;> omega
    cases hask : sbrk s.brk (coreUnits n * HEADER) with
    | none =>
      refine ⟨F.length + 1, 0, s, fun fuel hfuel => ?_, rfl, .inl ⟨rfl, F, h⟩⟩
      obtain ⟨k, rfl⟩ : ∃ k, fuel = k + 1 + F.length := ⟨fuel - (F.length + 1), by omega⟩
      have hmore : s.morecore k sbrk n = some (0, s) := by
        unfold morecore
        rw [hask]
      rw [h.free.mallocLoop_of_forall hn hsmall, hmore]
      rfl
    | some p =>
      -- the new memory is freed, and the second walk around the circle finds it
      obtain ⟨hp, haligned⟩ := hsbrk _ _ _ hask
      have hgrow := h.grow hp haligned hcore.1
      obtain ⟨s₁, F₁, hfree, hinv₁, ⟨c, hc, hle⟩, hlive₁⟩ := hgrow.free_held (hfits hsmall p hask)
      obtain ⟨prevp, hprev, d, hd, hle', hnext, hloop⟩ :=
        hinv₁.free.mallocLoop_of_exists sbrk hn ⟨c, hc, hcore.2.trans hle⟩
      obtain ⟨blk, s', F', htake, hunits, hinv, hlive⟩ := hinv₁.take_held hd hprev hnext hn hle'
      refine ⟨F.length + F₁.length + F.length + 2, blk.addr + HEADER, s', fun fuel hfuel => ?_,
        hlive.trans hlive₁, .inr ⟨blk, F', rfl, hunits, hinv⟩⟩
      obtain ⟨k, rfl⟩ : ∃ k, fuel = k + 1 + F.length := ⟨fuel - (F.length + 1), by omega⟩
      have hmore : s.morecore k sbrk n = some (s₁.freep, s₁) := by
        unfold morecore
        rw [hask]
        exact Option.map_eq_some_iff.mpr ⟨s₁, hfree k (by omega), rfl⟩
      rw [h.free.mallocLoop_of_forall hn hsmall, hmore]
      dsimp only
      rw [if_neg (hinv₁.freep_ne_zero hbase), hloop k (by omega), htake]

lemma setLive (h : Inv base s F H L) (live : List Alloc) : Inv base { s with live } F H L :=
  ⟨⟨h.free.circle, h.free.size, h.free.base_size, h.free.freep, h.free.increasing, h.free.gaps,
    h.free.pos⟩, h.held, h.live, h.cells, h.nodup, h.bounds, h.brk⟩

/-- The program gets the block that is on its way to it. -/
theorem give {a : Alloc} (h : Inv base s F [a.block] L) (ha : HEADER ≤ a.ap) :
    Inv base s F [] (a :: L) := by
  refine ⟨h.free, by simp, forall_mem_cons.mpr ⟨⟨ha, (h.held _ (by simp)).2⟩, h.live⟩, ?_,
    h.nodup, h.bounds, h.brk⟩
  rw [← h.cells]
  simp

/-- The program gives back an allocation. -/
theorem giveBack {a : Alloc} {L₁ L₂ : List Alloc} (h : Inv base s F [] (L₁ ++ a :: L₂)) :
    Inv base s F [a.block] (L₁ ++ L₂) := by
  have hsub : ∀ x ∈ L₁ ++ L₂, x ∈ L₁ ++ a :: L₂ := by
    intro x hx
    rcases mem_append.mp hx with hx | hx
    · simp [hx]
    · simp [hx]
  refine ⟨h.free, ?_, fun x hx => h.live x (hsub x hx), ?_, h.nodup, h.bounds, h.brk⟩
  · intro b hb
    obtain rfl := mem_singleton.mp hb
    exact ⟨nunits_pos _, (h.live a (by simp)).2⟩
  · rw [← h.cells]
    simp only [cellsOf_append, cellsOf_cons, cellsOf_nil, map_append, map_cons, Multiset.add_zero]
    ac_rfl

/-- The bytes that were asked for are in the block, behind its header. -/
theorem holds (h : Inv base s F H L) {a : Alloc} (ha : a ∈ L) :
    a.block.addr + HEADER = a.ap ∧ a.ap + a.nbytes ≤ a.block.stop HEADER := by
  have hap := (h.live a ha).1
  have haddr : a.block.addr = a.ap - HEADER := rfl
  have hstop : a.block.stop HEADER = a.ap - 16 + 16 * ((a.nbytes + 16 - 1) / 16 + 1) := rfl
  have hheader : HEADER = 16 := rfl
  omega

lemma live_apart (h : Inv base s F [] L) {a : Alloc} (ha : a ∈ L) :
    base + HEADER ≤ a.block.addr ∧ ∀ b ∈ F, b.Apart HEADER a.block := by
  have hmem : a.block ∈ L.map block := mem_map.mpr ⟨a, ha, rfl⟩
  refine ⟨(h.bounds_of_mem (mem_append_right _ hmem)).2.1, fun b hb => ?_⟩
  exact (pairwise_append.mp h.apart).2.2 b (by simp [hb]) a.block hmem

/-- The memory that the program has been given contains no header of the allocator. -/
theorem untouchable (h : Inv base s F [] s.live) {x : ℕ}
    (hx : x ∈ base :: F.map addr ∨ x ∈ (s.live.map block).map addr) : s.Untouchable x := by
  intro a ha
  obtain ⟨haddr, hstop⟩ := h.holds ha
  obtain ⟨hbase, hfree⟩ := h.live_apart ha
  -- a block that is apart from that of `a` begins with a header outside of the memory of `a`
  have hblock : ∀ {b : MemBlock}, 0 < b.units → b.Apart HEADER a.block →
      b.addr + HEADER ≤ a.ap ∨ a.ap + a.nbytes ≤ b.addr := by
    intro b hb hapart
    have hbstop : b.stop HEADER = b.addr + HEADER * b.units := rfl
    have hmul : HEADER ≤ HEADER * b.units := Nat.le_mul_of_pos_right _ hb
    rcases hapart with hle | hle <;> omega
  rcases hx with hx | hx
  · rcases mem_cons.mp hx with rfl | hx
    · left
      omega
    · obtain ⟨b, hb, rfl⟩ := mem_map.mp hx
      exact hblock (h.free.pos b hb) (hfree b hb)
  · obtain ⟨b, hb, rfl⟩ := mem_map.mp hx
    by_cases heq : b = a.block
    · subst heq
      exact .inl (le_of_eq haddr)
    · have hpair := (pairwise_append.mp h.apart).2.1
      exact hblock (h.pos (mem_append_right _ hb))
        (hpair.forall hb (mem_map.mpr ⟨a, ha, rfl⟩) heq)

lemma write {ptr size : ℕ → ℕ} (h : Inv base s F [] s.live)
    (hsame : ∀ x, s.Untouchable x → ptr x = s.ptr x ∧ size x = s.size x) :
    Inv base { s with ptr, size } F [] s.live := by
  have hnode : ∀ x ∈ base :: F.map addr, ptr x = s.ptr x ∧ size x = s.size x := fun x hx =>
    hsame x (h.untouchable (.inl hx))
  refine ⟨⟨?_, fun b hb => ?_, ?_, h.free.freep, h.free.increasing, h.free.gaps, h.free.pos⟩,
    by simp, fun a ha => ?_, h.cells, h.nodup, h.bounds, h.brk⟩
  · refine h.free.circle.congr fun x hx => (hnode x ?_).1
    rcases mem_cons.mp hx with rfl | hx
    · simp
    · rcases mem_append.mp hx with hx | hx
      · exact mem_cons_of_mem _ hx
      · rw [mem_singleton.mp hx]
        simp
  · exact (hnode _ (mem_cons_of_mem _ (mem_map.mpr ⟨b, hb, rfl⟩))).2.trans
      (h.free.size b hb)
  · exact (hnode base (by simp)).2.trans h.free.base_size
  · obtain ⟨hap, hsize⟩ := h.live a ha
    have hmem : a.block.addr ∈ (s.live.map block).map addr :=
      mem_map.mpr ⟨_, mem_map.mpr ⟨a, ha, rfl⟩, rfl⟩
    exact ⟨hap, (hsame _ (h.untouchable (.inr hmem))).2.trans hsize⟩

end Inv

end Inv

/-! ## The calls of a program -/

section Calls

variable {base : ℕ} {s : Heap} {c : Call}

/-- Nothing has been called yet, or the invariant holds. -/
def StateInv (base : ℕ) (s : Heap) : Prop := InitHeap base s ∨ ∃ F, Inv base s F [] s.live

/-- The first call of `malloc` makes the free list. -/
theorem StateInv.start (h : StateInv base s) (hbase : 0 < base) :
    (s.start base).live = s.live ∧ (s.start base).brk = s.brk ∧
      ∃ F, Inv base (s.start base) F [] s.live := by
  rcases h with ⟨hfreep, hlive, hobtained, hbrk⟩ | ⟨F, h⟩
  · unfold Heap.start
    rw [if_pos hfreep]
    refine ⟨rfl, rfl, [], ⟨?_, by simp, update_self .., by simp, by simp, .nil, by simp⟩,
      by simp, by simp [hlive], ?_, ?_, ?_, hbrk⟩
    · exact path_cons_cons.mpr ⟨update_self .., path_singleton base⟩
    · simp [hlive, setPtr, setSize, hobtained]
    · simp [setPtr, setSize, hobtained]
    · simp [setPtr, setSize, hobtained]
  · unfold Heap.start
    rw [if_neg (h.freep_ne_zero hbase)]
    exact ⟨rfl, rfl, F, h⟩

/-- A call that does not overflow returns, and keeps the invariant. -/
theorem StateInv.exec (h : StateInv base s) (hbase : 0 < base) (hallowed : s.Allowed c)
    (hfits : s.NoOverflow base c) :
    ∃ N s', (∀ fuel ≥ N, s.exec base fuel c = some s') ∧ StateInv base s' := by
  cases c with
  | malloc nbytes sbrk =>
    obtain ⟨hlive, hbrk, F, hinv⟩ := h.start hbase
    obtain ⟨N, r, s', hrun, hlive', houtcome⟩ := hinv.mallocLoop hbase (nunits_pos nbytes)
      hallowed.2 fun hsmall p hp => hfits F p hinv.free hsmall (by rw [← hbrk]; exact hp)
    refine ⟨N, _, fun fuel hfuel => Option.map_eq_some_iff.mpr ⟨(r, s'), hrun fuel hfuel, rfl⟩, ?_⟩
    rw [hlive] at hlive'
    rcases houtcome with ⟨rfl, F', hinv'⟩ | ⟨blk, F', rfl, hunits, hinv'⟩
    · refine .inr ⟨F', ?_⟩
      dsimp only
      rw [if_pos rfl, hlive']
      exact hinv'
    · refine .inr ⟨F', ?_⟩
      dsimp only
      rw [if_neg (by simp [HEADER])]
      have hblk : (⟨blk.addr + HEADER, nbytes⟩ : Alloc).block = blk := by
        ext
        · exact Nat.add_sub_cancel ..
        · exact hunits.symm
      rw [← hblk] at hinv'
      rw [← hlive'] at hinv'
      exact (hinv'.give (le_add_left _ _)).setLive _
  | free ap =>
    obtain ⟨a, ha, rfl⟩ := mem_map.mp hallowed
    rcases h with ⟨-, hlive, -, -⟩ | ⟨F, h⟩
    · rw [hlive] at ha
      cases ha
    · -- the allocation with this pointer that is taken out
      obtain ⟨d, L₁, L₂, -, hd, hsplit, herase⟩ :=
        exists_of_eraseP (p := fun d => d.ap = a.ap) ha (by simp)
      have hap : d.ap = a.ap := by simpa using hd
      rw [hsplit] at h
      have hback := h.giveBack
      obtain ⟨haddr, -⟩ := h.holds (a := d) (by simp)
      have hsize := (h.live d (by simp)).2
      have hblock : (⟨a.ap - HEADER, s.size (a.ap - HEADER)⟩ : MemBlock) = d.block := by
        ext
        · exact congrArg (· - HEADER) hap.symm
        · rw [← hap]
          exact hsize
      obtain ⟨s', F', hrun, hinv, -, hlive⟩ := hback.free_held (by
        rw [← hblock]
        exact hfits F h.free)
      rw [haddr, hap] at hrun
      refine ⟨F.length + 1, _, fun fuel hfuel =>
        Option.map_eq_some_iff.mpr ⟨s', hrun fuel (by omega), rfl⟩, .inr ⟨F', ?_⟩⟩
      rw [hlive, herase]
      exact hinv.setLive _
  | write ptr size =>
    refine ⟨0, _, fun _ _ => rfl, ?_⟩
    rcases h with h | ⟨F, h⟩
    · exact .inl h
    · exact .inr ⟨F, h.write hallowed⟩

lemma Heap.exec_mono {fuel fuel' : ℕ} {s' : Heap} (h : s.exec base fuel c = some s')
    (hle : fuel ≤ fuel') : s.exec base fuel' c = some s' := by
  cases c with
  | malloc nbytes sbrk =>
    obtain ⟨r, hr, hs⟩ := Option.map_eq_some_iff.mp h
    exact Option.map_eq_some_iff.mpr ⟨r, mallocLoop_mono fuel hr hle, hs⟩
  | free ap =>
    obtain ⟨s₁, hs₁, hs⟩ := Option.map_eq_some_iff.mp h
    exact Option.map_eq_some_iff.mpr ⟨s₁, free_mono hs₁ hle, hs⟩
  | write ptr size => exact h

/-- What the invariant says about memory. -/
theorem StateInv.divided (h : StateInv base s) : ∃ F, s.Divided base F := by
  rcases h with ⟨hfreep, hlive, hobtained, -⟩ | ⟨F, h⟩
  · refine ⟨[], .inl ⟨hfreep, rfl⟩, ?_, ?_, ?_, ?_, ?_, ?_, ?_⟩
    all_goals simp [hlive, hobtained]
  · have hblock : ∀ a ∈ s.live, s.blockOf a = a.block := by
      intro a ha
      ext
      · rfl
      · exact (h.live a ha).2
    have hpair : (s.live.map block).Pairwise (Apart HEADER) :=
      (pairwise_append.mp h.apart).2.1
    refine ⟨F, .inr h.free, fun b hb a ha => ?_, fun a ha => ?_, ?_, fun a ha => ?_, fun a ha => ?_,
      fun a ha => ?_, ?_⟩
    · rw [hblock a ha]
      exact (h.live_apart ha).2 b hb
    · rw [hblock a ha]
      exact (h.live_apart ha).1
    · refine (pairwise_map.mp hpair).imp_of_mem fun {a a'} ha ha' hapart => ?_
      rw [hblock a ha, hblock a' ha']
      exact hapart
    · intro x hle hlt
      rw [hblock a ha] at hle hlt
      refine exists_of_mem_block (by decide) ?_ hle hlt
      rw [← h.cells]
      exact cells_le_cellsOf (mem_append_right _ (mem_map.mpr ⟨a, ha, rfl⟩))
    · have hmem : a.block ∈ s.live.map block := mem_map.mpr ⟨a, ha, rfl⟩
      rw [← (h.holds ha).1]
      exact Nat.dvd_add (h.bounds_of_mem (mem_append_right _ hmem)).1 (Nat.dvd_refl _)
    · rw [hblock a ha]
      exact h.holds ha
    · -- the number of cells
      have hcard := congrArg Multiset.card h.cells
      rw [card_cellsOf, card_cellsOf, append_nil, map_append, List.sum_append, map_map] at hcard
      rw [← hcard]
      congr 2
      exact map_congr_left fun a ha => congrArg units (hblock a ha)

/-- **Safety of the allocator.** In every run of a program in which no call joins blocks with
together `2 ^ 32` units or more, memory is divided among the blocks, and the calls return. -/
theorem heap_safe (hbase : 0 < base)
    (h : ((heapSystem base).restrict (NoOverflow base)).Reachable s) : s.Safe base := by
  have hinv : StateInv base s := by
    refine h.invariant (I := StateInv base) (fun s hs => .inl hs) ?_
    rintro s c s' - hs ⟨hfits, hallowed, fuel, hexec⟩
    obtain ⟨N, s'', hrun, hs''⟩ := hs.exec hbase hallowed hfits
    -- the call gave its result with less fuel
    have heq := (exec_mono hexec (le_max_left fuel N)).symm.trans
      (hrun _ (le_max_right fuel N))
    cases heq
    exact hs''
  refine ⟨hinv.divided, fun c hallowed hfits => ?_⟩
  obtain ⟨N, s', hrun, -⟩ := hinv.exec hbase hallowed hfits
  exact ⟨N, s', hrun⟩

end Calls

/-! ## Programs that are executed -/

/-- An `sbrk` that never fails and leaves no gaps, except to align. -/
def contiguousSbrk : Sbrk := fun brk _ => some ((brk + 15) / 16 * 16)

lemma contiguousSbrk_lawful : SbrkLawful contiguousSbrk := by
  intro brk n p h
  cases h
  refine ⟨?_, dvd_mul_left _ _⟩
  omega

/-- The heap of a program whose data ends at `0x3000`. -/
def emptyHeap : Heap where
  ptr _ := 0
  size _ := 0
  freep := 0
  live := []
  obtained := []
  brk := 0x3000

lemma emptyHeap_init : InitHeap 0x2000 emptyHeap := ⟨rfl, rfl, rfl, by decide⟩

/-- The calls of a program that gets its memory from `contiguousSbrk`. -/
inductive Op where
  | malloc (nbytes : ℕ)
  | free (ap : ℕ)

def Op.call : Op → Call
  | .malloc nbytes => .malloc nbytes contiguousSbrk
  | .free ap => .free ap

/-- One call with the header `base` at `0x2000`, if it is allowed. -/
def Heap.execOp (s : Heap) : Op → Option Heap
  | .malloc nbytes => if nunits nbytes * HEADER < 2 ^ 31 then
      s.exec 0x2000 100 (.malloc nbytes contiguousSbrk) else none
  | .free ap => if ap ∈ s.live.map Alloc.ap then s.exec 0x2000 100 (.free ap) else none

lemma step_of_execOp (s : Heap) (o : Op) (s' : Heap) (h : s.execOp o = some s') :
    (heapSystem 0x2000).step s o.call s' := by
  cases o with
  | malloc nbytes =>
    obtain ⟨hsmall, hs⟩ := Option.ite_none_right_eq_some.mp h
    exact ⟨⟨hsmall, contiguousSbrk_lawful⟩, 100, hs⟩
  | free ap =>
    obtain ⟨hmem, hs⟩ := Option.ite_none_right_eq_some.mp h
    exact ⟨hmem, 100, hs⟩

/-- Whether a call joins fewer than `2 ^ 32` units of the free list that is found. -/
def Heap.joinsFit (s : Heap) : Op → Bool
  -- also if a free block is large enough, and no memory is asked for
  | .malloc nbytes => ((s.start 0x2000).freeBlocks 0x2000 100).any fun F =>
      joinedUnits F ⟨(s.brk + 15) / 16 * 16, coreUnits (nunits nbytes)⟩ < 2 ^ 32
  | .free ap => (s.freeBlocks 0x2000 100).any fun F =>
      joinedUnits F ⟨ap - HEADER, s.size (ap - HEADER)⟩ < 2 ^ 32

lemma noOverflow_of_joinsFit {s : Heap} {o : Op} (h : s.joinsFit o = true) :
    s.NoOverflow 0x2000 o.call := by
  cases o with
  | malloc nbytes =>
    obtain ⟨L, hL, hfits⟩ := Option.any_eq_true _ _ |>.mp h
    intro F p hlist _ hp
    cases hp
    rw [hlist.eq_of_freeBlocks hL]
    exact of_decide_eq_true hfits
  | free ap =>
    obtain ⟨L, hL, hfits⟩ := Option.any_eq_true _ _ |>.mp h
    intro F hlist
    rw [hlist.eq_of_freeBlocks hL]
    exact of_decide_eq_true hfits

/-- Three blocks are given out. The one in the middle is freed, and then the one above it. -/
def joiningProgram : List Op :=
  [.malloc 100, .malloc 100, .malloc 100, .free 0x12f10, .free 0x12f90]

/-- The two blocks that are freed are joined; the third one is still in use. -/
theorem heap_safe_joining : ∃ s : Heap, s.live.length = 1 ∧
    s.freeBlocks 0x2000 3 = some [⟨0x3000, 4072⟩, ⟨0x12f00, 16⟩] ∧ s.Safe 0x2000 := by
  have heval : (joiningProgram.foldlM
      (fun (s : Heap) o => if s.joinsFit o then s.execOp o else none) emptyHeap).any (fun s =>
        decide (s.live.length = 1 ∧ s.freeBlocks 0x2000 3 = some [⟨0x3000, 4072⟩, ⟨0x12f00, 16⟩])) =
          true := by
    decide +kernel
  have hempty : ((heapSystem 0x2000).restrict (NoOverflow 0x2000)).Reachable emptyHeap :=
    .init emptyHeap_init
  obtain ⟨s, hs, hlive, hfree⟩ := hempty.exists_of_foldlM (fun s o s' h => by
    obtain ⟨hfits, hs⟩ := Option.ite_none_right_eq_some.mp h
    exact ⟨noOverflow_of_joinsFit hfits, step_of_execOp s o s' hs⟩) heval
  exact ⟨s, hlive, hfree, heap_safe (by decide) hs⟩

/-! ## A program that loses memory -/

/-- The largest request, 33 times, with the pointers that `malloc` returns. The units of the 33
blocks are more than `2 ^ 32`. -/
def largeRequest : ℕ := 2 ^ 31 - 32

def largePointer (i : ℕ) : ℕ := 0x3000 + i * (2 ^ 31 - 16) + 16

def losingProgram : List Op :=
  replicate 33 (.malloc largeRequest) ++ (range 33).map fun i => .free (largePointer i)

/-- **Memory is lost.** When all 33 blocks have been freed, the only free block has `2 ^ 32` units
less than were obtained from `sbrk`. -/
theorem heap_loses_memory : ∃ s, (heapSystem 0x2000).Reachable s ∧ s.live = [] ∧
    s.ptr 0x2000 = 0x3000 ∧ s.ptr 0x3000 = 0x2000 ∧
    s.size 0x3000 + 2 ^ 32 = (s.obtained.map units).sum ∧ ¬s.Safe 0x2000 := by
  have heval : (losingProgram.foldlM execOp emptyHeap).any (fun s => decide (s.freep ≠ 0 ∧
      s.live = [] ∧ s.ptr 0x2000 = 0x3000 ∧ s.ptr 0x3000 = 0x2000 ∧
      s.size 0x3000 + 2 ^ 32 = (s.obtained.map units).sum)) = true := by
    decide +kernel
  obtain ⟨s, hs, hfreep, hlive, hbase, hblock, htotal⟩ :=
    TransitionSystem.Reachable.exists_of_foldlM (.init emptyHeap_init) step_of_execOp heval
  refine ⟨s, hs, hlive, hbase, hblock, htotal, ?_⟩
  rintro ⟨⟨F, hF⟩, -⟩
  have hlist : s.IsFreeList 0x2000 F := hF.free.resolve_left fun h => hfreep h.1
  -- the circle has only one block, so `F` consists of it
  have hfree : s.freeBlocks 0x2000 2 = some [⟨0x3000, s.size 0x3000⟩] := by
    simp [freeBlocks, blocksFrom, hbase, hblock]
  obtain rfl := hlist.eq_of_freeBlocks hfree
  have hsum := hF.total
  rw [hlive, map_nil, sum_nil, map_singleton, sum_singleton] at hsum
  change s.size 0x3000 + 0 = _ at hsum
  omega

end Xv6.Umalloc
