import Xv6.User.Umalloc

/-!
# The free list of the allocator

`IsFreeList` says that the free blocks form a circle with `base`, that their addresses increase up
to a single wrap, and that no two of them touch. `free` puts a block into its place and joins it
with the blocks that it touches (`Heap.IsFreeList.free`). `malloc` takes a block that is large
enough, or the end of one (`Heap.IsFreeList.take`), if its loop finds one on its way around the
circle.

Sizes are added modulo `2 ^ 32`; `joinedUnits` is the size of the block that `free` makes if the sum
does not wrap.
-/

namespace Xv6.Umalloc

open LinkedCircle MemBlock Function List Option Nat

/-! ## The free list -/

/-- The free blocks apart from `base`, in the order of their addresses. -/
structure Heap.IsFreeList (base : ℕ) (s : Heap) (F : List MemBlock) : Prop where
  /-- The list is circular. -/
  circle : IsCircle s.ptr base (F.map addr)
  size : ∀ b ∈ F, s.size b.addr = b.units
  base_size : s.size base = 0
  freep : s.freep ∈ base :: F.map addr
  /-- It increases, with a single wrap from the last block to `base`. -/
  increasing : (base :: F.map addr).Pairwise (· < ·)
  /-- Blocks are disjoint and do not touch. -/
  gaps : F.Pairwise fun b c => b.stop HEADER < c.addr
  pos : ∀ b ∈ F, 0 < b.units

/-- The blocks from `x` on, up to `base`. -/
def Heap.blocksFrom (base : ℕ) (s : Heap) : ℕ → ℕ → Option (List MemBlock)
  | 0, _ => none
  | fuel + 1, x => if x = base then some [] else
      (s.blocksFrom base fuel (s.ptr x)).map (⟨x, s.size x⟩ :: ·)

/-- The blocks that a walk around the circle finds. -/
def Heap.freeBlocks (base fuel : ℕ) (s : Heap) : Option (List MemBlock) :=
  s.blocksFrom base fuel (s.ptr base)

/-- The size of the block that results if `b` is joined with the blocks that it touches. -/
def joinedUnits (F : List MemBlock) (b : MemBlock) : ℕ :=
  b.units + ((F.filter fun c => c.stop HEADER = b.addr ∨ b.stop HEADER = c.addr).map units).sum

section Free

variable {base : ℕ} {s : Heap} {F F₁ F₂ : List MemBlock} {b : MemBlock}

/-- A block that is apart from the blocks of a sorted list has a place in it. -/
theorem exists_place (hgaps : F.Pairwise fun b c => b.stop HEADER < c.addr)
    (hapart : ∀ c ∈ F, c.Apart HEADER b) :
    ∃ F₁ F₂, F = F₁ ++ F₂ ∧ (∀ c ∈ F₁, c.stop HEADER ≤ b.addr) ∧
      ∀ c ∈ F₂, b.stop HEADER ≤ c.addr := by
  induction F with
  | nil => exact ⟨[], [], rfl, by simp, by simp⟩
  | cons c F ih =>
    obtain ⟨hc, hgaps⟩ := pairwise_cons.mp hgaps
    rcases hapart c (by simp) with hle | hle
    · obtain ⟨F₁, F₂, rfl, h₁, h₂⟩ := ih hgaps fun d hd => hapart d (mem_cons_of_mem _ hd)
      exact ⟨c :: F₁, F₂, rfl, forall_mem_cons.mpr ⟨hle, h₁⟩, h₂⟩
    · -- the blocks behind `c` are above it
      refine ⟨[], c :: F, rfl, by simp, forall_mem_cons.mpr ⟨hle, fun d hd => ?_⟩⟩
      have hlt := hc d hd
      have hstop : c.addr ≤ c.stop HEADER := le_add_right _ _
      omega

/-- Blocks with gaps between them, above `base`, have increasing addresses. -/
theorem increasing_of_gaps (hgaps : F.Pairwise fun b c => b.stop HEADER < c.addr)
    (hbase : ∀ b ∈ F, base < b.addr) : (base :: F.map addr).Pairwise (· < ·) := by
  refine pairwise_cons.mpr ⟨fun x hx => ?_, ?_⟩
  · obtain ⟨b, hb, rfl⟩ := mem_map.mp hx
    exact hbase b hb
  · refine pairwise_map.mpr (hgaps.imp fun {b c} hlt => ?_)
    exact lt_of_le_of_lt (le_add_right _ _) hlt

lemma joinedUnits_append (F₁ F₂ : List MemBlock) (b : MemBlock) :
    joinedUnits (F₁ ++ F₂) b + b.units = joinedUnits F₁ b + joinedUnits F₂ b := by
  simp only [joinedUnits, filter_append, map_append, List.sum_append]
  omega

lemma add_le_joinedUnits {c : MemBlock} (hc : c ∈ F)
    (htouch : c.stop HEADER = b.addr ∨ b.stop HEADER = c.addr) :
    b.units + c.units ≤ joinedUnits F b := by
  refine Nat.add_le_add_left (single_le_sum (by simp) _ ?_) _
  exact mem_map.mpr ⟨c, mem_filter.mpr ⟨hc, by simpa using htouch⟩, rfl⟩

lemma Heap.eq_of_blocksFrom {x fuel : ℕ} {L : List MemBlock}
    (hpath : Path s.ptr (x :: (F.map addr ++ [base])))
    (hF : ∀ b ∈ F, b.addr ≠ base ∧ s.size b.addr = b.units)
    (hL : s.blocksFrom base fuel (s.ptr x) = some L) : F = L := by
  induction F generalizing x fuel L with
  | nil =>
    cases fuel with
    | zero => cases hL
    | succ fuel =>
      rw [(path_cons_cons.mp hpath).1, blocksFrom, if_pos rfl] at hL
      exact Option.some.inj hL
  | cons b F ih =>
    obtain ⟨hnext, htail⟩ := path_cons_cons.mp hpath
    obtain ⟨hne, hsize⟩ := hF b mem_cons_self
    cases fuel with
    | zero => cases hL
    | succ fuel =>
      rw [hnext, blocksFrom, if_neg hne, hsize] at hL
      obtain ⟨L', hL', rfl⟩ := map_eq_some_iff.mp hL
      rw [← ih htail (fun c hc => hF c (mem_cons_of_mem b hc)) hL']

namespace Heap.IsFreeList

lemma base_lt (h : s.IsFreeList base F) {c : MemBlock} (hc : c ∈ F) : base < c.addr :=
  (pairwise_cons.mp h.increasing).1 _ (mem_map.mpr ⟨c, hc, rfl⟩)

/-- The free list is the one that the walk finds. -/
theorem eq_of_freeBlocks (h : s.IsFreeList base F) {fuel : ℕ} {L : List MemBlock}
    (hL : s.freeBlocks base fuel = some L) : F = L :=
  eq_of_blocksFrom h.circle (fun b hb => ⟨(h.base_lt hb).ne', h.size b hb⟩) hL

/-- The walk around the circle, cut behind the node `p`. -/
theorem path_of_split (h : s.IsFreeList base (F₁ ++ F₂)) {u : List ℕ} {p : ℕ}
    (hp : base :: F₁.map addr = u ++ [p]) :
    Path s.ptr (u ++ [p]) ∧ Path s.ptr (p :: (F₂.map addr ++ [base])) := by
  have hwalk : Path s.ptr ((base :: F₁.map addr) ++ (F₂.map addr ++ [base])) := by
    have hcircle := h.circle
    rw [IsCircle, map_append, append_assoc] at hcircle
    exact hcircle
  rw [hp, append_assoc] at hwalk
  exact path_split.mp hwalk

/-- A block `e` in the place of the blocks between `F₁` and `G`: the other blocks are as before. -/
theorem splice {s' : Heap} {e : MemBlock} {G : List MemBlock} (h : s.IsFreeList base F)
    (hsub : (F₁ ++ G).Sublist F) (hbase : base < e.addr) (hpos : 0 < e.units)
    (hlo : ∀ c ∈ F₁, c.stop HEADER < e.addr) (hhi : ∀ c ∈ G, e.stop HEADER < c.addr)
    (hcircle : IsCircle s'.ptr base ((F₁ ++ e :: G).map addr)) (hsize : s'.size e.addr = e.units)
    (hother : ∀ x ∈ base :: F.map addr, x ≠ e.addr → s'.size x = s.size x)
    (hfreep : s'.freep ∈ base :: (F₁ ++ e :: G).map addr) : s'.IsFreeList base (F₁ ++ e :: G) := by
  have hall : ∀ {P : MemBlock → Prop}, P e → (∀ c ∈ F₁ ++ G, P c) → ∀ c ∈ F₁ ++ e :: G, P c := by
    intro P he hP c hc
    rcases mem_append.mp hc with hc | hc
    · exact hP c (mem_append_left _ hc)
    · rcases mem_cons.mp hc with rfl | hc
      · exact he
      · exact hP c (mem_append_right _ hc)
  have hne : ∀ c ∈ F₁ ++ G, c.addr ≠ e.addr := by
    intro c hc
    have hcstop : c.addr ≤ c.stop HEADER := le_add_right _ _
    have hestop : e.addr ≤ e.stop HEADER := le_add_right _ _
    rcases mem_append.mp hc with hc | hc
    · exact Nat.ne_of_lt (hcstop.trans_lt (hlo c hc))
    · exact ne_of_gt (hestop.trans_lt (hhi c hc))
  have hgaps : (F₁ ++ e :: G).Pairwise fun b c => b.stop HEADER < c.addr := by
    obtain ⟨hgaps₁, hgapsG, hcross⟩ := pairwise_append.mp (h.gaps.sublist hsub)
    exact pairwise_append.mpr ⟨hgaps₁, pairwise_cons.mpr ⟨hhi, hgapsG⟩, fun c hc d hd =>
      (mem_cons.mp hd).elim (fun heq => heq ▸ hlo c hc) fun hd => hcross c hc d hd⟩
  refine ⟨hcircle, hall hsize fun c hc => ?_, ?_, hfreep, increasing_of_gaps hgaps ?_, hgaps,
    hall hpos fun c hc => h.pos c (hsub.subset hc)⟩
  · rw [hother _ (mem_cons_of_mem _ (mem_map.mpr ⟨c, hsub.subset hc, rfl⟩)) (hne c hc)]
    exact h.size c (hsub.subset hc)
  · rw [hother base mem_cons_self (Nat.ne_of_lt hbase), h.base_size]
  · exact hall hbase fun c hc => h.base_lt (hsub.subset hc)

section

variable (h : s.IsFreeList base (F₁ ++ F₂)) (hb : base < b.addr)

include h hb

/-- The nodes up to the place of a block are below it. -/
theorem lt_of_mem_lower (h₁ : ∀ c ∈ F₁, c.stop HEADER ≤ b.addr) {y : ℕ}
    (hy : y ∈ base :: F₁.map addr) : y < b.addr := by
  rcases mem_cons.mp hy with rfl | hy
  · exact hb
  · obtain ⟨c, hc, rfl⟩ := mem_map.mp hy
    have hle := h₁ c hc
    have hlt : 0 < HEADER * c.units := mul_pos (by decide) (h.pos c (mem_append_left _ hc))
    have hcstop : c.stop HEADER = c.addr + HEADER * c.units := rfl
    omega

omit h hb in
/-- The nodes behind the place of a block are above it. -/
theorem lt_of_mem_upper (hn : 0 < b.units) (h₂ : ∀ c ∈ F₂, b.stop HEADER ≤ c.addr) {y : ℕ}
    (hy : y ∈ F₂.map addr) : b.addr < y := by
  obtain ⟨c, hc, rfl⟩ := mem_map.mp hy
  have hle := h₂ c hc
  have hstop : b.stop HEADER = b.addr + 16 * b.units := rfl
  omega

/-- `free` finds the place of a block. -/
theorem search_place {fuel : ℕ} (hn : 0 < b.units) (h₁ : ∀ c ∈ F₁, c.stop HEADER ≤ b.addr)
    (h₂ : ∀ c ∈ F₂, b.stop HEADER ≤ c.addr) {u : List ℕ} {p : ℕ}
    (hp : base :: F₁.map addr = u ++ [p]) (hfuel : (F₁ ++ F₂).length < fuel) :
    search s.ptr (s.IsPlaceOf b.addr) fuel s.freep = some p := by
  have hsplit : base :: (F₁ ++ F₂).map addr = u ++ p :: F₂.map addr := by
    rw [map_append, ← cons_append, hp, append_assoc]
    rfl
  exact h.circle.search_place hsplit h.increasing hb (h.lt_of_mem_lower hb h₁ (by simp [hp]))
    (fun z hz => lt_of_mem_upper hn h₂ hz) h.freep (by simpa using hfuel)

/-- The block `b`, or `b` joined with the block above it, in front of the other blocks above. -/
structure Upper (base : ℕ) (s : Heap) (F₂ : List MemBlock) (b b' : MemBlock) (G : List MemBlock)
    (x : ℕ) : Prop where
  addr : b'.addr = b.addr
  path : Path (update s.ptr b.addr x) (b.addr :: (G.map MemBlock.addr ++ [base]))
  suffix : G <:+ F₂
  cells : cellsOf HEADER (b' :: G) = b.cells HEADER + cellsOf HEADER F₂
  gaps : ∀ c ∈ G, b'.stop HEADER < c.addr
  le_units : b.units ≤ b'.units
  units_le : b'.units ≤ joinedUnits F₂ b

lemma joinUpper (hn : 0 < b.units) (hsize : s.size b.addr = b.units)
    (h₂ : ∀ c ∈ F₂, b.stop HEADER ≤ c.addr) {u : List ℕ} {p : ℕ}
    (hp : base :: F₁.map MemBlock.addr = u ++ [p]) (hfits : joinedUnits F₂ b < 2 ^ 32) :
    ∃ b' G x, s.joinUpper b.addr p = (s.setSize b.addr b'.units).setPtr b.addr x ∧
      Upper base s F₂ b b' G x := by
  obtain ⟨-, hpath⟩ := h.path_of_split hp
  have hstop : b.stop HEADER = b.addr + HEADER * b.units := rfl
  have hnot : ∀ {G : List MemBlock}, G <:+ F₂ → b.addr ∉ G.map MemBlock.addr :=
    fun hG hmem => lt_irrefl _ (lt_of_mem_upper hn h₂ ((hG.sublist.map _).subset hmem))
  -- the block stays as it is if the next one does not touch it
  have hkeep : b.stop HEADER ≠ s.ptr p → (∀ c ∈ F₂, b.stop HEADER < c.addr) →
      ∃ b' G x, s.joinUpper b.addr p = (s.setSize b.addr b'.units).setPtr b.addr x ∧
        Upper base s F₂ b b' G x := by
    intro hne hgaps
    refine ⟨b, F₂, s.ptr p, ?_, rfl, hpath.copyLink (hnot suffix_rfl), suffix_rfl,
      cellsOf_cons, hgaps, le_rfl, le_add_right _ _⟩
    have hself : s.setSize b.addr b.units = s := by
      unfold setSize
      rw [← hsize, update_eq_self]
    unfold Heap.joinUpper
    rw [if_neg (by rw [hsize, ← hstop]; exact hne), hself]
  cases F₂ with
  | nil =>
    have hnext : s.ptr p = base := (path_cons_cons.mp hpath).1
    refine hkeep ?_ (by simp)
    rw [hnext, hstop]
    omega
  | cons c F₂ =>
    have hnext : s.ptr p = c.addr := (path_cons_cons.mp hpath).1
    have hcs : s.size c.addr = c.units := h.size c (by simp)
    by_cases htouch : b.stop HEADER = c.addr
    · have hsum := add_le_joinedUnits (F := c :: F₂) (b := b) (by simp) (.inr htouch)
      have hgaps := (pairwise_append.mp h.gaps).2.1
      refine ⟨⟨b.addr, b.units + c.units⟩, F₂, s.ptr c.addr, ?_, rfl, ?_, suffix_cons _ _, ?_,
        fun d hd => ?_, le_add_right _ _, hsum⟩
      · unfold Heap.joinUpper
        rw [if_pos (by rw [hsize, ← hstop, htouch, hnext]), hnext, hsize, hcs,
          mod_eq_of_lt (by omega)]
      · have htail : Path s.ptr (c.addr :: (F₂.map MemBlock.addr ++ [base])) :=
          (path_cons_cons.mp hpath).2
        exact htail.copyLink (hnot (suffix_cons _ _))
      · rw [cellsOf_cons, cells_add, ← hstop, htouch, cellsOf_cons, Multiset.add_assoc]
      · have hlt := (pairwise_cons.mp hgaps).1 d hd
        have hcstop : c.stop HEADER = c.addr + HEADER * c.units := rfl
        simp only [stop, mul_add]
        omega
    · refine hkeep (by rw [hnext]; exact htouch) fun d hd => ?_
      have hle := h₂ c (by simp)
      have hgaps := (pairwise_append.mp h.gaps).2.1
      rcases mem_cons.mp hd with rfl | hd
      · omega
      · have hlt := (pairwise_cons.mp hgaps).1 d hd
        have hcstop : c.addr ≤ c.stop HEADER := le_add_right _ _
        omega

/-- Either the node `p` in front of the place of `b` does not touch it, and neither does any other
block, or `p` is the last block below `b` and ends there. -/
theorem lower_cases (h₁ : ∀ c ∈ F₁, c.stop HEADER ≤ b.addr) {u : List ℕ} {p : ℕ}
    (hp : base :: F₁.map MemBlock.addr = u ++ [p]) :
    (p + HEADER * s.size p ≠ b.addr ∧ ∀ c ∈ F₁, c.stop HEADER < b.addr) ∨
      ∃ F₀ d, F₁ = F₀ ++ [d] ∧ base :: F₀.map MemBlock.addr = u ∧ d.addr = p ∧
        d.stop HEADER = b.addr := by
  rcases eq_nil_or_concat' F₁ with rfl | ⟨F₀, d, rfl⟩
  · -- `p` is `base`
    have hlast : [] ++ [base] = u ++ [p] := hp
    obtain ⟨-, hbase⟩ := append_inj' hlast rfl
    obtain rfl := singleton_inj.mp hbase
    refine .inl ⟨?_, by simp⟩
    rw [h.base_size]
    omega
  · -- `p` is the block `d`
    have hlast : (base :: F₀.map MemBlock.addr) ++ [d.addr] = u ++ [p] := by simpa using hp
    obtain ⟨hu, hd⟩ := append_inj' hlast rfl
    obtain rfl := singleton_inj.mp hd
    have hle := h₁ d (by simp)
    by_cases htouch : d.stop HEADER = b.addr
    · exact .inr ⟨F₀, d, rfl, hu, rfl, htouch⟩
    · refine .inl ⟨by rw [h.size d (by simp)]; exact htouch, fun c hc => ?_⟩
      obtain ⟨-, -, hgaps⟩ := pairwise_append.mp (pairwise_append.mp h.gaps).1
      have hdstop : d.addr ≤ d.stop HEADER := le_add_right _ _
      rcases mem_append.mp hc with hc | hc
      · have hlt := hgaps c hc d (by simp)
        omega
      · obtain rfl := mem_singleton.mp hc
        omega

/-- The last part of `free`, where `s` is the state before the call. The block goes behind `p`, or
is joined with the block there. -/
theorem joinLower (hn : 0 < b.units) (h₁ : ∀ c ∈ F₁, c.stop HEADER ≤ b.addr)
    (h₂ : ∀ c ∈ F₂, b.stop HEADER ≤ c.addr) {u : List ℕ} {p x : ℕ}
    (hp : base :: F₁.map MemBlock.addr = u ++ [p]) (hfits : joinedUnits (F₁ ++ F₂) b < 2 ^ 32)
    {b' : MemBlock} {G : List MemBlock} (hu : Upper base s F₂ b b' G x) :
    ∃ F', ({ ((s.setSize b.addr b'.units).setPtr b.addr x).joinLower b.addr p with
        freep := p } : Heap).IsFreeList base F' ∧
      cellsOf HEADER F' = cellsOf HEADER (F₁ ++ F₂) + b.cells HEADER ∧
      ∃ c ∈ F', b.units ≤ c.units := by
  obtain ⟨hpath, -⟩ := h.path_of_split hp
  have hstop : b.stop HEADER = b.addr + HEADER * b.units := rfl
  have hsub : (F₁ ++ G).Sublist (F₁ ++ F₂) := (List.Sublist.refl F₁).append hu.suffix.sublist
  -- the nodes up to `p` are below the block, those of `F₂` above it
  have hbelow : ∀ y ∈ u ++ [p], y < b.addr := by
    rw [← hp]
    exact fun y hy => h.lt_of_mem_lower hb h₁ hy
  have habove : ∀ y ∈ F₂.map MemBlock.addr, b.addr < y := fun y hy => lt_of_mem_upper hn h₂ hy
  have hne : ∀ y ∈ base :: (F₁ ++ F₂).map MemBlock.addr, y ≠ b.addr := by
    intro y hy
    rw [map_append, ← cons_append, hp] at hy
    exact (mem_append.mp hy).elim (fun hy => Nat.ne_of_lt (hbelow y hy))
      fun hy => ne_of_gt (habove y hy)
  have hpb : p < b.addr := hbelow p (by simp)
  have hbu : b.addr ∉ u := fun hmem => lt_irrefl _ (hbelow b.addr (by simp [hmem]))
  have hpG : p ∉ G.map MemBlock.addr := fun hmem =>
    lt_asymm hpb (habove p ((hu.suffix.sublist.map _).subset hmem))
  have hpu : p ∉ u := by
    have hnodup := h.increasing
    rw [map_append, ← cons_append, hp] at hnodup
    exact fun hmem => lt_irrefl p
      ((pairwise_append.mp (pairwise_append.mp hnodup).1).2.2 p hmem p (by simp))
  have hpath' : Path (update s.ptr b.addr x) (u ++ [p]) := hpath.update hbu x
  have hs1 : ((s.setSize b.addr b'.units).setPtr b.addr x).size p = s.size p :=
    update_of_ne (Nat.ne_of_lt hpb) ..
  rcases h.lower_cases hb h₁ hp with ⟨hnot, hlt⟩ | ⟨F₀, d, rfl, rfl, rfl, htouch⟩
  · -- the block goes behind `p`
    have hjoin : ((s.setSize b.addr b'.units).setPtr b.addr x).joinLower b.addr p =
        ((s.setSize b.addr b'.units).setPtr b.addr x).setPtr p b.addr :=
      if_neg (by rw [hs1]; exact hnot)
    rw [hjoin]
    refine ⟨F₁ ++ b' :: G, h.splice hsub (by rw [hu.addr]; exact hb) (hn.trans_le hu.le_units)
      (by rw [hu.addr]; exact hlt) hu.gaps ?_ ?_ (fun y hy _ => ?_) ?_, ?_, b', by simp,
        hu.le_units⟩
    · have hlink := hu.path.link (p := p) (by simp [Nat.ne_of_lt hpb, hpG])
      have hwalk := path_split.mpr ⟨hpath'.update hpu b.addr, hlink⟩
      rw [IsCircle, map_append, map_cons, hu.addr, append_assoc, ← cons_append, hp, append_assoc]
      exact hwalk
    · rw [hu.addr]
      exact update_self ..
    · exact update_of_ne (hne y hy) ..
    · rw [map_append, ← cons_append, hp]
      simp
    · rw [cellsOf_append, hu.cells, cellsOf_append]
      ac_rfl
  · -- the block `d` grows
    have hds : s.size d.addr = d.units := h.size d (by simp)
    have hdstop : d.stop HEADER = d.addr + HEADER * d.units := rfl
    have hsum : d.units + b'.units < 2 ^ 32 := by
      have hd := add_le_joinedUnits (F := F₀ ++ [d]) (b := b) (by simp) (.inl htouch)
      have hle := hu.units_le
      have happend := joinedUnits_append (F₀ ++ [d]) F₂ b
      omega
    have hjoin : ((s.setSize b.addr b'.units).setPtr b.addr x).joinLower b.addr d.addr =
        (((s.setSize b.addr b'.units).setPtr b.addr x).setSize d.addr
          (d.units + b'.units)).setPtr d.addr x := by
      unfold joinLower
      rw [if_pos (by rw [hs1, hds, ← hdstop, htouch]), hs1, hds]
      simp only [setPtr, setSize, update_self]
      rw [mod_eq_of_lt hsum]
    have hstop' : (⟨d.addr, d.units + b'.units⟩ : MemBlock).stop HEADER = b'.stop HEADER := by
      simp only [stop, mul_add, hu.addr]
      omega
    have hgaps₀ := (pairwise_append.mp (pairwise_append.mp h.gaps).1).2.2
    rw [hjoin]
    refine ⟨F₀ ++ ⟨d.addr, d.units + b'.units⟩ :: G, h.splice ?_ (h.base_lt (c := d) (by simp))
      (Nat.add_pos_right _ (hn.trans_le hu.le_units)) (fun c hc => hgaps₀ c hc d (by simp))
      (by rw [hstop']; exact hu.gaps) ?_ (update_self ..) (fun y hy hyd => ?_) (by simp), ?_,
      ⟨d.addr, _⟩, mem_append_right _ mem_cons_self, le_add_left_of_le hu.le_units⟩
    · exact ((sublist_append_left F₀ [d]).append (List.Sublist.refl G)).trans hsub
    · have hcopy := hu.path.copyLink hpG
      rw [update_self] at hcopy
      have hwalk := path_split.mpr ⟨hpath'.update hpu x, hcopy⟩
      rw [IsCircle, map_append, map_cons, append_assoc, ← cons_append]
      exact hwalk
    · exact (update_of_ne hyd ..).trans (update_of_ne (hne y hy) ..)
    · have hcells := hu.cells
      have hb' : (⟨b.addr, b'.units⟩ : MemBlock) = b' := by rw [← hu.addr]
      rw [cellsOf_cons] at hcells
      rw [cellsOf_append, cellsOf_cons, cells_add, ← hdstop, htouch, hb', Multiset.add_assoc,
        hcells, cellsOf_append, cellsOf_append, cellsOf_cons, cellsOf_nil, Multiset.add_zero]
      ac_rfl

end

end Heap.IsFreeList

/-- The sizes in the headers outside `xs`, and what the program has, are unchanged. -/
structure Heap.SameOutside (xs : List ℕ) (s s' : Heap) : Prop where
  size : ∀ x ∉ xs, s'.size x = s.size x
  live : s'.live = s.live
  obtained : s'.obtained = s.obtained
  brk : s'.brk = s.brk

lemma Heap.joinUpper_sameOutside (bp p : ℕ) : s.SameOutside [bp] (s.joinUpper bp p) := by
  unfold Heap.joinUpper
  split_ifs
  · exact ⟨fun x hx => update_of_ne (by simpa using hx) .., rfl, rfl, rfl⟩
  · exact ⟨fun x _ => rfl, rfl, rfl, rfl⟩

lemma Heap.joinLower_sameOutside (bp p : ℕ) : s.SameOutside [p] (s.joinLower bp p) := by
  unfold joinLower
  split_ifs
  · exact ⟨fun x hx => update_of_ne (by simpa using hx) .., rfl, rfl, rfl⟩
  · exact ⟨fun x _ => rfl, rfl, rfl, rfl⟩

/-- **`free`** puts a block into the free list, joined with the blocks that it touches. -/
theorem Heap.IsFreeList.free (h : s.IsFreeList base F) (hb : base < b.addr) (hn : 0 < b.units)
    (hsize : s.size b.addr = b.units) (hapart : ∀ c ∈ F, c.Apart HEADER b)
    (hfits : joinedUnits F b < 2 ^ 32) :
    ∃ s' F', (∀ fuel > F.length, s.free fuel (b.addr + HEADER) = some s') ∧
      s'.IsFreeList base F' ∧ cellsOf HEADER F' = cellsOf HEADER F + b.cells HEADER ∧
      (∃ c ∈ F', b.units ≤ c.units) ∧ s.SameOutside (b.addr :: base :: F.map addr) s' := by
  obtain ⟨F₁, F₂, rfl, h₁, h₂⟩ := exists_place h.gaps hapart
  obtain ⟨u, p, hp⟩ : ∃ u p, base :: F₁.map addr = u ++ [p] :=
    ⟨_, _, (dropLast_append_getLast (cons_ne_nil _ _)).symm⟩
  have hfits₂ : joinedUnits F₂ b < 2 ^ 32 := by
    have happend := joinedUnits_append F₁ F₂ b
    have hle : b.units ≤ joinedUnits F₁ b := le_add_right _ _
    omega
  obtain ⟨b', G, x, hjoin, hu⟩ := h.joinUpper hb hn hsize h₂ hp hfits₂
  obtain ⟨F', hF', hcells, hbig⟩ := h.joinLower hb hn h₁ h₂ hp hfits hu
  rw [← hjoin] at hF'
  refine ⟨_, F', fun fuel hfuel => ?_, hF', hcells, hbig, ?_⟩
  · have hsearch := h.search_place hb hn h₁ h₂ hp hfuel
    unfold free
    rw [Nat.add_sub_cancel]
    exact bind_eq_some_iff.mpr ⟨p, hsearch, rfl⟩
  · -- only the headers of the block and of the one below it are written
    have hmem : p ∈ base :: (F₁ ++ F₂).map addr := by
      rw [map_append, ← cons_append, hp]
      simp
    have hup := joinUpper_sameOutside (s := s) b.addr p
    have hlo := joinLower_sameOutside (s := s.joinUpper b.addr p) b.addr p
    refine ⟨fun y hy => ?_, hlo.live.trans hup.live, hlo.obtained.trans hup.obtained,
      hlo.brk.trans hup.brk⟩
    have hyp : y ≠ p := fun heq => hy (mem_cons_of_mem _ (heq ▸ hmem))
    have hyb : y ≠ b.addr := fun heq => hy (heq ▸ mem_cons_self)
    exact (hlo.size y (by simpa using hyp)).trans (hup.size y (by simpa using hyb))

end Free

/-! ## `malloc` -/

section Malloc

variable {base n : ℕ} {s : Heap} {F : List MemBlock} {c : MemBlock}

lemma Heap.IsFreeList.nodup (h : s.IsFreeList base F) : (base :: F.map addr).Nodup :=
  h.increasing.imp Nat.ne_of_lt

/-- **`malloc`** takes a block that is large enough, or its end. -/
theorem Heap.IsFreeList.take {prevp : ℕ} (h : s.IsFreeList base F) (hc : c ∈ F)
    (hprev : prevp ∈ base :: F.map addr) (hnext : s.ptr prevp = c.addr) (hn : 0 < n)
    (hle : n ≤ c.units) :
    ∃ (blk : MemBlock) (s' : Heap) (F' : List MemBlock),
      s.take n prevp c.addr = (blk.addr + HEADER, s') ∧ s'.IsFreeList base F' ∧ blk.units = n ∧
      s'.size blk.addr = n ∧ cellsOf HEADER F' + blk.cells HEADER = cellsOf HEADER F ∧
      s.SameOutside (blk.addr :: base :: F.map addr) s' := by
  have hcs : s.size c.addr = c.units := h.size c hc
  obtain ⟨F₁, F₂, rfl⟩ := append_of_mem hc
  unfold take
  by_cases heq : s.size c.addr = n
  · -- the whole block
    obtain ⟨u, q, hq⟩ : ∃ u q, base :: F₁.map addr = u ++ [q] :=
      ⟨_, _, (dropLast_append_getLast (cons_ne_nil _ _)).symm⟩
    obtain ⟨hpath, hpath'⟩ := h.path_of_split hq
    obtain ⟨hnext', htail⟩ := path_cons_cons.mp hpath'
    have hnodup := h.nodup
    rw [map_append, ← cons_append, hq] at hnodup
    have hqmem : q ∈ base :: (F₁ ++ c :: F₂).map addr := by
      rw [map_append, ← cons_append, hq]
      simp
    obtain rfl : prevp = q := h.circle.next_inj h.nodup hprev hqmem (hnext.trans hnext'.symm)
    rw [if_pos heq]
    have hsub : (F₁ ++ F₂).Sublist (F₁ ++ c :: F₂) :=
      (List.Sublist.refl F₁).append (sublist_cons_self c F₂)
    have hgaps := h.gaps.sublist hsub
    refine ⟨c, _, F₁ ++ F₂, rfl, ⟨?_, fun d hd => h.size d (hsub.subset hd), h.base_size, ?_,
      increasing_of_gaps hgaps fun d hd => h.base_lt (hsub.subset hd), hgaps,
      fun d hd => h.pos d (hsub.subset hd)⟩, hcs.symm.trans heq, heq, ?_, fun _ _ => rfl, rfl, rfl,
      rfl⟩
    · have hqu : prevp ∉ u := by
        obtain ⟨hnodup, -, -⟩ := nodup_append.mp hnodup
        exact fun hmem => (nodup_append.mp hnodup).2.2 prevp hmem prevp (by simp) rfl
      have hqF : prevp ∉ F₂.map addr := fun hmem =>
        (nodup_append.mp hnodup).2.2 prevp (by simp) prevp (by simp [hmem]) rfl
      have hwalk := path_split.mpr ⟨hpath.update hqu _, htail.copyLink hqF⟩
      rw [IsCircle, map_append, append_assoc, ← cons_append, hq, append_assoc]
      exact hwalk
    · rw [map_append, ← cons_append, hq]
      simp
    · rw [cellsOf_append, cellsOf_append, cellsOf_cons]
      ac_rfl
  · -- its last `n` units
    have hlt : n < c.units := by omega
    obtain ⟨k, hk, hkpos⟩ : ∃ k, c.units = k + n ∧ 0 < k := ⟨c.units - n, by omega, by omega⟩
    have hcut : c.units - n = k := by omega
    have hcstop : c.stop HEADER = c.addr + HEADER * k + HEADER * n := by
      rw [stop, hk, mul_add, Nat.add_assoc]
    have hkmul : 0 < HEADER * k := mul_pos (by decide) hkpos
    have hnmul : 0 < HEADER * n := mul_pos (by decide) hn
    obtain ⟨-, hgaps₂, hcross⟩ := pairwise_append.mp h.gaps
    have hmap : (F₁ ++ ⟨c.addr, k⟩ :: F₂).map addr = (F₁ ++ c :: F₂).map addr := by simp
    -- the new block begins inside `c`
    have hinside : ∀ d ∈ F₁ ++ c :: F₂, d.addr ≠ c.addr + HEADER * k := by
      intro d hd heq
      rcases mem_append.mp hd with hd | hd
      · have hlt := hcross d hd c (by simp)
        have hdstop : d.addr ≤ d.stop HEADER := le_add_right _ _
        omega
      · rcases mem_cons.mp hd with rfl | hd
        · omega
        · have hlt := (pairwise_cons.mp hgaps₂).1 d hd
          omega
    have hbase : base ≠ c.addr + HEADER * k := by
      have hlt := h.base_lt hc
      omega
    rw [if_neg heq, hcs, hcut]
    refine ⟨⟨c.addr + HEADER * k, n⟩,
      { (s.setSize c.addr k).setSize (c.addr + HEADER * k) n with freep := prevp },
      F₁ ++ ⟨c.addr, k⟩ :: F₂, ?_, h.splice ?_ (h.base_lt (c := c) hc) hkpos (fun d hd => ?_)
        (fun d hd => ?_) ?_ ?_ (fun x hx hxc => ?_) ?_, rfl, update_self .., ?_,
        fun x hx => ?_, rfl, rfl, rfl⟩
    · simp only [setSize, update_self]
    · exact (List.Sublist.refl F₁).append (sublist_cons_self c F₂)
    · exact hcross d hd c (by simp)
    · have hlt := (pairwise_cons.mp hgaps₂).1 d hd
      have hkstop : (⟨c.addr, k⟩ : MemBlock).stop HEADER = c.addr + HEADER * k := rfl
      omega
    · rw [hmap]
      exact h.circle
    · exact (update_of_ne (by dsimp only; omega) ..).trans (update_self ..)
    · refine (update_of_ne ?_ ..).trans (update_of_ne hxc ..)
      rcases mem_cons.mp hx with rfl | hx
      · exact hbase
      · obtain ⟨d, hd, rfl⟩ := mem_map.mp hx
        exact hinside d hd
    · rw [hmap]
      exact hprev
    · have hcells : c.cells HEADER =
          (⟨c.addr, k⟩ : MemBlock).cells HEADER +
            (⟨c.addr + HEADER * k, n⟩ : MemBlock).cells HEADER := by
        rw [← cells_add, ← hk]
      rw [cellsOf_append, cellsOf_append, cellsOf_cons, cellsOf_cons, hcells]
      ac_rfl
    · simp only [setSize]
      rw [update_of_ne (fun heq => hx (by simp [heq])),
        update_of_ne (fun heq => hx (by simp [heq]))]

/-- The loop of `malloc` passes over blocks that are too small. -/
theorem Heap.mallocLoop_walk (sbrk : Sbrk) {y : ℕ} (r : List ℕ) : ∀ {x : ℕ},
    Path s.ptr (x :: (r ++ [y])) → (∀ z ∈ r, s.size z < n ∧ z ≠ s.freep) →
    ∃ prevp ∈ x :: r, s.ptr prevp = y ∧ ∀ fuel,
      s.mallocLoop sbrk n (fuel + r.length) x (s.ptr x) = s.mallocLoop sbrk n fuel prevp y := by
  induction r with
  | nil =>
    intro x hpath _
    obtain ⟨hnext, -⟩ := path_cons_cons.mp hpath
    exact ⟨x, by simp, hnext, fun fuel => by rw [hnext]; rfl⟩
  | cons z r ih =>
    intro x hpath hsmall
    obtain ⟨hnext, htail⟩ := path_cons_cons.mp hpath
    obtain ⟨hz, hzf⟩ := hsmall z (by simp)
    obtain ⟨prevp, hmem, hprev, hloop⟩ := ih htail fun w hw => hsmall w (mem_cons_of_mem _ hw)
    refine ⟨prevp, mem_cons_of_mem _ hmem, hprev, fun fuel => ?_⟩
    rw [length_cons, ← Nat.add_assoc, mallocLoop, hnext, if_neg (Nat.not_le_of_lt hz),
      if_neg hzf, hloop]

namespace Heap.IsFreeList

/-- A node of the circle is `base`, which is too small for any request, or a free block. -/
theorem exists_of_node {y : ℕ} (h : s.IsFreeList base F) (hy : y ∈ base :: F.map addr) (hn : 0 < n)
    (hle : n ≤ s.size y) : ∃ c ∈ F, y = c.addr ∧ n ≤ c.units := by
  rcases mem_cons.mp hy with rfl | hy
  · rw [h.base_size] at hle
    omega
  · obtain ⟨c, hc, rfl⟩ := mem_map.mp hy
    rw [h.size c hc] at hle
    exact ⟨c, hc, rfl, hle⟩

/-- The walk around the circle that starts behind `freep` and ends there. -/
theorem walk (h : s.IsFreeList base F) : ∃ l, Path s.ptr (s.freep :: (l ++ [s.freep])) ∧
    s.freep ∉ l ∧ l.length = F.length ∧ ∀ y, y ∈ l ++ [s.freep] ↔ y ∈ base :: F.map addr := by
  obtain ⟨l, hcircle, hperm⟩ := h.circle.rotate h.freep
  refine ⟨l, hcircle, ?_, by simpa using hperm.length_eq, fun y => ?_⟩
  · exact (nodup_cons.mp (hperm.nodup_iff.mpr h.nodup)).1
  · rw [← hperm.mem_iff, mem_append, mem_singleton, mem_cons, or_comm]

/-- If there is a block that is large enough, the loop of `malloc` takes such a block. -/
theorem mallocLoop_of_exists (sbrk : Sbrk) (h : s.IsFreeList base F) (hn : 0 < n)
    (hbig : ∃ c ∈ F, n ≤ c.units) :
    ∃ prevp ∈ base :: F.map addr, ∃ c ∈ F, n ≤ c.units ∧ s.ptr prevp = c.addr ∧ ∀ fuel > F.length,
      s.mallocLoop sbrk n fuel s.freep (s.ptr s.freep) = some (s.take n prevp c.addr) := by
  obtain ⟨l, hpath, hfreep, hlen, hmem⟩ := h.walk
  -- the first node on the walk that is large enough
  have hfind : ((l ++ [s.freep]).find? fun y => n ≤ s.size y).isSome := by
    obtain ⟨c, hc, hle⟩ := hbig
    rw [List.find?_isSome]
    refine ⟨c.addr, (hmem _).mpr (mem_cons_of_mem _ (mem_map.mpr ⟨c, hc, rfl⟩)), ?_⟩
    simpa [h.size c hc] using hle
  obtain ⟨y, hy⟩ := isSome_iff_exists.mp hfind
  obtain ⟨hle, r, t, hw, hsmall⟩ := List.find?_eq_some_iff_append.mp hy
  have hrl : ∀ z ∈ r, z ∈ l := by
    have hdrop := congrArg List.dropLast hw
    rw [dropLast_concat, dropLast_append_of_ne_nil (cons_ne_nil _ _)] at hdrop
    intro z hz
    rw [hdrop]
    exact mem_append_left _ hz
  have hprefix : Path s.ptr (s.freep :: (r ++ [y])) := by
    rw [hw] at hpath
    exact (isChain_cons_split.mp hpath).1
  have hlenr : r.length ≤ l.length := by
    have hlength := congrArg List.length hw
    simp only [length_append, length_cons, length_nil] at hlength
    omega
  obtain ⟨prevp, hprev, hnext, hloop⟩ := mallocLoop_walk sbrk r hprefix
    fun z hz => ⟨by simpa using hsmall z hz, fun heq => hfreep (heq ▸ hrl z hz)⟩
  have hle' : n ≤ s.size y := by simpa using hle
  have hynode : y ∈ base :: F.map addr := (hmem y).mp (by rw [hw]; simp)
  obtain ⟨c, hc, rfl, hcn⟩ := h.exists_of_node hynode hn hle'
  refine ⟨prevp, ?_, c, hc, hcn, hnext, fun fuel hfuel => ?_⟩
  · rw [← hmem]
    rcases mem_cons.mp hprev with rfl | hprev
    · simp
    · exact mem_append_left _ (hrl _ hprev)
  · obtain ⟨k, rfl⟩ : ∃ k, fuel = k + 1 + r.length := ⟨fuel - (r.length + 1), by omega⟩
    rw [hloop, mallocLoop, if_pos hle']

/-- If all blocks are too small, the loop of `malloc` calls `morecore`. -/
theorem mallocLoop_of_forall {sbrk : Sbrk} {fuel : ℕ} (h : s.IsFreeList base F) (hn : 0 < n)
    (hsmall : ∀ c ∈ F, c.units < n) :
    s.mallocLoop sbrk n (fuel + 1 + F.length) s.freep (s.ptr s.freep) =
      match s.morecore fuel sbrk n with
      | none => none
      | some (p, s) => if p = 0 then some (0, s) else s.mallocLoop sbrk n fuel p (s.ptr p) := by
  obtain ⟨l, hpath, hfreep, hlen, hmem⟩ := h.walk
  have hsize : ∀ y ∈ l ++ [s.freep], s.size y < n := by
    intro y hy
    by_contra hle
    obtain ⟨c, hc, -, hcn⟩ := h.exists_of_node ((hmem y).mp hy) hn (Nat.le_of_not_lt hle)
    exact absurd (hsmall c hc) (Nat.not_lt_of_le hcn)
  obtain ⟨prevp, -, -, hloop⟩ := mallocLoop_walk sbrk l hpath
    fun z hz => ⟨hsize z (by simp [hz]), fun heq => hfreep (heq ▸ hz)⟩
  rw [← hlen, hloop, mallocLoop, if_neg (Nat.not_le_of_lt (hsize s.freep (by simp)))]
  exact if_pos rfl

end Heap.IsFreeList

/-! ## More fuel -/

lemma Heap.free_mono {fuel fuel' ap : ℕ} {s' : Heap} (h : s.free fuel ap = some s')
    (hle : fuel ≤ fuel') : s.free fuel' ap = some s' := by
  obtain ⟨p, hsearch, hs⟩ := bind_eq_some_iff.mp h
  exact bind_eq_some_iff.mpr ⟨p, search_mono hsearch hle, hs⟩

lemma Heap.morecore_mono {fuel fuel' : ℕ} {sbrk : Sbrk} {r : ℕ × Heap}
    (h : s.morecore fuel sbrk n = some r) (hle : fuel ≤ fuel') :
    s.morecore fuel' sbrk n = some r := by
  unfold morecore at h ⊢
  cases hsbrk : sbrk s.brk (coreUnits n * HEADER) with
  | none =>
    rw [hsbrk] at h
    exact h
  | some p =>
    rw [hsbrk] at h
    obtain ⟨s', hs', hr⟩ := map_eq_some_iff.mp h
    exact map_eq_some_iff.mpr ⟨s', free_mono hs' hle, hr⟩

lemma Heap.mallocLoop_mono {sbrk : Sbrk} {r : ℕ × Heap} (fuel : ℕ) :
    ∀ {fuel' prevp p : ℕ} {s : Heap}, s.mallocLoop sbrk n fuel prevp p = some r → fuel ≤ fuel' →
      s.mallocLoop sbrk n fuel' prevp p = some r := by
  induction fuel with
  | zero =>
    intro fuel' prevp p s h
    cases h
  | succ fuel ih =>
    intro fuel' prevp p s h hle
    obtain ⟨k, rfl⟩ := Nat.exists_eq_add_of_le hle
    rw [add_right_comm, mallocLoop]
    rw [mallocLoop] at h
    split_ifs at h ⊢ with hsize hfreep
    · exact h
    · cases hcore : s.morecore fuel sbrk n with
      | none =>
        rw [hcore] at h
        cases h
      | some r =>
        rw [hcore] at h
        rw [morecore_mono hcore (le_add_right fuel k)]
        dsimp only at h ⊢
        split_ifs at h ⊢ with hzero
        · exact h
        · exact ih h (le_add_right _ _)
    · exact ih h (le_add_right _ _)

end Malloc

end Xv6.Umalloc
