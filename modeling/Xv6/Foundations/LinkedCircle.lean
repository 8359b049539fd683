import Mathlib

/-!
# Circles of pointers

Nodes linked by a function `next`. `Path next l` says that the nodes of `l` follow each other, and
`IsCircle next a l` that the walk from `a` visits `l` and is then back at `a`.

A loop that walks along the links from any node of a circle finds the one node that meets its test
(`IsCircle.search`). In a circle whose addresses increase up to a single wrap,
`IsCircle.search_place` says that one test finds the place of an address. Writing the link of one
node replaces the nodes behind it (`Path.copyLink`, `Path.link`).
-/

namespace LinkedCircle

open Function List

section Paths

variable {α : Type*} {next : α → α} {a b p x y : α} {l u v : List α}

/-- The nodes of the list are linked to each other in its order. -/
def Path (next : α → α) (l : List α) : Prop := l.IsChain fun x y => next x = y

/-- The walk from `a` along the links visits `l` and is then back at `a`. -/
def IsCircle (next : α → α) (a : α) (l : List α) : Prop := Path next (a :: (l ++ [a]))

/-- `for (p = x; !stop(p); p = p->next);` -/
def search (next : α → α) (stop : α → Prop) [DecidablePred stop] : ℕ → α → Option α
  | 0, _ => none
  | fuel + 1, x => if stop x then some x else search next stop fuel (next x)

/-! ## Paths -/

lemma path_cons_cons : Path next (x :: y :: l) ↔ next x = y ∧ Path next (y :: l) :=
  isChain_cons_cons

lemma path_singleton (x : α) : Path next [x] := isChain_singleton x

/-- A path can be cut at a node. -/
theorem path_split : Path next (u ++ x :: v) ↔ Path next (u ++ [x]) ∧ Path next (x :: v) :=
  isChain_split

/-- A path depends on the links of its nodes only. -/
theorem Path.congr {next' : α → α} (h : Path next l) (heq : ∀ x ∈ l, next' x = next x) :
    Path next' l :=
  List.IsChain.imp_of_mem_imp (fun x _ hx _ hnext => (heq x hx).trans hnext) h

/-- The node behind another one. -/
theorem Path.next_eq (h : Path next (u ++ x :: y :: v)) : next x = y :=
  (path_cons_cons.mp (path_split.mp h).2).1

/-- A loop finds the node on a path that meets the test. -/
theorem Path.search {stop : α → Prop} [DecidablePred stop] {fuel : ℕ} (h : Path next (x :: l))
    (hy : y ∈ x :: l) (hstop : ∀ z ∈ x :: l, stop z ↔ z = y) (hfuel : l.length < fuel) :
    search next stop fuel x = some y := by
  induction l generalizing x fuel with
  | nil =>
    obtain rfl := mem_singleton.mp hy
    obtain ⟨fuel, rfl⟩ := Nat.exists_eq_add_one_of_ne_zero (Nat.ne_zero_of_lt hfuel)
    exact if_pos ((hstop y (by simp)).mpr rfl)
  | cons z l ih =>
    obtain ⟨fuel, rfl⟩ := Nat.exists_eq_add_one_of_ne_zero (Nat.ne_zero_of_lt hfuel)
    obtain ⟨hz, hpath⟩ := path_cons_cons.mp h
    rw [LinkedCircle.search]
    split_ifs with hx
    · rw [(hstop x (by simp)).mp hx]
    · -- the node is further on
      have hne : y ≠ x := fun heq => hx ((hstop x (by simp)).mpr heq.symm)
      rw [hz]
      exact ih hpath (mem_of_ne_of_mem hne hy)
        (fun w hw => hstop w (mem_cons_of_mem _ hw)) (by simpa using hfuel)

/-- More fuel does not change what a loop finds. -/
theorem search_mono {stop : α → Prop} [DecidablePred stop] {fuel fuel' : ℕ}
    (h : search next stop fuel x = some y) (hle : fuel ≤ fuel') :
    search next stop fuel' x = some y := by
  induction fuel generalizing x fuel' with
  | zero => cases h
  | succ fuel ih =>
    obtain ⟨k, rfl⟩ := Nat.exists_eq_add_of_le hle
    rw [Nat.add_right_comm]
    rw [LinkedCircle.search] at h ⊢
    split_ifs at h ⊢ with hx
    · exact h
    · exact ih h (Nat.le_add_right _ _)

/-- The nodes behind the nodes of a path. -/
theorem Path.map_next (h : Path next (x :: (l ++ [y]))) : (x :: l).map next = l ++ [y] := by
  induction l generalizing x with
  | nil =>
    obtain ⟨hnext, -⟩ := path_cons_cons.mp h
    simp [hnext]
  | cons z l ih =>
    obtain ⟨hnext, htail⟩ := path_cons_cons.mp h
    rw [map_cons, hnext, ih htail]
    rfl

/-! ## Writing a link -/

section Update

variable [DecidableEq α]

/-- Writing a link that the path does not use. -/
theorem Path.update (h : Path next (l ++ [x])) (hb : b ∉ l) (c : α) :
    Path (update next b c) (l ++ [x]) := by
  induction l with
  | nil => exact path_singleton x
  | cons y l ih =>
    have hy : y ≠ b := fun heq => hb (heq ▸ mem_cons_self)
    have hl : b ∉ l := fun hmem => hb (mem_cons_of_mem _ hmem)
    cases l with
    | nil =>
      obtain ⟨hnext, -⟩ := path_cons_cons.mp h
      exact path_cons_cons.mpr ⟨by rw [update_of_ne hy, hnext], path_singleton x⟩
    | cons z l =>
      obtain ⟨hnext, htail⟩ := path_cons_cons.mp h
      exact path_cons_cons.mpr ⟨by rw [update_of_ne hy, hnext], ih htail hl⟩

/-- If `p` is given the link of `b`, the nodes behind `b` are behind `p`. -/
theorem Path.copyLink (h : Path next (b :: (l ++ [x]))) (hp : p ∉ l) :
    Path (Function.update next p (next b)) (p :: (l ++ [x])) := by
  cases l with
  | nil =>
    obtain ⟨hnext, -⟩ := path_cons_cons.mp h
    exact path_cons_cons.mpr ⟨by rw [update_self, hnext], path_singleton x⟩
  | cons y l =>
    obtain ⟨hnext, htail⟩ := path_cons_cons.mp h
    refine path_cons_cons.mpr ⟨by rw [update_self, hnext], ?_⟩
    exact Path.update (l := y :: l) htail hp _

/-- If `p` is linked to `b`, the path from `b` on is behind `p`. -/
theorem Path.link (h : Path next (b :: (l ++ [x]))) (hp : p ∉ b :: l) :
    Path (Function.update next p b) (p :: b :: (l ++ [x])) :=
  path_cons_cons.mpr ⟨update_self .., Path.update (l := b :: l) h hp b⟩

end Update

/-! ## Circles -/

namespace IsCircle

/-- A circle may be walked from any of its nodes. -/
theorem rotate (h : IsCircle next a l) (hx : x ∈ a :: l) :
    ∃ l', IsCircle next x l' ∧ (x :: l').Perm (a :: l) := by
  obtain ⟨u, v, huv⟩ := append_of_mem hx
  cases u with
  | nil =>
    cases huv
    exact ⟨l, h, .refl _⟩
  | cons c u =>
    cases huv
    -- the walk from `x` to the end, then from the beginning to `x`
    have h' : Path next (a :: (u ++ x :: v ++ [a])) := h
    rw [append_assoc, cons_append, ← cons_append] at h'
    obtain ⟨hfirst, hlast⟩ := path_split.mp h'
    refine ⟨v ++ a :: u, ?_, ?_⟩
    · have hwalk : Path next ((x :: v) ++ a :: (u ++ [x])) := path_split.mpr ⟨hlast, hfirst⟩
      simpa [IsCircle] using hwalk
    · have hperm : ((x :: v) ++ (a :: u)).Perm ((a :: u) ++ (x :: v)) := perm_append_comm
      exact hperm

/-- A loop that starts at any node finds the node that meets the test. -/
theorem search {stop : α → Prop} [DecidablePred stop] {fuel : ℕ} (h : IsCircle next a l)
    (hx : x ∈ a :: l) (hy : y ∈ a :: l) (hstop : ∀ z ∈ a :: l, stop z ↔ z = y)
    (hfuel : l.length < fuel) : search next stop fuel x = some y := by
  obtain ⟨l', hcircle, hperm⟩ := h.rotate hx
  have hpath : Path next ((x :: l') ++ [x]) := hcircle
  have hlen : l'.length = l.length := by simpa using hperm.length_eq
  have hwalk : Path next (x :: l') := List.IsChain.left_of_append hpath
  refine hwalk.search (hperm.mem_iff.mpr hy) (fun z hz => hstop z (hperm.mem_iff.mp hz)) ?_
  omega

/-- No two nodes of a circle have the same node behind them. -/
theorem next_inj (h : IsCircle next a l) (hnodup : (a :: l).Nodup) (hx : x ∈ a :: l)
    (hy : y ∈ a :: l) (heq : next x = next y) : x = y := by
  have hmap : ((a :: l).map next).Nodup := by
    rw [h.map_next]
    have hperm : (l ++ [a]).Perm ([a] ++ l) := perm_append_comm
    exact hperm.nodup_iff.mpr hnodup
  exact inj_on_of_nodup_map hmap hx hy heq

end IsCircle

end Paths

/-! ## Circles with increasing addresses -/

section Ordered

variable {α : Type*} [LinearOrder α] {next : α → α} {a b p x : α} {u v : List α}

/-- The test of a loop that looks for the place of `b`: behind `p` and in front of the next node, or
behind the last node or in front of the first one. -/
def IsPlace (next : α → α) (b p : α) : Prop :=
  (p < b ∧ b < next p) ∨ (next p ≤ p ∧ (p < b ∨ b < next p))

instance (next : α → α) (b : α) : DecidablePred (IsPlace next b) := fun _ =>
  inferInstanceAs (Decidable (_ ∨ _))

/-- In a circle that increases from `a` on, the place of an address above `a` is behind the last
node below it. -/
theorem IsCircle.search_place {fuel : ℕ} {l : List α} (h : IsCircle next a l)
    (hsplit : a :: l = u ++ p :: v) (hsorted : (a :: l).Pairwise (· < ·)) (hab : a < b) (hp : p < b)
    (hv : ∀ z ∈ v, b < z) (hx : x ∈ a :: l) (hfuel : l.length < fuel) :
    LinkedCircle.search next (IsPlace next b) fuel x = some p := by
  have hwalk : Path next ((a :: l) ++ [a]) := h
  rw [hsplit] at hwalk hsorted
  refine h.search hx (by simp [hsplit]) (fun z hz => ?_) hfuel
  rw [hsplit, mem_append, mem_cons] at hz
  rcases hz with hz | rfl | hz
  · -- the node behind `z` is still below `b`
    obtain ⟨u₁, u₂, rfl⟩ := append_of_mem hz
    obtain ⟨y, w, hy⟩ : ∃ y w, u₂ ++ p :: v = y :: w := exists_cons_of_ne_nil (by simp)
    have hlist : u₁ ++ z :: u₂ ++ p :: v = u₁ ++ z :: y :: w := by
      rw [append_assoc, cons_append, hy]
    rw [hlist] at hwalk hsorted
    have hnext : next z = y := Path.next_eq (v := w ++ [a]) (by simpa using hwalk)
    have hzy : z < y := (pairwise_cons.mp (pairwise_append.mp hsorted).2.1).1 y (by simp)
    have hyp : y ≤ p := by
      cases u₂ with
      | nil =>
        cases hy
        exact le_rfl
      | cons c u₂ =>
        cases hy
        have htail := (pairwise_cons.mp (pairwise_append.mp hsorted).2.1).2
        exact le_of_lt ((pairwise_cons.mp htail).1 p (by simp))
    have hzp : z < p := lt_of_lt_of_le hzy hyp
    unfold IsPlace
    rw [hnext]
    constructor
    · rintro (⟨-, hlt⟩ | ⟨hle, -⟩)
      · exact absurd (lt_of_le_of_lt hyp hp) (not_lt_of_gt hlt)
      · exact absurd hzy (not_lt_of_ge hle)
    · rintro rfl
      exact absurd hzp (lt_irrefl z)
  · -- `b` lies between `p` and the node behind it, or there is no node above `b`
    refine iff_of_true ?_ rfl
    unfold IsPlace
    cases v with
    | nil =>
      have hnext : next z = a := Path.next_eq (v := []) (by simpa using hwalk)
      have haz : a ≤ z := by
        cases u with
        | nil =>
          cases hsplit
          exact le_rfl
        | cons c u =>
          cases hsplit
          exact le_of_lt ((pairwise_cons.mp hsorted).1 z (by simp))
      rw [hnext]
      exact .inr ⟨haz, .inl hp⟩
    | cons y v =>
      have hnext : next z = y := Path.next_eq (v := v ++ [a]) (by simpa using hwalk)
      rw [hnext]
      exact .inl ⟨hp, hv y (by simp)⟩
  · -- `z` is above `b`, and the node behind it is above `z` or is `a`
    have hbz := hv z hz
    refine iff_of_false ?_ (ne_of_gt (lt_trans hp hbz))
    obtain ⟨v₁, v₂, rfl⟩ := append_of_mem hz
    unfold IsPlace
    rintro (⟨hzb, -⟩ | ⟨hle, hlt | hlt⟩)
    · exact absurd hzb (not_lt_of_gt hbz)
    · exact absurd hlt (not_lt_of_gt hbz)
    · cases v₂ with
      | nil =>
        have hnext : next z = a := Path.next_eq (u := u ++ p :: v₁) (v := []) (by simpa using hwalk)
        rw [hnext] at hlt
        exact absurd hab (not_lt_of_gt hlt)
      | cons y v₂ =>
        have hnext : next z = y :=
          Path.next_eq (u := u ++ p :: v₁) (v := v₂ ++ [a]) (by simpa using hwalk)
        have hpair := (pairwise_append.mp hsorted).2.1
        have hpair' := (pairwise_append.mp (pairwise_cons.mp hpair).2).2.1
        have hzy : z < y := (pairwise_cons.mp hpair').1 y (by simp)
        rw [hnext] at hle
        exact absurd hzy (not_lt_of_ge hle)

end Ordered

end LinkedCircle
