import Mathlib

/-!
# The second-chance clock

A hand visits positions in circular order and stops at a candidate. A candidate has a mark of its
own and one stored under a key, which other positions may share; a candidate with either mark is
passed over once, and both marks are cleared.

Main facts: a lap that finds nothing leaves no candidate marked (`scan_none`), so two laps find a
candidate whenever there is one (`exists_scan_twice`); `scan_twice_eq` says which one, and which
marks are cleared.
-/

namespace SecondChance

open Function List

variable {ι κ : Type} [DecidableEq ι] [DecidableEq κ]

/-- The marks of the positions and of the keys. -/
@[ext]
structure Marks (ι κ : Type) where
  ref : ι → Bool
  acc : κ → Bool

/-- The position has a mark. -/
def Marks.marked (m : Marks ι κ) (key : ι → κ) (i : ι) : Bool := m.acc (key i) || m.ref i

/-- Clear the marks of a position. -/
def Marks.clear (m : Marks ι κ) (key : ι → κ) (i : ι) : Marks ι κ where
  ref := update m.ref i false
  acc := update m.acc (key i) false

/-- Clear the marks of some positions. -/
def Marks.clearAll (m : Marks ι κ) (key : ι → κ) (s : List ι) : Marks ι κ :=
  s.foldl (fun m i => m.clear key i) m

/-- In a lap that visits `l`, the marks of `i` are there when the hand comes to it: no candidate
before it has cleared the mark of its key. -/
def Marks.spared (m : Marks ι κ) (c : ι → Bool) (key : ι → κ) (l : List ι) (i : ι) : Bool :=
  m.ref i || (m.acc (key i) && !(l.takeWhile (· ≠ i)).any fun j => c j && key j = key i)

/-- The candidate at which the hand stops: the first that is not spared, or else the first. -/
def choice (c : ι → Bool) (key : ι → κ) (l : List ι) (m : Marks ι κ) : Option ι :=
  (l.find? fun i => c i && !m.spared c key l i).or (l.find? c)

/-- Visit the positions of a list until the hand stops at one. -/
def scan (c : ι → Bool) (key : ι → κ) : List ι → Marks ι κ → Option ι × Marks ι κ
  | [], m => (none, m)
  | i :: l, m =>
    if c i then
      if m.marked key i then scan c key l (m.clear key i)
      else (some i, m)
    else scan c key l m

section Scan

variable {c : ι → Bool} {key : ι → κ} {l l₁ l₂ : List ι} {m : Marks ι κ} {i j : ι}

lemma scan_append : scan c key (l₁ ++ l₂) m = match scan c key l₁ m with
    | (some i, m') => (some i, m')
    | (none, m') => scan c key l₂ m' := by
  induction l₁ generalizing m with
  | nil => rfl
  | cons j l ih =>
    rw [cons_append, scan, scan]
    split_ifs
    · exact ih
    · rfl
    · exact ih

lemma mem_of_scan (h : (scan c key l m).1 = some i) : i ∈ l ∧ c i = true := by
  induction l generalizing m with
  | nil => simp [scan] at h
  | cons j l ih =>
    rw [scan] at h
    split_ifs at h with hj
    · exact ⟨mem_cons_of_mem _ (ih h).1, (ih h).2⟩
    · cases h
      exact ⟨mem_cons_self, hj⟩
    · exact ⟨mem_cons_of_mem _ (ih h).1, (ih h).2⟩

/-- The hand only clears marks. -/
theorem marked_of_scan (h : (scan c key l m).2.marked key j = true) : m.marked key j = true := by
  induction l generalizing m with
  | nil => exact h
  | cons i l ih =>
    rw [scan] at h
    split_ifs at h with hi hm
    · have hclear := ih h
      simp only [Marks.marked, Marks.clear, update_apply, Bool.or_eq_true] at hclear ⊢
      grind
    · exact h
    · exact ih h

lemma not_marked_clear (m : Marks ι κ) (i : ι) : (m.clear key i).marked key i = false := by
  simp [Marks.marked, Marks.clear]

/-- A lap that finds nothing leaves no candidate marked. -/
theorem scan_none (h : (scan c key l m).1 = none) (hj : j ∈ l) (hc : c j = true) :
    (scan c key l m).2.marked key j = false := by
  induction l generalizing m with
  | nil => cases hj
  | cons i l ih =>
    rw [scan] at h ⊢
    rcases mem_cons.mp hj with rfl | hj
    · rw [if_pos hc] at h ⊢
      split_ifs at h ⊢ with hm
      -- the marks just cleared stay cleared
      rw [← Bool.not_eq_true]
      intro hmarked
      have := marked_of_scan hmarked
      rw [not_marked_clear] at this
      cases this
    · split_ifs at h ⊢
      · exact ih h hj
      · exact ih h hj

/-- Without marks the hand stops at the first candidate. -/
theorem scan_of_unmarked (h : ∀ i ∈ l, c i = true → m.marked key i = false) :
    scan c key l m = (l.find? c, m) := by
  induction l with
  | nil => rfl
  | cons i l ih =>
    rw [scan, List.find?_cons]
    cases hi : c i with
    | true => simp [h i mem_cons_self hi]
    | false => simpa using ih fun j hj => h j (mem_cons_of_mem _ hj)

/-- Two laps. -/
theorem scan_twice (c : ι → Bool) (key : ι → κ) (l : List ι) (m : Marks ι κ) :
    scan c key (l ++ l) m = match scan c key l m with
      | (some i, m') => (some i, m')
      | (none, m') => (l.find? c, m') := by
  rw [scan_append]
  cases hscan : scan c key l m with
  | mk o m' =>
    cases o with
    | some i => rfl
    | none =>
      refine scan_of_unmarked fun i hi hc => ?_
      have hnone := scan_none (c := c) (l := l) (m := m) (by rw [hscan]) hi hc
      rwa [hscan] at hnone

/-- Two laps find a candidate if there is one. -/
theorem exists_scan_twice (key : ι → κ) (m : Marks ι κ) (hi : i ∈ l) (hc : c i = true) :
    ∃ j, (scan c key (l ++ l) m).1 = some j := by
  rw [scan_twice]
  cases hscan : scan c key l m with
  | mk o m' =>
    cases o with
    | some j => exact ⟨j, rfl⟩
    | none => exact Option.isSome_iff_exists.mp (List.find?_isSome.mpr ⟨i, hi, hc⟩)

/-- Without candidates nothing is found and nothing changes. -/
theorem scan_of_no_candidate (h : ∀ i ∈ l, c i = false) : scan c key l m = (none, m) := by
  rw [scan_of_unmarked fun i hi hc => by simp [h i hi] at hc]
  simp only [Prod.mk.injEq, and_true, List.find?_eq_none]
  intro i hi
  simp [h i hi]

/-! ## Where the hand stops -/

lemma ref_clearAll (m : Marks ι κ) (s : List ι) (i : ι) :
    (m.clearAll key s).ref i = (m.ref i && !decide (i ∈ s)) := by
  induction s generalizing m with
  | nil => simp [Marks.clearAll]
  | cons j s ih =>
    rw [Marks.clearAll, foldl_cons, ← Marks.clearAll, ih]
    by_cases hij : i = j <;> simp [Marks.clear, hij]

lemma acc_clearAll (m : Marks ι κ) (s : List ι) (q : κ) :
    (m.clearAll key s).acc q = (m.acc q && !s.any fun i => key i = q) := by
  induction s generalizing m with
  | nil => simp [Marks.clearAll]
  | cons j s ih =>
    rw [Marks.clearAll, foldl_cons, ← Marks.clearAll, ih]
    by_cases hq : q = key j
    · simp [Marks.clear, hq]
    · simp [Marks.clear, hq, Ne.symm hq]

/-- A lap clears the marks of the candidates that it passes, each of which is marked at its turn,
and stops at one that is not. -/
theorem scan_split (c : ι → Bool) (key : ι → κ) (l : List ι) (m : Marks ι κ) :
    ∃ l₁ l₂, l = l₁ ++ l₂ ∧ (scan c key l m).2 = m.clearAll key (l₁.filter c) ∧
      (∀ a j b, l₁ = a ++ j :: b → c j = true →
        (m.clearAll key (a.filter c)).marked key j = true) ∧
      ((scan c key l m).1 = none ∧ l₂ = [] ∨ ∃ i l₃, (scan c key l m).1 = some i ∧
        l₂ = i :: l₃ ∧ c i = true ∧ (m.clearAll key (l₁.filter c)).marked key i = false) := by
  induction l generalizing m with
  | nil => exact ⟨[], [], rfl, rfl, by simp, .inl ⟨rfl, rfl⟩⟩
  | cons i l ih =>
    -- the lap passes the position, and goes on with the marks `m'`, or stops there
    obtain ⟨m', hscan, hfilter, hmarked⟩ | ⟨hscan, hc, hm⟩ :
        (∃ m', scan c key (i :: l) m = scan c key l m' ∧ (∀ a, m.clearAll key ((i :: a).filter c) =
          m'.clearAll key (a.filter c)) ∧ (c i = true → m.marked key i = true)) ∨
        scan c key (i :: l) m = (some i, m) ∧ c i = true ∧ m.marked key i = false := by
      rw [scan]
      split_ifs with hc hm
      · refine .inl ⟨_, rfl, fun a => ?_, fun _ => hm⟩
        rw [filter_cons_of_pos hc, Marks.clearAll, foldl_cons, ← Marks.clearAll]
      · exact .inr ⟨rfl, hc, eq_false_of_ne_true hm⟩
      · exact .inl ⟨m, rfl, fun a => by rw [filter_cons_of_neg hc], fun hi => absurd hi hc⟩
    · obtain ⟨l₁, l₂, rfl, hmarks, hpassed, hstop⟩ := ih m'
      rw [hscan]
      refine ⟨i :: l₁, l₂, rfl, by rw [hmarks, hfilter], fun a j b hab hj => ?_, by rwa [hfilter]⟩
      cases a with
      | nil =>
        obtain ⟨rfl, rfl⟩ := List.cons.inj hab
        exact hmarked hj
      | cons x a =>
        obtain ⟨rfl, htail⟩ := List.cons.inj hab
        rw [hfilter]
        exact hpassed a j b htail hj
    · rw [hscan]
      exact ⟨[], i :: l, rfl, rfl, by simp, .inr ⟨i, l, rfl, rfl, hc, hm⟩⟩

/-- The positions before `i` in a list without repetition. -/
theorem takeWhile_ne_of_nodup {a b : List ι} (h : (a ++ i :: b).Nodup) :
    (a ++ i :: b).takeWhile (· ≠ i) = a := by
  have ha : i ∉ a := fun hi =>
    (nodup_append.mp h).2.2 i hi i mem_cons_self rfl
  rw [takeWhile_append_of_pos fun j hj => by
    simpa using fun hji : j = i => ha (hji ▸ hj)]
  simp

/-- The marks of a position when the hand comes to it. -/
theorem marked_clearAll {a b : List ι} (h : (a ++ i :: b).Nodup) :
    (m.clearAll key (a.filter c)).marked key i = m.spared c key (a ++ i :: b) i := by
  have ha : i ∉ a := fun hi =>
    (nodup_append.mp h).2.2 i hi i mem_cons_self rfl
  rw [Marks.marked, ref_clearAll, acc_clearAll, Marks.spared, takeWhile_ne_of_nodup h,
    any_filter, Bool.or_comm]
  simp [ha]

/-- In two laps the hand stops at `choice`, and clears the marks of the candidates before the first
that is not spared. -/
theorem scan_twice_eq (hl : l.Nodup) : scan c key (l ++ l) m = (choice c key l m,
    m.clearAll key ((l.takeWhile fun i => !(c i && !m.spared c key l i)).filter c)) := by
  obtain ⟨l₁, l₂, hsplit, hmarks, hpassed, hstop⟩ := scan_split c key l m
  rw [scan_twice, choice]
  -- the candidates that the first lap passes are spared
  have hspared : ∀ j ∈ l₁, c j = true → m.spared c key l j = true := by
    intro j hj hc
    obtain ⟨a, b, rfl⟩ := append_of_mem hj
    have hl' : l = a ++ j :: (b ++ l₂) := by rw [hsplit, append_assoc, cons_append]
    rw [hl', ← marked_clearAll (hl' ▸ hl)]
    exact hpassed a j b rfl hc
  have hpass : ∀ j ∈ l₁, (!(c j && !m.spared c key l j)) = true := by
    intro j hj
    by_cases hc : c j = true
    · simp [hspared j hj hc]
    · simp [hc]
  rcases hstop with ⟨hnone, rfl⟩ | ⟨i, l₃, hsome, rfl, hc, hm⟩
  · -- every candidate is spared, and the second lap stops at the first
    rw [append_nil] at hsplit
    subst hsplit
    have hfind : (l.find? fun i => c i && !m.spared c key l i) = none := by
      rw [List.find?_eq_none]
      intro j hj
      have hj' := hpass j hj
      rw [Bool.not_eq_true'] at hj'
      rw [hj']
      exact Bool.false_ne_true
    rw [hfind, takeWhile_eq_self_iff.mpr hpass, ← hmarks]
    cases hscan : scan c key l m with
    | mk o m' =>
      rw [hscan] at hnone
      cases hnone
      rfl
  · have hi : (c i && !m.spared c key l i) = true := by
      subst hsplit
      rw [← marked_clearAll hl, hm, hc]
      rfl
    have hfind : (l.find? fun i => c i && !m.spared c key l i) = some i := by
      rw [List.find?_eq_some_iff_append]
      exact ⟨hi, l₁, l₃, hsplit, hpass⟩
    have htake : (l.takeWhile fun i => !(c i && !m.spared c key l i)) = l₁ := by
      generalize m.spared c key l = spared at hpass hi
      rw [hsplit, takeWhile_append_of_pos hpass]
      simpa using hi
    rw [hfind, htake, ← hmarks]
    cases hscan : scan c key l m with
    | mk o m' =>
      rw [hscan] at hsome
      cases hsome
      rfl

/-- If all positions have a mark of their own, the hand stops at the first candidate. -/
theorem choice_of_ref (h : ∀ i, m.ref i = true) : choice c key l m = l.find? c := by
  have hnone : (l.find? fun i => c i && !m.spared c key l i) = none := by simp [Marks.spared, h]
  rw [choice, hnone, Option.none_or]

/-- The marks of a candidate are its own if no other candidate has its key. -/
theorem spared_eq_marked (hkey : ∀ j, c j = true → key j = key i → j = i) :
    m.spared c key l i = m.marked key i := by
  have hnone : ((l.takeWhile (· ≠ i)).any fun j => c j && key j = key i) = false := by
    rw [any_eq_false]
    intro j hj
    have hne := mem_takeWhile_imp hj
    simp only [Bool.and_eq_true, decide_eq_true_eq, not_and]
    intro hc hk
    simp [hkey j hc hk] at hne
  rw [Marks.spared, hnone, Marks.marked, Bool.or_comm]
  simp

end Scan

/-! ## Circular order -/

/-- The next `m` positions from `h` on. -/
def turns {n : ℕ} [NeZero n] (h : Fin n) : ℕ → List (Fin n)
  | 0 => []
  | m + 1 => h :: turns (h + 1) m

section Turns

variable {n : ℕ} [NeZero n]

lemma turns_eq_map (h : Fin n) (m : ℕ) :
    turns h m = (List.range m).map fun d => h + Fin.ofNat n d := by
  induction m generalizing h with
  | zero => rfl
  | succ m ih =>
    rw [turns, ih, range_succ_eq_map, map_cons, map_map]
    congr 1
    · simp
    · refine map_congr_left fun d _ => ?_
      rw [comp_apply, add_assoc]
      congr 1
      ext
      simp [Fin.val_add, add_comm]

lemma turns_add (h : Fin n) (a b : ℕ) :
    turns h (a + b) = turns h a ++ turns (h + Fin.ofNat n a) b := by
  rw [turns_eq_map, turns_eq_map, turns_eq_map, range_add, map_append, map_map]
  congr 1
  refine map_congr_left fun d _ => ?_
  rw [comp_apply, add_assoc]
  congr 1
  ext
  simp [Fin.val_add]

lemma mem_turns (h i : Fin n) : i ∈ turns h n := by
  rw [turns_eq_map, mem_map]
  exact ⟨(i - h).val, by simp, by simp⟩

lemma nodup_turns (h : Fin n) : (turns h n).Nodup := by
  rw [turns_eq_map]
  refine List.Nodup.map_on (fun a ha b hb hab => ?_) nodup_range
  have heq := congrArg Fin.val (add_left_cancel hab)
  rw [mem_range] at ha hb
  simpa [Nat.mod_eq_of_lt ha, Nat.mod_eq_of_lt hb] using heq

/-- Two laps. -/
theorem turns_twice (h : Fin n) : turns h (n * 2) = turns h n ++ turns h n := by
  rw [Nat.mul_two, turns_add]
  congr 2
  ext
  simp

end Turns

end SecondChance
