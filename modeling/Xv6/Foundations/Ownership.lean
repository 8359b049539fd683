import Mathlib

/-!
# Exclusive use of resources

A relation `Uses r u` says that the resource `r` is put to the use `u`. It is `Exclusive` if no
resource has two uses. A step that takes one resource from one use to another, `Moves`, keeps it
exclusive, and creates and loses no resource (`Moves.used_iff`). So does a step that renames the
uses, such as one that exchanges the resources of two uses (`Exclusive.of_perm`).

`Cells` is about a table of cells and the references to them: every cell in use is either held by
the operation in progress or referred to exactly once. `Cells.take`, `Cells.drop`, `Cells.attach`
and `Cells.detach` are the four ways in which an operation changes such a table.
-/

namespace Ownership

variable {R U : Type*} {Uses Uses' : R → U → Prop} {r : R} {x y : U}

/-- No resource has two uses. -/
def Exclusive (Uses : R → U → Prop) : Prop :=
  ∀ ⦃r u u'⦄, Uses r u → Uses r u' → u = u'

/-- From `Uses` to `Uses'` the resource `r` goes from the use `x` to the use `y`, and nothing else
changes. -/
structure Moves (Uses Uses' : R → U → Prop) (r : R) (x y : U) : Prop where
  ne : x ≠ y
  source : Uses r x
  left : ∀ q, Uses' q x ↔ Uses q x ∧ q ≠ r
  arrived : ∀ q, Uses' q y ↔ Uses q y ∨ q = r
  other : ∀ q u, u ≠ x → u ≠ y → (Uses' q u ↔ Uses q u)

namespace Moves

section

variable (h : Moves Uses Uses' r x y)

include h

/-- The resource that moves has only the new use. -/
theorem use_eq (hex : Exclusive Uses) {u : U} (hu : Uses' r u) : u = y := by
  by_contra hy
  by_cases hx : u = x
  · subst hx
    exact ((h.left r).mp hu).2 rfl
  · exact hx (hex ((h.other r u hx hy).mp hu) h.source)

/-- The other resources keep their uses. -/
theorem uses_iff {q : R} (hq : q ≠ r) (u : U) : Uses' q u ↔ Uses q u := by
  by_cases hx : u = x
  · subst hx
    simp [h.left, hq]
  · by_cases hy : u = y
    · subst hy
      simp [h.arrived, hq]
    · exact h.other q u hx hy

lemma exclusive (hex : Exclusive Uses) : Exclusive Uses' := by
  intro q u u' hu hu'
  by_cases hq : q = r
  · subst hq
    rw [h.use_eq hex hu, h.use_eq hex hu']
  · exact hex ((h.uses_iff hq u).mp hu) ((h.uses_iff hq u').mp hu')

/-- The same resources are used before and after. -/
theorem used_iff (q : R) : (∃ u, Uses' q u) ↔ ∃ u, Uses q u := by
  by_cases hq : q = r
  · subst hq
    exact iff_of_true ⟨y, (h.arrived q).mpr (.inr rfl)⟩ ⟨x, h.source⟩
  · simp only [h.uses_iff hq]

end

end Moves

/-- Uses that are renamed stay exclusive. -/
theorem Exclusive.of_perm (h : Exclusive Uses) (e : U ≃ U)
    (hiff : ∀ q u, Uses' q u ↔ Uses q (e u)) : Exclusive Uses' := by
  intro q u u' hu hu'
  exact e.injective (h ((hiff q u).mp hu) ((hiff q u').mp hu'))

/-- A resource has a use in `S` if it has one and has none outside. -/
theorem Exclusive.exists_iff (h : Exclusive Uses) (S : U → Prop) (q : R) :
    (∃ u, S u ∧ Uses q u) ↔ (∃ u, Uses q u) ∧ ∀ u, Uses q u → S u := by
  constructor
  · rintro ⟨u, hS, hu⟩
    exact ⟨⟨u, hu⟩, fun u' hu' => h hu hu' ▸ hS⟩
  · rintro ⟨⟨u, hu⟩, hall⟩
    exact ⟨u, hall u hu, hu⟩

/-! ## Tables of cells -/

section Cells

variable {I P : Type*} {used U : I → Prop} {held : Option I} {ref ref' : P → I → Prop}
  {i : I} {a : P}

/-- Every cell in use is either `held` or referred to exactly once, and only cells in use are. -/
structure Cells (used : I → Prop) (held : Option I) (ref : P → I → Prop) : Prop where
  ref_used : ∀ a i, ref a i → used i
  ref_inj : ∀ a b i, ref a i → ref b i → a = b
  held_used : ∀ i, held = some i → used i
  held_ref : ∀ a i, held = some i → ¬ ref a i
  covered : ∀ i, used i → held = some i ∨ ∃ a, ref a i

namespace Cells

lemma of_iff (h : Cells used held ref) (hused : ∀ i, U i ↔ used i)
    (href : ∀ a i, ref' a i ↔ ref a i) : Cells U held ref' where
  ref_used a i hr := (hused i).mpr (h.ref_used a i ((href a i).mp hr))
  ref_inj a b i ha hb := h.ref_inj a b i ((href a i).mp ha) ((href b i).mp hb)
  held_used i hi := (hused i).mpr (h.held_used i hi)
  held_ref a i hi hr := h.held_ref a i hi ((href a i).mp hr)
  covered i hi := by
    simp only [href]
    exact h.covered i ((hused i).mp hi)

/-- An unused cell is taken. -/
theorem take (h : Cells used none ref) (hi : ¬ used i) (hused : ∀ j, U j ↔ used j ∨ j = i) :
    Cells U (some i) ref where
  ref_used b j hb := (hused j).mpr (.inl (h.ref_used b j hb))
  ref_inj := h.ref_inj
  held_used j hj := by
    cases hj
    exact (hused i).mpr (.inr rfl)
  held_ref b j hj hb := by
    cases hj
    exact hi (h.ref_used b i hb)
  covered j hj := by
    rcases (hused j).mp hj with hj | rfl
    · exact .inr ((h.covered j hj).resolve_left (by simp))
    · exact .inl rfl

/-- The held cell is given back. -/
theorem drop (h : Cells used (some i) ref) (hused : ∀ j, U j ↔ used j ∧ j ≠ i) :
    Cells U none ref where
  ref_used b j hb := by
    refine (hused j).mpr ⟨h.ref_used b j hb, ?_⟩
    rintro rfl
    exact h.held_ref b j rfl hb
  ref_inj := h.ref_inj
  held_used j hj := by cases hj
  held_ref b j hj := by cases hj
  covered j hj := by
    obtain ⟨hj, hne⟩ := (hused j).mp hj
    refine (h.covered j hj).imp_left fun heq => ?_
    cases heq
    exact absurd rfl hne

/-- The reference `a` is made to refer to the held cell. -/
theorem attach (h : Cells used (some i) ref)
    (href : ∀ b j, ref' b j ↔ (b = a ∧ j = i) ∨ (b ≠ a ∧ ref b j)) (ha : ∀ j, ¬ ref a j) :
    Cells used none ref' where
  ref_used b j hb := by
    rcases (href b j).mp hb with ⟨-, rfl⟩ | ⟨-, hb⟩
    · exact h.held_used j rfl
    · exact h.ref_used b j hb
  ref_inj b b' j hb hb' := by
    rcases (href b j).mp hb with ⟨rfl, rfl⟩ | ⟨-, hb⟩ <;>
      rcases (href b' j).mp hb' with ⟨rfl, heq⟩ | ⟨-, hb'⟩
    · rfl
    · exact absurd hb' (h.held_ref b' j rfl)
    · subst heq
      exact absurd hb (h.held_ref b j rfl)
    · exact h.ref_inj b b' j hb hb'
  held_used j hj := by cases hj
  held_ref b j hj := by cases hj
  covered j hj := by
    refine .inr ?_
    rcases h.covered j hj with heq | ⟨b, hb⟩
    · cases heq
      exact ⟨a, (href a i).mpr (.inl ⟨rfl, rfl⟩)⟩
    · refine ⟨b, (href b j).mpr (.inr ⟨?_, hb⟩)⟩
      rintro rfl
      exact ha j hb

/-- The reference `a` to a cell is removed, and the cell is held. -/
theorem detach (h : Cells used none ref) (ha : ∀ j, ref a j ↔ j = i)
    (href : ∀ b j, ref' b j ↔ b ≠ a ∧ ref b j) : Cells used (some i) ref' where
  ref_used b j hb := h.ref_used b j ((href b j).mp hb).2
  ref_inj b b' j hb hb' := h.ref_inj b b' j ((href b j).mp hb).2 ((href b' j).mp hb').2
  held_used j hj := by
    cases hj
    exact h.ref_used a i ((ha i).mpr rfl)
  held_ref b j hj hb := by
    cases hj
    obtain ⟨hne, hb⟩ := (href b i).mp hb
    exact hne (h.ref_inj b a i hb ((ha i).mpr rfl))
  covered j hj := by
    obtain ⟨b, hb⟩ := (h.covered j hj).resolve_left (by simp)
    by_cases hba : b = a
    · subst hba
      exact .inl (by rw [(ha j).mp hb])
    · exact .inr ⟨b, (href b j).mpr ⟨hba, hb⟩⟩

end Cells

end Cells

end Ownership
