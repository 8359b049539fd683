import Mathlib

/-!
# Weakest preconditions

A program `StateT σ (Except ε) α` runs from a state and either returns a value and a state or fails.
`Wp x E s Q` says that from `s` it returns a value and a state with `Q`, or fails with an error in
`E`. There is one rule for each way to build a program, so that a specification is proved by
following the program, and `Wp.mono` uses the specification of a function where it is called.
-/

universe u

variable {σ ε α β : Type u}

/-- From the state `s` the program `x` returns with `Q`, or fails with an error in `E`. -/
def Wp (x : StateT σ (Except ε) α) (E : ε → Prop) (s : σ) (Q : α → σ → Prop) : Prop :=
  match x.run s with
  | .ok (a, s') => Q a s'
  | .error e => E e

namespace Wp

variable {x : StateT σ (Except ε) α} {f : α → StateT σ (Except ε) β} {E E' : ε → Prop} {s : σ}
  {Q Q' : α → σ → Prop} {R : β → σ → Prop}

/-- The specification of a program may be weakened. -/
theorem mono (h : Wp x E s Q) (hQ : ∀ a s', Q a s' → Q' a s') : Wp x E s Q' := by
  unfold Wp at h ⊢
  split at h
  · exact hQ _ _ h
  · exact h

/-- What holds of a run that returns. -/
theorem of_run (h : Wp x E s Q) {a : α} {s' : σ} (hrun : x.run s = .ok (a, s')) : Q a s' := by
  unfold Wp at h
  rw [hrun] at h
  exact h

/-- A program that does not fail returns. -/
theorem exists_run (h : Wp x (fun _ => False) s Q) : ∃ a s', x.run s = .ok (a, s') ∧ Q a s' := by
  unfold Wp at h
  split at h
  · exact ⟨_, _, ‹_›, h⟩
  · exact h.elim

lemma pure {a : α} (h : Q a s) : Wp (pure a) E s Q := h

lemma bind (h : Wp x E s fun a s' => Wp (f a) E s' R) : Wp (x >>= f) E s R := by
  unfold Wp at h ⊢
  have hrun : (x >>= f).run s = (x.run s >>= fun p => (f p.1).run p.2) := rfl
  rw [hrun]
  cases hx : x.run s with
  | error e =>
    rw [hx] at h
    exact h
  | ok p =>
    rw [hx] at h
    exact h

lemma get {Q : σ → σ → Prop} (h : Q s s) : Wp (get : StateT σ (Except ε) σ) E s Q := h

lemma set {s₁ : σ} {Q : PUnit → σ → Prop} (h : Q ⟨⟩ s₁) :
    Wp (set s₁ : StateT σ (Except ε) PUnit) E s Q := h

lemma modify {g : σ → σ} {Q : PUnit → σ → Prop} (h : Q ⟨⟩ (g s)) :
    Wp (modify g : StateT σ (Except ε) PUnit) E s Q := h

/-- The two branches of a conditional. -/
theorem ite {c : Prop} [Decidable c] {y : StateT σ (Except ε) α} (hx : c → Wp x E s Q)
    (hy : ¬ c → Wp y E s Q) : Wp (if c then x else y) E s Q := by
  split
  · exact hx ‹_›
  · exact hy ‹_›

/-- An invariant of the body of `for (i = 0; i < n; i++)`, which may speak about `i`. -/
theorem forM_range {g : ℕ → StateT σ (Except ε) PUnit} {I : ℕ → σ → Prop} {n : ℕ} (h0 : I 0 s)
    (hstep : ∀ i s, i < n → I i s → Wp (g i) E s fun _ s' => I (i + 1) s') :
    Wp ((List.range n).forM g) E s fun _ s' => I n s' := by
  -- from any turn `i` on, by induction on the number of turns left
  have hrange : ∀ k i s, i + k = n → I i s →
      Wp ((List.range' i k).forM g) E s fun _ s' => I n s' := by
    intro k
    induction k with
    | zero =>
      intro i s hi hI
      obtain rfl : i = n := by omega
      exact Wp.pure hI
    | succ k ih =>
      intro i s hi hI
      rw [List.range'_succ]
      refine Wp.bind ((hstep i s (by omega) hI).mono fun _ s' hI' => ?_)
      exact ih (i + 1) s' (by omega) hI'
  rw [List.range_eq_range']
  exact hrange n 0 s (by omega) h0

end Wp
