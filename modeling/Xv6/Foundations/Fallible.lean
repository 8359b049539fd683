import Mathlib

/-!
# Computations that may fail

Inversion of sequencing in `Except`, the invariant rule for a counting loop, and the rules for
`Avoids`, which says that a computation does not fail with a given error, and for `Within`, which
says with which errors it may fail and what its result is like.
-/

namespace Fallible

open List

universe u

variable {ε α β σ : Type u}

/-- A sequence succeeds if both parts do. -/
theorem bind_eq_ok {x : Except ε α} {f : α → Except ε β} {b : β} :
    (x >>= f) = .ok b ↔ ∃ a, x = .ok a ∧ f a = .ok b := by
  cases x with
  | error e =>
    constructor
    · intro h
      cases h
    · rintro ⟨a, h, -⟩
      cases h
  | ok a =>
    constructor
    · intro h
      exact ⟨a, rfl, h⟩
    · rintro ⟨a', h, hf⟩
      cases h
      exact hf

/-- A sequence goes on with the result of its first part. -/
theorem bind_of_ok {x : Except ε α} {a : α} (h : x = .ok a) (f : α → Except ε β) :
    (x >>= f) = f a := by
  rw [h]
  rfl

/-- A sequence fails if its first part does. -/
theorem bind_of_error {x : Except ε α} {e : ε} (h : x = .error e) (f : α → Except ε β) :
    (x >>= f) = .error e := by
  rw [h]
  rfl

/-- The result of a computation whose errors are forgotten. -/
theorem toOption_eq_some {x : Except ε α} {a : α} : x.toOption = some a ↔ x = .ok a := by
  cases x with
  | error e => exact iff_of_false nofun nofun
  | ok b => simp [Except.toOption]

/-- An invariant of the body of `for (i = 0; i < n; i++)`, which may speak about `i`, holds after a
loop that succeeds. -/
theorem foldlM_range_invariant {f : σ → ℕ → Except ε σ} {I : ℕ → σ → Prop} (n : ℕ)
    (hstep : ∀ i s s', i < n → I i s → f s i = .ok s' → I (i + 1) s') :
    ∀ s s', I 0 s → (List.range n).foldlM f s = .ok s' → I n s' := by
  induction n with
  | zero =>
    intro s s' h0 hrun
    cases hrun
    exact h0
  | succ n ih =>
    intro s s' h0 hrun
    rw [range_succ, foldlM_append] at hrun
    obtain ⟨t, hprefix, hlast⟩ := bind_eq_ok.mp hrun
    rw [foldlM_cons] at hlast
    obtain ⟨t', hbody, hnil⟩ := bind_eq_ok.mp hlast
    cases hnil
    have ht : I n t := ih (fun i s s' hi => hstep i s s' (by omega)) s t h0 hprefix
    exact hstep n t s' (by omega) ht hbody

/-! ## Errors that do not occur -/

/-- The computation does not fail with the error `e`. -/
def Avoids (e : ε) (x : Except ε α) : Prop := x ≠ .error e

namespace Avoids

variable {e : ε}

lemma ok (a : α) : Avoids e (.ok a) := by
  intro h
  cases h

lemma error {e' : ε} (h : e' ≠ e) : Avoids e (.error e' : Except ε α) := by
  intro heq
  cases heq
  exact h rfl

lemma bind {x : Except ε α} {f : α → Except ε β} (hx : Avoids e x)
    (hf : ∀ a, x = .ok a → Avoids e (f a)) : Avoids e (x >>= f) := by
  cases x with
  | error e' => exact error fun heq => hx (by rw [heq])
  | ok a => exact hf a rfl

/-- A computation that avoids every error returns. -/
theorem exists_ok {x : Except ε α} (h : ∀ e, Avoids e x) : ∃ a, x = .ok a := by
  cases x with
  | error e => exact absurd rfl (h e)
  | ok a => exact ⟨a, rfl⟩

/-- A counting loop whose body avoids an error avoids it. The body may use an invariant. -/
theorem foldlM_range {f : σ → ℕ → Except ε σ} {I : ℕ → σ → Prop} (n : ℕ)
    (hstep : ∀ i s s', i < n → I i s → f s i = .ok s' → I (i + 1) s')
    (hbody : ∀ i s, i < n → I i s → Avoids e (f s i)) (s : σ) (h0 : I 0 s) :
    Avoids e ((List.range n).foldlM f s) := by
  induction n with
  | zero => exact ok s
  | succ n ih =>
    rw [range_succ, foldlM_append]
    have hprefix := ih (fun i s s' hi => hstep i s s' (by omega)) fun i s hi => hbody i s (by omega)
    refine hprefix.bind fun t ht => ?_
    have hI : I n t :=
      foldlM_range_invariant n (fun i s s' hi => hstep i s s' (by omega)) s t h0 ht
    rw [foldlM_cons]
    exact (hbody n t (by omega) hI).bind fun t' _ => ok t'

end Avoids

/-! ## Results -/

/-- The computation fails only with errors that `E` allows, and its result, if any, has the property
`P`. -/
structure Within (E : ε → Prop) (x : Except ε α) (P : α → Prop) : Prop where
  errors : ∀ e, x = .error e → E e
  result : ∀ a, x = .ok a → P a

namespace Within

variable {E : ε → Prop} {P : α → Prop} {Q : β → Prop} {e : ε}

lemma ok {a : α} (h : P a) : Within E (.ok a) P := by
  refine ⟨fun e heq => ?_, fun a' heq => ?_⟩ <;> cases heq
  exact h

lemma error (h : E e) : Within E (.error e : Except ε α) P := by
  refine ⟨fun e' heq => ?_, fun a heq => ?_⟩ <;> cases heq
  exact h

lemma bind {x : Except ε α} {f : α → Except ε β} (hx : Within E x P)
    (hf : ∀ a, P a → Within E (f a) Q) : Within E (x >>= f) Q := by
  cases x with
  | error e => exact error (hx.errors e rfl)
  | ok a => exact hf a (hx.result a rfl)

lemma of_avoids {x : Except ε α} (h : Avoids e x) : Within (· ≠ e) x fun _ => True :=
  ⟨fun _ heq hne => h (hne ▸ heq), fun _ _ => trivial⟩

lemma avoids {x : Except ε α} (hx : Within (· ≠ e) x P) : Avoids e x :=
  fun heq => hx.errors e heq rfl

lemma map {x : Except ε α} {f : α → β} (h : Within E x fun a => Q (f a)) :
    Within E (x.map f) Q := by
  cases x with
  | error e => exact error (h.errors e rfl)
  | ok a => exact ok (h.result a rfl)

/-- A loop over a list whose body keeps an invariant keeps it. -/
theorem foldlM {ι : Type*} {f : σ → ι → Except ε σ} {I : σ → Prop}
    (hbody : ∀ s i, I s → Within E (f s i) I) (l : List ι) :
    ∀ s, I s → Within E (l.foldlM f s) I := by
  induction l with
  | nil => exact fun s hs => ok hs
  | cons i l ih =>
    intro s hs
    rw [foldlM_cons]
    exact (hbody s i hs).bind ih

end Within

/-- The result of the computation, if any, has the property `P`. -/
abbrev Returns (x : Except ε α) (P : α → Prop) : Prop := Within (fun _ => True) x P

lemma Returns.intro {x : Except ε α} {P : α → Prop} (h : ∀ a, x = .ok a → P a) : Returns x P :=
  ⟨fun _ _ => trivial, h⟩

/-- Nothing is said about the first result. -/
theorem Returns.bind_any {x : Except ε α} {f : α → Except ε β} {Q : β → Prop}
    (hf : ∀ a, Returns (f a) Q) : Returns (x >>= f) Q :=
  Within.bind (Returns.intro fun _ _ => trivial) fun a _ => hf a

end Fallible
