import Xv6.Foundations.Sums
import Xv6.Foundations.Transition

/-!
# Programs of atomic sections, and the tokens they hold

A `SectionProg` is a program whose steps are atomic sections over a shared state. Any number of
threads run such programs, one section at a time, in any order (`SectionSystem`).

What a thread may do at a point of its program depends on what it has acquired before. This is
tracked by *tokens*: a section needs some tokens of its thread and gives others back (`Follows`),
and the shared state determines how many tokens of each kind are held by all threads together. A
section is then verified against the shared state alone (`TokenLogic`), and a program by following
its text with the rules `Follows.bind` and `Uses.bind`.

## Main results

* `TokenLogic.ledger`: in every reachable state the threads hold tokens that account for the balance
  of the shared state, every thread follows its program with the tokens it holds, and panics that
  are excluded section by section have not happened.
-/

/-- A program that runs sections; the section `s` has a result of type `R s`. -/
inductive SectionProg (S : Type) (R : S → Type) (α : Type) where
  /-- Return a result. -/
  | ret (a : α)
  /-- Run a section and go on with its result. -/
  | run (s : S) (k : R s → SectionProg S R α)

namespace SectionProg

open Function

variable {S : Type} {R : S → Type} {α β T : Type}

/-- Sequencing. -/
def bind : SectionProg S R α → (α → SectionProg S R β) → SectionProg S R β
  | .ret a, f => f a
  | .run s k, f => .run s fun r => (k r).bind f

instance : Monad (SectionProg S R) where
  pure := .ret
  bind := .bind

/-- A single section. -/
def atomically (s : S) : SectionProg S R (R s) := .run s .ret

/-! ## Tokens -/

/-- What a section may be run with, and what it gives back for each result. -/
abbrev Spec (S : Type) (R : S → Type) (T : Type) : Type :=
  (s : S) → Multiset T → (R s → Multiset T) → Prop

/-- With the tokens `held` the program has the tokens for every section it runs, whatever the
results are, and ends with a result and tokens that satisfy `Q`. -/
def Follows (spec : Spec S R T) :
    SectionProg S R α → Multiset T → (α → Multiset T → Prop) → Prop
  | .ret a, held, Q => Q a held
  | .run s k, held, Q => ∃ need rest give, spec s need give ∧ held = need + rest ∧
      ∀ r, (k r).Follows spec (give r + rest) Q

variable {spec : Spec S R T}

lemma Follows.bind {p : SectionProg S R α} {f : α → SectionProg S R β} {held : Multiset T}
    {Q' : α → Multiset T → Prop} {Q : β → Multiset T → Prop} (h : p.Follows spec held Q')
    (hf : ∀ a held', Q' a held' → (f a).Follows spec held' Q) :
    (p >>= f).Follows spec held Q := by
  induction p generalizing held with
  | ret a => exact hf a held h
  | run s k ih =>
    obtain ⟨need, rest, give, hspec, hheld, hk⟩ := h
    exact ⟨need, rest, give, hspec, hheld, fun r => ih r (hk r)⟩

lemma Follows.mono {p : SectionProg S R α} {held : Multiset T} {Q Q' : α → Multiset T → Prop}
    (h : p.Follows spec held Q) (hQ : ∀ a held', Q a held' → Q' a held') :
    p.Follows spec held Q' := by
  induction p generalizing held with
  | ret a => exact hQ a held h
  | run s k ih =>
    obtain ⟨need, rest, give, hspec, hheld, hk⟩ := h
    exact ⟨need, rest, give, hspec, hheld, fun r => ih r (hk r)⟩

/-- Tokens that a program does not need stay where they are. -/
theorem Follows.frame {p : SectionProg S R α} {held : Multiset T} {Q : α → Multiset T → Prop}
    (h : p.Follows spec held Q) (extra : Multiset T) :
    p.Follows spec (held + extra) fun a held' => ∃ h', held' = h' + extra ∧ Q a h' := by
  induction p generalizing held with
  | ret a => exact ⟨held, rfl, h⟩
  | run s k ih =>
    obtain ⟨need, rest, give, hspec, rfl, hk⟩ := h
    refine ⟨need, rest + extra, give, hspec, add_assoc .., fun r => ?_⟩
    rw [← add_assoc]
    exact ih r (hk r)

/-- The program uses the tokens `need` and gives back `give a` if it returns `a`. -/
def Uses (spec : Spec S R T) (p : SectionProg S R α) (need : Multiset T) (give : α → Multiset T) :
    Prop :=
  p.Follows spec need fun a held => held = give a

/-- Run a program with its tokens, and go on with what it gives back. -/
theorem Uses.bind {p : SectionProg S R α} {f : α → SectionProg S R β} {need held : Multiset T}
    {give : α → Multiset T} {Q : β → Multiset T → Prop} (h : p.Uses spec need give)
    (rest : Multiset T) (hheld : held = need + rest)
    (hf : ∀ a, (f a).Follows spec (give a + rest) Q) :
    (p >>= f).Follows spec held Q := by
  subst hheld
  refine (h.frame rest).bind ?_
  rintro a _ ⟨_, rfl, rfl⟩
  exact hf a

/-- A program in last place. -/
theorem Uses.last {p : SectionProg S R α} {need held : Multiset T} {give : α → Multiset T}
    {Q : α → Multiset T → Prop} (h : p.Uses spec need give) (rest : Multiset T)
    (hheld : held = need + rest) (hQ : ∀ a, Q a (give a + rest)) : p.Follows spec held Q := by
  subst hheld
  refine (h.frame rest).mono ?_
  rintro a _ ⟨_, rfl, rfl⟩
  exact hQ a

/-- A section that meets its specification. -/
theorem uses_atomically {s : S} {need : Multiset T} {give : R s → Multiset T}
    (h : spec s need give) : (atomically s : SectionProg S R (R s)).Uses spec need give :=
  ⟨need, 0, give, h, (add_zero _).symm, fun _ => add_zero _⟩

end SectionProg

/-! ## Threads -/

/-- Threads `ι` that run sections `S` over a shared state `σ`. Labels `ℓ` say which call a thread
begins, and what the surroundings answer in a section. -/
structure SectionSystem (σ ι ℓ S : Type) (R : S → Type) where
  /-- The initial shared states. -/
  init : σ → Prop
  /-- A thread without a program begins a call. -/
  enter : σ → ι → ℓ → Option (SectionProg S R Unit × σ)
  /-- A thread runs a section; `none` if it has to wait, an error if it panics. -/
  act : σ → ι → ℓ → (s : S) → Option (Except String (R s × σ))

/-- The shared state, what each thread still has to run, and the panic that has stopped them. -/
structure Pool (σ ι S : Type) (R : S → Type) where
  shared : σ
  prog : ι → Option (SectionProg S R Unit)
  panic : Option String

namespace SectionSystem

open Function

variable {σ ι ℓ S : Type} {R : S → Type} [DecidableEq ι]

/-- The next step of the thread `i`. -/
def exec (M : SectionSystem σ ι ℓ S R) (P : Pool σ ι S R) (i : ι) (l : ℓ) :
    Option (Pool σ ι S R) :=
  if P.panic.isSome then none
  else match P.prog i with
    | none =>
      (M.enter P.shared i l).map fun (p, s') =>
        { P with shared := s', prog := update P.prog i (some p) }
    | some (.ret _) => some { P with prog := update P.prog i none }
    | some (.run s k) =>
      (M.act P.shared i l s).map fun
        | .error msg => { P with panic := some msg }
        | .ok (r, s') => { P with shared := s', prog := update P.prog i (some (k r)) }

/-- The runs of the threads. -/
def toTransitionSystem (M : SectionSystem σ ι ℓ S R) :
    TransitionSystem (Pool σ ι S R) (ι × ℓ) where
  init P := M.init P.shared ∧ (∀ i, P.prog i = none) ∧ P.panic = none
  step P l P' := M.exec P l.1 l.2 = some P'

/-- What a step of a thread can be. -/
theorem exec_cases {M : SectionSystem σ ι ℓ S R} {P P' : Pool σ ι S R} {i : ι} {l : ℓ}
    (h : M.exec P i l = some P') : P.panic = none ∧
    ((∃ p s', P.prog i = none ∧ M.enter P.shared i l = some (p, s') ∧
        P' = { P with shared := s', prog := update P.prog i (some p) }) ∨
      (∃ u, P.prog i = some (.ret u) ∧ P' = { P with prog := update P.prog i none }) ∨
      (∃ s k msg, P.prog i = some (.run s k) ∧ M.act P.shared i l s = some (.error msg) ∧
        P' = { P with panic := some msg }) ∨
      ∃ s k r s', P.prog i = some (.run s k) ∧ M.act P.shared i l s = some (.ok (r, s')) ∧
        P' = { P with shared := s', prog := update P.prog i (some (k r)) }) := by
  unfold exec at h
  split at h
  · cases h
  next hp =>
  refine ⟨by simpa using hp, ?_⟩
  split at h
  next hprog =>
    obtain ⟨⟨p, s'⟩, henter, rfl⟩ := Option.map_eq_some_iff.mp h
    exact .inl ⟨p, s', hprog, henter, rfl⟩
  next u hprog =>
    cases h
    exact .inr (.inl ⟨u, hprog, rfl⟩)
  next s k hprog =>
    obtain ⟨out, hact, hout⟩ := Option.map_eq_some_iff.mp h
    cases out with
    | error msg => exact .inr (.inr (.inl ⟨s, k, msg, hprog, hact, hout.symm⟩))
    | ok r => exact .inr (.inr (.inr ⟨s, k, r.1, r.2, hprog, hact, hout.symm⟩))

end SectionSystem

/-! ## The logic -/

/-- The sections of `M` meet the specification of each thread, the tokens being counted by
`balance`, and keep the invariant `Inv` of the shared state. No section that has its tokens panics
with a message in `Bad`. A call begins with the tokens that it takes from the shared state, and ends
with none. -/
structure TokenLogic {σ ι ℓ S : Type} {R : S → Type} {T : Type} [DecidableEq T]
    (M : SectionSystem σ ι ℓ S R) (spec : ι → SectionProg.Spec S R T) (balance : σ → T → ℤ)
    (Inv : σ → Prop) (Bad : String → Prop) : Prop where
  init : ∀ {s}, M.init s → Inv s ∧ ∀ t, balance s t = 0
  enter : ∀ {s i l p s'}, Inv s → M.enter s i l = some (p, s') → Inv s' ∧
    ∃ need, (∀ t, balance s' t = balance s t + need.count t) ∧ p.Uses (spec i) need fun _ => 0
  act : ∀ {s i l sec r s' need give}, Inv s → spec i sec need give →
    (∀ t, (need.count t : ℤ) ≤ balance s t) → M.act s i l sec = some (.ok (r, s')) →
    Inv s' ∧ ∀ t, balance s' t + need.count t = balance s t + (give r).count t
  panic : ∀ {s i l sec msg need give}, Inv s → spec i sec need give →
    (∀ t, (need.count t : ℤ) ≤ balance s t) → M.act s i l sec = some (.error msg) → ¬Bad msg

namespace TokenLogic

open Function

variable {σ ι ℓ S : Type} {R : S → Type} {T : Type} [DecidableEq T] [DecidableEq ι] [Fintype ι]
  {M : SectionSystem σ ι ℓ S R} {spec : ι → SectionProg.Spec S R T} {balance : σ → T → ℤ}
  {Inv : σ → Prop} {Bad : String → Prop}

/-- The threads hold the tokens `held`, which account for the balance of the shared state and with
which every thread follows its program. -/
structure Ledger (spec : ι → SectionProg.Spec S R T) (balance : σ → T → ℤ) (P : Pool σ ι S R)
    (held : ι → Multiset T) : Prop where
  balance_eq : ∀ t, balance P.shared t = ∑ i, ((held i).count t : ℤ)
  idle : ∀ {i}, P.prog i = none → held i = 0
  follows : ∀ {i p}, P.prog i = some p → p.Uses (spec i) (held i) fun _ => 0

omit [DecidableEq ι] in
/-- What a thread needs of what it holds is no more than the balance of the shared state. -/
theorem Ledger.need_le {P : Pool σ ι S R} {held : ι → Multiset T} {i : ι} {need rest : Multiset T}
    (h : Ledger spec balance P held) (hheld : held i = need + rest) (t : T) :
    (need.count t : ℤ) ≤ balance P.shared t := by
  have hle := Finset.single_le_sum (f := fun j => ((held j).count t : ℤ))
    (fun j _ => Int.natCast_nonneg _) (Finset.mem_univ i)
  rw [h.balance_eq]
  rw [hheld, Multiset.count_add] at hle
  omega

/-- A thread changes its tokens and its program, and the shared state accounts for it. -/
theorem Ledger.update {P P' : Pool σ ι S R} {held : ι → Multiset T} {i : ι}
    {prog : Option (SectionProg S R Unit)} {h : Multiset T} (hP : Ledger spec balance P held)
    (hprog : P'.prog = update P.prog i prog)
    (hbalance : ∀ t, balance P'.shared t + (held i).count t = balance P.shared t + h.count t)
    (hidle : prog = none → h = 0)
    (hfollows : ∀ p, prog = some p → p.Uses (spec i) h fun _ => 0) :
    Ledger spec balance P' (update held i h) := by
  refine ⟨fun t => ?_, fun {j} hj => ?_, fun {j p} hj => ?_⟩
  · have hb := hbalance t
    have hsum := Finset.sum_update_add (fun m : Multiset T => (m.count t : ℤ)) held i h
    rw [hP.balance_eq t] at hb
    omega
  · rw [hprog] at hj
    by_cases hji : j = i
    · subst hji
      rw [update_self] at hj ⊢
      exact hidle hj
    · rw [update_of_ne hji] at hj ⊢
      exact hP.idle hj
  · rw [hprog] at hj
    by_cases hji : j = i
    · subst hji
      rw [update_self] at hj ⊢
      exact hfollows p hj
    · rw [update_of_ne hji] at hj ⊢
      exact hP.follows hj

/-- In every reachable state the threads hold tokens that account for the balance, the invariant
holds, and an excluded panic has not happened. -/
theorem ledger (L : TokenLogic M spec balance Inv Bad) {P : Pool σ ι S R}
    (h : M.toTransitionSystem.Reachable P) :
    Inv P.shared ∧ (∃ held, Ledger spec balance P held) ∧ ∀ msg, P.panic = some msg → ¬Bad msg := by
  refine h.invariant (I := fun P => Inv P.shared ∧ (∃ held, Ledger spec balance P held) ∧
    ∀ msg, P.panic = some msg → ¬Bad msg) ?_ ?_
  · rintro P ⟨hinit, hprog, hpanic⟩
    obtain ⟨hinv, hbalance⟩ := L.init hinit
    refine ⟨hinv, ⟨fun _ => 0, fun t => by simp [hbalance t], fun _ => rfl, fun hp => ?_⟩, ?_⟩
    · rw [hprog] at hp
      cases hp
    · rw [hpanic]
      simp
  · rintro P ⟨i, l⟩ P' - ⟨hinv, ⟨held, hP⟩, hbad⟩ hstep
    obtain ⟨hpanic, hcases⟩ := SectionSystem.exec_cases hstep
    rcases hcases with ⟨p, s', hprog, henter, rfl⟩ | ⟨u, hprog, rfl⟩ |
      ⟨sec, k, msg, hprog, hact, rfl⟩ | ⟨sec, k, r, s', hprog, hact, rfl⟩
    · -- a call begins with the tokens that it takes from the shared state
      obtain ⟨hinv', need, hbalance, huses⟩ := L.enter hinv henter
      refine ⟨hinv', ⟨_, hP.update rfl (h := need) ?_ (by simp) fun q hq => ?_⟩, hbad⟩
      · intro t
        rw [hP.idle hprog, Multiset.count_zero, hbalance t]
        simp
      · cases hq
        exact huses
    · -- a call ends without tokens
      have hzero : held i = 0 := hP.follows hprog
      refine ⟨hinv, ⟨_, hP.update rfl (h := 0) ?_ (fun _ => rfl) (by simp)⟩, hbad⟩
      intro t
      rw [hzero]
    · obtain ⟨need, rest, give, hspec, hheld, -⟩ := hP.follows hprog
      refine ⟨hinv, ⟨held, hP.balance_eq, hP.idle, hP.follows⟩, ?_⟩
      rintro _ ⟨⟩
      exact L.panic hinv hspec (hP.need_le hheld) hact
    · obtain ⟨need, rest, give, hspec, hheld, hk⟩ := hP.follows hprog
      obtain ⟨hinv', hbalance⟩ := L.act hinv hspec (hP.need_le hheld) hact
      refine ⟨hinv', ⟨_, hP.update rfl (h := give r + rest) ?_ (by simp) fun q hq => ?_⟩, hbad⟩
      · intro t
        have hb := hbalance t
        rw [hheld, Multiset.count_add, Multiset.count_add]
        push_cast
        omega
      · cases hq
        exact hk r

end TokenLogic
