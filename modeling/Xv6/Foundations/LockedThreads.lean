import Mathlib

/-!
# Threads that share locked resources

A `Thread` is a program that locks resources, reads a resource when it gets the lock, writes
resources that it has locked and releases them again. A `Machine` runs any number of threads over
one set of resources, one operation at a time, in any order. A thread that wants a resource which is
locked waits.

* `Thread.run` runs a thread alone. Sequencing of threads is sequencing of runs (`run_bind`).
* `Thread.Ordered` says that a thread locks resources in the order of a relation. If all threads do
  so for a linear order, none of them can wait for itself through others
  (`Machine.not_waits_cycle`). A thread that locks nothing twice, while no other thread holds a
  resource, does in the machine what `Thread.run` says (`Machine.exists_runAlone`).
-/

/-- A program over resources `ι` with values `V`, which returns an `α`. -/
inductive Thread (ι V α : Type) where
  /-- Return a result. -/
  | ret (a : α)
  /-- Lock a resource and read its value. -/
  | acquire (i : ι) (k : V → Thread ι V α)
  /-- Change the value of a resource. -/
  | write (i : ι) (v : V) (k : Thread ι V α)
  /-- Release a resource. -/
  | release (i : ι) (k : Thread ι V α)

namespace Thread

open Function

variable {ι V α β : Type}

/-- Sequencing. -/
def bind : Thread ι V α → (α → Thread ι V β) → Thread ι V β
  | .ret a, f => f a
  | .acquire i k, f => .acquire i fun v => (k v).bind f
  | .write i v k, f => .write i v (k.bind f)
  | .release i k, f => .release i (k.bind f)

instance : Monad (Thread ι V) where
  pure := .ret
  bind := .bind

@[simp]
lemma pure_eq (a : α) : (pure a : Thread ι V α) = .ret a := rfl

@[simp]
lemma ret_bind (a : α) (f : α → Thread ι V β) : (.ret a >>= f) = f a := rfl

@[simp]
lemma acquire_bind (i : ι) (k : V → Thread ι V α) (f : α → Thread ι V β) :
    (.acquire i k >>= f) = .acquire i fun v => k v >>= f := rfl

@[simp]
lemma write_bind (i : ι) (v : V) (k : Thread ι V α) (f : α → Thread ι V β) :
    (.write i v k >>= f) = .write i v (k >>= f) := rfl

@[simp]
lemma release_bind (i : ι) (k : Thread ι V α) (f : α → Thread ι V β) :
    (.release i k >>= f) = .release i (k >>= f) := rfl

lemma bind_assoc {γ : Type} (t : Thread ι V α) (f : α → Thread ι V β) (g : β → Thread ι V γ) :
    (t >>= f >>= g) = t >>= fun a => f a >>= g := by
  induction t with
  | ret a => rfl
  | acquire i k ih => exact congrArg (Thread.acquire i) (funext ih)
  | write i v k ih => exact congrArg (Thread.write i v) ih
  | release i k ih => exact congrArg (Thread.release i) ih

/-! ## Running alone -/

/-- Run a thread alone from the values `g`. -/
def run [DecidableEq ι] : Thread ι V α → (ι → V) → α × (ι → V)
  | .ret a, g => (a, g)
  | .acquire i k, g => (k (g i)).run g
  | .write i v k, g => k.run (update g i v)
  | .release _ k, g => k.run g

lemma run_bind [DecidableEq ι] (t : Thread ι V α) (f : α → Thread ι V β) (g : ι → V) :
    (t >>= f).run g = (f (t.run g).1).run (t.run g).2 := by
  induction t generalizing g with
  | ret a => rfl
  | acquire i k ih => exact ih (g i) g
  | write i v k ih => exact ih _
  | release i k ih => exact ih g

/-- The resources that a thread locks, in order, when it runs alone from the values `g`. -/
def footprint [DecidableEq ι] : Thread ι V α → (ι → V) → List ι
  | .ret _, _ => []
  | .acquire i k, g => i :: (k (g i)).footprint g
  | .write i v k, g => k.footprint (update g i v)
  | .release _ k, g => k.footprint g

lemma footprint_bind [DecidableEq ι] (t : Thread ι V α) (f : α → Thread ι V β) (g : ι → V) :
    (t >>= f).footprint g = t.footprint g ++ (f (t.run g).1).footprint (t.run g).2 := by
  induction t generalizing g with
  | ret a => rfl
  | acquire i k ih => exact congrArg (i :: ·) (ih (g i) g)
  | write i v k ih => exact ih _
  | release i k ih => exact ih g

/-! ## Order of locking -/

/-- Holding the resources `held`, the thread locks only resources that come after these by `r`,
writes and releases only what it holds, and returns holding `left`. -/
def Ordered (r : ι → ι → Prop) (left : Set ι) : Thread ι V α → Set ι → Prop
  | .ret _, held => held = left
  | .acquire i k, held => (∀ j ∈ held, r j i) ∧ ∀ v, (k v).Ordered r left (insert i held)
  | .write i _ k, held => i ∈ held ∧ k.Ordered r left held
  | .release i k, held => i ∈ held ∧ k.Ordered r left (held \ {i})

lemma Ordered.bind {r : ι → ι → Prop} {left left' held : Set ι} {t : Thread ι V α}
    {f : α → Thread ι V β} (ht : t.Ordered r left held) (hf : ∀ a, (f a).Ordered r left' left) :
    (t >>= f).Ordered r left' held := by
  induction t generalizing held with
  | ret a =>
    obtain rfl : held = left := ht
    exact hf a
  | acquire i k ih => exact ⟨ht.1, fun v => ih v (ht.2 v)⟩
  | write i v k ih | release i k ih => exact ⟨ht.1, ih ht.2⟩

end Thread

/-- Threads `P` over shared resources. -/
structure Machine (P ι V α : Type) where
  /-- The value of each resource. -/
  value : ι → V
  /-- The thread that has locked the resource. -/
  holder : ι → Option P
  /-- What each thread has still to do. -/
  thread : P → Thread ι V α

namespace Machine

open Function

variable {P ι V α : Type} [DecidableEq P] [DecidableEq ι] {m m' : Machine P ι V α} {p q : P}

/-- Let thread `q` go on with `t`. -/
def resume (m : Machine P ι V α) (q : P) (t : Thread ι V α) : Machine P ι V α :=
  { m with thread := update m.thread q t }

omit [DecidableEq ι] in
@[simp]
lemma resume_self (m : Machine P ι V α) (q : P) (t : Thread ι V α) :
    (m.resume q t).thread q = t := update_self _ _ _

omit [DecidableEq ι] in
lemma resume_of_ne (m : Machine P ι V α) (t : Thread ι V α) (h : p ≠ q) :
    (m.resume q t).thread p = m.thread p := update_of_ne h _ _

/-- One operation of thread `q`, if it has one and does not have to wait. -/
def exec (m : Machine P ι V α) (q : P) : Option (Machine P ι V α) :=
  match m.thread q with
  | .ret _ => none
  | .acquire i k =>
    if m.holder i = none then
      some ({ m with holder := update m.holder i (some q) }.resume q (k (m.value i)))
    else none
  | .write i v k => some ({ m with value := update m.value i v }.resume q k)
  | .release i k => some ({ m with holder := update m.holder i none }.resume q k)

/-- What an operation of thread `q` can be. -/
inductive Exec (m : Machine P ι V α) (q : P) : Machine P ι V α → Prop
  | acquire (i : ι) (k : V → Thread ι V α) (hthread : m.thread q = .acquire i k)
      (hfree : m.holder i = none) :
      Exec m q ({ m with holder := update m.holder i (some q) }.resume q (k (m.value i)))
  | write (i : ι) (v : V) (k : Thread ι V α) (hthread : m.thread q = .write i v k) :
      Exec m q ({ m with value := update m.value i v }.resume q k)
  | release (i : ι) (k : Thread ι V α) (hthread : m.thread q = .release i k) :
      Exec m q ({ m with holder := update m.holder i none }.resume q k)

lemma exec_cases (h : m.exec q = some m') : m.Exec q m' := by
  unfold exec at h
  split at h
  · cases h
  · next i k hthread =>
    split_ifs at h with hfree
    cases h
    exact .acquire i k hthread hfree
  · next i v k hthread =>
    cases h
    exact .write i v k hthread
  · next i k hthread =>
    cases h
    exact .release i k hthread

/-- The resources that thread `q` has locked. -/
def held (m : Machine P ι V α) (q : P) : Set ι := {i | m.holder i = some q}

/-- Thread `q` waits for a resource that thread `p` has locked. -/
def Waits (m : Machine P ι V α) (q p : P) : Prop :=
  ∃ i k, m.thread q = .acquire i k ∧ m.holder i = some p

omit [DecidableEq P] in
/-- What one thread does to the locks of the others: nothing. -/
theorem held_update_of_ne {holder : ι → Option P} {i : ι} {o : Option P} (hp : o ≠ some p)
    (hi : holder i ≠ some p) :
    {j | update holder i o j = some p} = {j | holder j = some p} := by
  ext j
  change update holder i o j = some p ↔ holder j = some p
  by_cases hj : j = i
  · subst hj
    rw [update_self]
    exact iff_of_false hp hi
  · rw [update_of_ne hj]

/-- The thread for which thread `q` waits. -/
def waitsFor (m : Machine P ι V α) (q : P) : Option P :=
  match m.thread q with
  | .acquire i _ => m.holder i
  | _ => none

omit [DecidableEq P] [DecidableEq ι] in
lemma waits_of_waitsFor (h : m.waitsFor q = some p) : m.Waits q p := by
  unfold waitsFor at h
  split at h
  · next i k hthread => exact ⟨i, k, hthread, h⟩
  · cases h

/-- An operation keeps the order of the thread itself. -/
theorem ordered_exec_self {r : ι → ι → Prop} (hself : (m.thread q).Ordered r ∅ (m.held q))
    (h : m.exec q = some m') : (m'.thread q).Ordered r ∅ (m'.held q) := by
  cases exec_cases h with
  | acquire i k hthread hfree =>
    rw [hthread] at hself
    have hheld : {j | update m.holder i (some q) j = some q} = insert i (m.held q) := by
      ext j
      change update m.holder i (some q) j = some q ↔ j = i ∨ m.holder j = some q
      by_cases hj : j = i <;> simp [hj]
    change ((update m.thread q (k (m.value i))) q).Ordered r ∅
      {j | update m.holder i (some q) j = some q}
    rw [update_self, hheld]
    exact hself.2 _
  | write i v k hthread =>
    rw [hthread] at hself
    change ((update m.thread q k) q).Ordered r ∅ (m.held q)
    rw [update_self]
    exact hself.2
  | release i k hthread =>
    rw [hthread] at hself
    have hheld : {j | update m.holder i none j = some q} = m.held q \ {i} := by
      ext j
      change update m.holder i none j = some q ↔ m.holder j = some q ∧ j ≠ i
      by_cases hj : j = i <;> simp [hj]
    change ((update m.thread q k) q).Ordered r ∅ {j | update m.holder i none j = some q}
    rw [update_self, hheld]
    exact hself.2

omit [DecidableEq P] in
lemma eq_of_holder_update {holder : ι → Option P} {i : ι} {o : Option P}
    (ho : ∀ p, o = some p → p = q) (h : ∀ j p, holder j = some p → p = q) (j : ι) (p : P)
    (hp : update holder i o j = some p) : p = q := by
  rw [update_apply] at hp
  split_ifs at hp
  · exact ho p hp
  · exact h j p hp

/-- A thread that locks nothing twice never waits while no other thread holds a resource. On its own
it gets to the end, with the result and the values of `Thread.run`. -/
theorem exists_runAlone {r : ι → ι → Prop} (hirrefl : ∀ i, ¬ r i i)
    (ht : (m.thread q).Ordered r ∅ (m.held q)) (hothers : ∀ i p, m.holder i = some p → p = q) :
    ∃ m', Relation.ReflTransGen (fun m m' => m.exec q = some m') m m' ∧
      (∀ i, m'.holder i = none) ∧ m'.thread q = .ret ((m.thread q).run m.value).1 ∧
      m'.value = ((m.thread q).run m.value).2 := by
  generalize hthread : m.thread q = t
  induction t generalizing m with
  | ret a =>
    rw [hthread] at ht
    refine ⟨m, .refl, fun i => ?_, hthread, rfl⟩
    by_contra hi
    obtain ⟨p, hp⟩ := Option.ne_none_iff_exists'.mp hi
    have hmem : i ∈ m.held q := hothers i p hp ▸ hp
    rw [show m.held q = ∅ from ht] at hmem
    exact hmem
  | acquire i k ih =>
    -- only `q` itself could hold `i`, and it does not lock twice
    have hfree : m.holder i = none := by
      by_contra hi
      obtain ⟨p, hp⟩ := Option.ne_none_iff_exists'.mp hi
      rw [hthread] at ht
      exact hirrefl i (ht.1 i (hothers i p hp ▸ hp))
    have hexec : m.exec q = some ({ m with holder := update m.holder i (some q) }.resume q
        (k (m.value i))) := by
      simp only [exec, hthread, if_pos hfree]
    obtain ⟨m', hrun, hdone⟩ := ih (m.value i) (ordered_exec_self ht hexec)
      (eq_of_holder_update (fun p hp => (Option.some.inj hp).symm) hothers) (resume_self ..)
    exact ⟨m', hrun.head hexec, hdone⟩
  | write i v k ih =>
    have hexec : m.exec q = some ({ m with value := update m.value i v }.resume q k) := by
      simp only [exec, hthread]
    obtain ⟨m', hrun, hdone⟩ := ih (ordered_exec_self ht hexec) hothers (resume_self ..)
    exact ⟨m', hrun.head hexec, hdone⟩
  | release i k ih =>
    have hexec : m.exec q = some ({ m with holder := update m.holder i none }.resume q k) := by
      simp only [exec, hthread]
    obtain ⟨m', hrun, hdone⟩ := ih (ordered_exec_self ht hexec)
      (eq_of_holder_update (by simp) hothers) (resume_self ..)
    exact ⟨m', hrun.head hexec, hdone⟩

section Order

variable [LinearOrder ι]

/-- Every thread locks resources in increasing order and releases all of them in the end. -/
def Ordered (m : Machine P ι V α) : Prop := ∀ q, (m.thread q).Ordered (· < ·) ∅ (m.held q)

/-- An operation keeps the order. -/
theorem Ordered.exec (hm : m.Ordered) (h : m.exec q = some m') : m'.Ordered := by
  have hself := hm q
  intro p
  by_cases hpq : p = q
  · subst hpq
    exact ordered_exec_self hself h
  · -- the other threads stand where they stood, with the same locks
    have hp := hm p
    have hqp : some q ≠ some p := fun heq => hpq (Option.some.inj heq).symm
    cases exec_cases h with
    | acquire i k hthread hfree =>
      change ((update m.thread q _) p).Ordered (· < ·) ∅
        {j | update m.holder i (some q) j = some p}
      rw [update_of_ne hpq, held_update_of_ne hqp (by rw [hfree]; simp)]
      exact hp
    | write i v k hthread =>
      change ((update m.thread q _) p).Ordered (· < ·) ∅ (m.held p)
      rw [update_of_ne hpq]
      exact hp
    | release i k hthread =>
      rw [hthread] at hself
      have hi : m.holder i = some q := hself.1
      change ((update m.thread q _) p).Ordered (· < ·) ∅
        {j | update m.holder i none j = some p}
      rw [update_of_ne hpq, held_update_of_ne (by simp) (by rw [hi]; exact hqp)]
      exact hp

omit [DecidableEq ι] in
/-- A thread that has returned goes on with an ordered program. -/
theorem Ordered.resume {a : α} {t : Thread ι V α} (hm : m.Ordered) (hret : m.thread q = .ret a)
    (ht : t.Ordered (· < ·) ∅ ∅) : (m.resume q t).Ordered := by
  intro p
  change (update m.thread q t p).Ordered (· < ·) ∅ (m.held p)
  by_cases hpq : p = q
  · subst hpq
    have hheld : m.held p = ∅ := by
      have := hm p
      rw [hret] at this
      exact this
    rw [update_self, hheld]
    exact ht
  · rw [update_of_ne hpq]
    exact hm p

omit [DecidableEq P] [DecidableEq ι] in
/-- If every thread locks in increasing order, no thread waits for itself through others. -/
theorem not_waits_cycle (hm : m.Ordered) (q : P) : ¬ Relation.TransGen m.Waits q q := by
  -- along the waiting threads the wanted resources increase
  have hchain : ∀ {p : P}, Relation.TransGen m.Waits q p →
      ∃ i k j, m.thread q = .acquire i k ∧ m.holder j = some p ∧ i ≤ j := by
    intro p hwait
    induction hwait with
    | single h =>
      obtain ⟨i, k, hthread, hholder⟩ := h
      exact ⟨i, k, i, hthread, hholder, le_rfl⟩
    | tail _ h ih =>
      obtain ⟨i, k, j, hthread, hholder, hle⟩ := ih
      obtain ⟨j', k', hthread', hholder'⟩ := h
      rename_i b c _
      have hb := hm b
      rw [hthread'] at hb
      exact ⟨i, k, j', hthread, hholder', hle.trans (hb.1 j hholder).le⟩
  intro hcycle
  obtain ⟨i, k, j, hthread, hholder, hle⟩ := hchain hcycle
  have hq := hm q
  rw [hthread] at hq
  exact absurd (hq.1 j hholder) (not_lt.mpr hle)

end Order

end Machine
