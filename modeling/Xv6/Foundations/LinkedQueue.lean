import Mathlib

/-!
# Singly linked queues

A queue whose links live in its elements: a head pointer and a function `next`. The loops that walk
the links are functions with fuel that return `none` when the fuel runs out, which is how a walk
over a cyclic list shows.

`Chain next head l` says that the walk from `head` visits exactly `l` and then ends. The operations
are specified by what they do to `l`: `enqueue` appends, `dequeue` erases, and clearing the link of
an element cuts the list behind it.
-/

namespace LinkedQueue

open Function List

variable {α : Type*}

/-- Following the links from `head` visits `l` and ends. -/
inductive Chain (next : α → Option α) : Option α → List α → Prop
  | nil : Chain next none []
  | cons {a : α} {l : List α} : Chain next (next a) l → Chain next (some a) (a :: l)

/-- The elements visited by `for (p = head; p != 0; p = p->next)`. -/
def collect (next : α → Option α) : ℕ → Option α → Option (List α)
  | _, none => some []
  | 0, some _ => none
  | fuel + 1, some a => (collect next fuel (next a)).map (a :: ·)

/-- `while (p->next != 0) p = p->next;`. -/
def last (next : α → Option α) : ℕ → α → Option α
  | 0, _ => none
  | fuel + 1, p =>
    match next p with
    | none => some p
    | some q => last next fuel q

variable [DecidableEq α]

/-- `while (q && q->next != b) q = q->next;`. -/
def findPred (next : α → Option α) (b : α) : ℕ → Option α → Option (Option α)
  | 0, _ => none
  | _ + 1, none => some none
  | fuel + 1, some q => if next q = some b then some (some q) else findPred next b fuel (next q)

/-- Append `b`: clear its link, then make it the head or link it behind the last element. -/
def enqueue (fuel : ℕ) (b : α) (head : Option α) (next : α → Option α) :
    Option (Option α × (α → Option α)) :=
  let next := update next b none
  match head with
  | none => some (some b, next)
  | some p => (last next fuel p).map fun p => (head, update next p (some b))

/-- Unlink `b`: move the head past it, or link its predecessor to its successor. -/
def dequeue (fuel : ℕ) (b : α) (head : Option α) (next : α → Option α) :
    Option (Option α × (α → Option α)) :=
  if head = some b then some (next b, next)
  else (findPred next b fuel head).map fun
    | some q => (head, update next q (next b))
    | none => (head, next)

namespace Chain

variable {next : α → Option α} {head : Option α} {l l' l₁ l₂ : List α} {a b : α}

omit [DecidableEq α] in
/-- The elements visited are determined by the links. -/
theorem unique (h : Chain next head l) (h' : Chain next head l') : l = l' := by
  induction h generalizing l' with
  | nil => cases h'; rfl
  | cons _ ih =>
    cases h' with
    | cons h' => rw [ih h']

omit [DecidableEq α] in
lemma collect_eq (h : Chain next head l) {fuel : ℕ} (hfuel : l.length ≤ fuel) :
    collect next fuel head = some l := by
  induction h generalizing fuel with
  | nil => cases fuel <;> rfl
  | cons _ ih =>
    cases fuel with
    | zero => simp at hfuel
    | succ fuel =>
      rw [collect, ih (by simpa using hfuel)]
      rfl

/-- Changing the link of an element that is not visited changes nothing. -/
theorem update_of_notMem (h : Chain next head l) (ha : a ∉ l) (v : Option α) :
    Chain (update next a v) head l := by
  induction h with
  | nil => exact .nil
  | @cons c l _ ih =>
    have hne : a ≠ c := fun hc => ha (by simp [hc])
    have hl : a ∉ l := fun hm => ha (by simp [hm])
    refine .cons ?_
    rw [update_of_ne (Ne.symm hne)]
    exact ih hl

/-- Replacing the link of a visited element replaces what comes behind it. -/
theorem update_link (h : Chain next head (l₁ ++ a :: l₂)) (hn : (l₁ ++ a :: l₂).Nodup)
    {v : Option α} (hv : Chain (update next a v) v l') :
    Chain (update next a v) head (l₁ ++ a :: l') := by
  induction l₁ generalizing head with
  | nil =>
    cases h
    refine .cons ?_
    rwa [update_self]
  | cons c l₁ ih =>
    obtain ⟨hc, hn'⟩ := nodup_cons.mp hn
    cases h with
    | cons h =>
      have hne : c ≠ a := by
        rintro rfl
        exact hc (by simp)
      refine .cons ?_
      rw [update_of_ne hne]
      exact ih h hn'

omit [DecidableEq α] in
/-- What comes behind a visited element. -/
theorem tail_of_append (h : Chain next head (l₁ ++ a :: l₂)) : Chain next (next a) l₂ := by
  induction l₁ generalizing head with
  | nil =>
    cases h with
    | cons h => exact h
  | cons c l₁ ih =>
    cases h with
    | cons h => exact ih h

/-- Clearing the link of a visited element cuts the list behind it. -/
theorem clear_link (h : Chain next head (l₁ ++ a :: l₂)) (hn : (l₁ ++ a :: l₂).Nodup) :
    Chain (update next a none) head (l₁ ++ [a]) :=
  h.update_link hn .nil

omit [DecidableEq α] in
/-- The walk to the last element. -/
theorem last_eq (h : Chain next (some a) (l ++ [b])) {fuel : ℕ} (hfuel : l.length < fuel) :
    last next fuel a = some b := by
  induction l generalizing a fuel with
  | nil =>
    cases fuel with
    | zero => simp at hfuel
    | succ fuel =>
      cases h with
      | cons h =>
        have hnone : next b = none := by
          cases h' : next b with
          | none => rfl
          | some c => rw [h'] at h; cases h
        rw [last, hnone]
  | cons c l ih =>
    cases fuel with
    | zero => simp at hfuel
    | succ fuel =>
      cases h with
      | cons h =>
        cases h' : next c with
        | none => rw [h'] at h; cases l <;> cases h
        | some d =>
          rw [h'] at h
          rw [last, h']
          exact ih h (by simpa using hfuel)

/-- The walk to the predecessor. -/
theorem findPred_eq (h : Chain next head (l₁ ++ a :: b :: l₂)) (hn : (l₁ ++ a :: b :: l₂).Nodup)
    {fuel : ℕ} (hfuel : l₁.length < fuel) : findPred next b fuel head = some (some a) := by
  induction l₁ generalizing head fuel with
  | nil =>
    cases fuel with
    | zero => simp at hfuel
    | succ fuel =>
      cases h with
      | cons h =>
        have hlink : next a = some b := by
          cases h' : next a with
          | none => rw [h'] at h; cases h
          | some c => rw [h'] at h; cases h; rfl
        rw [findPred, if_pos hlink]
  | cons c l₁ ih =>
    cases fuel with
    | zero => simp at hfuel
    | succ fuel =>
      obtain ⟨hc, hn'⟩ := nodup_cons.mp hn
      cases h with
      | cons h =>
        -- `b` comes later, so it is not what `c` links to
        have hlink : next c ≠ some b := by
          intro hcb
          rw [hcb] at h
          cases l₁ with
          | nil | cons => cases h; simp at hn'
        rw [findPred, if_neg hlink]
        exact ih h hn' (by simpa using hfuel)

/-- `enqueue` appends to the list. -/
theorem enqueue_spec (h : Chain next head l) (hn : l.Nodup) (hb : b ∉ l) {fuel : ℕ}
    (hfuel : l.length ≤ fuel) :
    ∃ head' next', enqueue fuel b head next = some (head', next') ∧
      Chain next' head' (l ++ [b]) := by
  have hclear := h.update_of_notMem hb none
  have hself : Chain (update next b none) (some b) [b] := by
    refine .cons ?_
    rw [update_self]
    exact .nil
  rcases eq_nil_or_concat' l with rfl | ⟨l, c, rfl⟩
  · cases h
    exact ⟨_, _, rfl, hself⟩
  · cases head with
    | none => cases l <;> cases h
    | some a =>
      have hlen : l.length < fuel := by
        rw [length_append, length_singleton] at hfuel
        omega
      have hlast := hclear.last_eq hlen
      refine ⟨_, _, by rw [enqueue, hlast]; rfl, ?_⟩
      have hbc : b ≠ c := by
        rintro rfl
        simp at hb
      have htail : Chain (update (update next b none) c (some b)) (some b)
          [b] := hself.update_of_notMem (by simpa using hbc.symm) _
      have hlink := hclear.update_link hn htail
      simpa using hlink

/-- `dequeue` erases from the list. -/
theorem dequeue_spec (h : Chain next head l) (hn : l.Nodup) (hb : b ∈ l) {fuel : ℕ}
    (hfuel : l.length ≤ fuel) :
    ∃ head' next', dequeue fuel b head next = some (head', next') ∧
      Chain next' head' (l.erase b) := by
  obtain ⟨l₁, l₂, rfl⟩ := append_of_mem hb
  rcases eq_nil_or_concat' l₁ with rfl | ⟨l₁, a, rfl⟩
  · cases h with
    | cons h => exact ⟨_, _, by rw [dequeue, if_pos rfl], by simpa using h⟩
  · rw [append_assoc] at h hn hfuel
    have hb₁ : b ∉ l₁ ++ [a] := by
      intro hmem
      rw [← append_assoc] at hn
      exact (nodup_append.mp hn).2.2 b hmem b (by simp) rfl
    have hhead : head ≠ some b := by
      rintro rfl
      cases l₁ with
      | nil | cons => cases h; simp at hb₁
    have hpred : findPred next b fuel head = some (some a) :=
      h.findPred_eq hn (by simp at hfuel; omega)
    refine ⟨_, _, by rw [dequeue, if_neg hhead, hpred]; rfl, ?_⟩
    have htail : Chain next (next b) l₂ := by
      have h' := h
      rw [← singleton_append, ← append_assoc] at h'
      exact h'.tail_of_append
    have ha : a ∉ l₂ := by
      intro hmem
      have hn' := (nodup_append.mp hn).2.1
      simp [hmem] at hn'
    rw [erase_append_right _ hb₁, erase_cons_head]
    have hlink := h.update_link hn (htail.update_of_notMem ha (next b))
    simpa using hlink

end Chain

end LinkedQueue
