import Mathlib

/-!
# Circular doubly linked lists

Nodes of type `B` and a head are linked through `next` and `prev`. `Ring L l` says that the links
form one circle, which from the head on contains the nodes of the list `l`. Taking a node out and
putting one in right after the head are the pointer assignments that C code makes, in their order.

## Main results

* `Ring.unlink`, `Ring.pushFront`: what the assignments do to the list.
* `Ring.scan_next`, `Ring.scan_prev`: a loop along the links is a search of the list, from its front
  or from its back.
-/

/-- The links of the nodes; `none` is the head. -/
structure CircularLinks (B : Type) where
  next : Option B → Option B
  prev : Option B → Option B

namespace CircularLinks

open Function List

variable {B : Type}

/-- The nodes are linked in both directions. -/
def Joined (L : CircularLinks B) (x y : Option B) : Prop := L.next x = y ∧ L.prev y = x

/-- The links form one circle of the head and the nodes of `l`. -/
structure Ring (L : CircularLinks B) (l : List B) : Prop where
  chain : List.IsChain L.Joined (none :: (l.map some ++ [none]))
  nodup : l.Nodup

/-- A head without nodes. -/
def empty : CircularLinks B := ⟨fun _ => none, fun _ => none⟩

lemma ring_empty : (empty : CircularLinks B).Ring [] :=
  ⟨by simp [Joined, empty], nodup_nil⟩

variable [DecidableEq B]

/-- `b->next->prev = b->prev; b->prev->next = b->next;` -/
def unlink (L : CircularLinks B) (b : B) : CircularLinks B :=
  let prev := update L.prev (L.next (some b)) (L.prev (some b))
  let next := update L.next (prev (some b)) (L.next (some b))
  ⟨next, prev⟩

/-- `b->next = head.next; b->prev = &head; head.next->prev = b; head.next = b;` -/
def pushFront (L : CircularLinks B) (b : B) : CircularLinks B :=
  let next := update L.next (some b) (L.next none)
  let prev := update L.prev (some b) none
  let prev := update prev (next none) (some b)
  let next := update next none (some b)
  ⟨next, prev⟩

/-- A loop along the links `step`, until it is back at the head. -/
def scan (step : Option B → Option B) (pred : B → Bool) : ℕ → Option B → Option B
  | 0, _ => none
  | _, none => none
  | fuel + 1, some b => if pred b then some b else scan step pred fuel (step (some b))

namespace Ring

variable {L : CircularLinks B} {l l₁ l₂ : List B} {b : B}

/-- The node `b` is taken out. -/
theorem unlink (h : L.Ring (l₁ ++ b :: l₂)) : (L.unlink b).Ring (l₁ ++ l₂) := by
  obtain ⟨hchain, hnodup⟩ := h
  have hb : b ∉ l₁ ∧ b ∉ l₂ := by
    have hmid := nodup_middle.mp hnodup
    have hnot := (nodup_cons.mp hmid).1
    exact ⟨fun h => hnot (mem_append_left _ h), fun h => hnot (mem_append_right _ h)⟩
  refine ⟨?_, (nodup_cons.mp (nodup_middle.mp hnodup)).2⟩
  -- `a` is the node before `b`, and `c` the one after it
  obtain ⟨A, a, hA⟩ : ∃ A a, none :: l₁.map some = A ++ [a] :=
    ⟨_, _, (dropLast_append_getLast (cons_ne_nil _ _)).symm⟩
  obtain ⟨c, C, hC⟩ : ∃ c C, l₂.map some ++ [none] = c :: C :=
    exists_cons_of_ne_nil (by simp)
  have hbA : some b ∉ A ++ [a] := by
    rw [← hA]
    simpa using hb.1
  have hbC : some b ∉ c :: C := by
    rw [← hC]
    simpa using hb.2
  have hnodes : none :: ((l₁ ++ b :: l₂).map some ++ [none]) = A ++ a :: some b :: c :: C := by
    have heq : none :: ((l₁ ++ b :: l₂).map some ++ [none]) =
        (none :: l₁.map some) ++ some b :: (l₂.map some ++ [none]) := by simp
    rw [heq, hA, hC]
    simp
  have hnodes' : none :: ((l₁ ++ l₂).map some ++ [none]) = A ++ a :: c :: C := by
    have heq : none :: ((l₁ ++ l₂).map some ++ [none]) =
        (none :: l₁.map some) ++ (l₂.map some ++ [none]) := by simp
    rw [heq, hA, hC]
    simp
  rw [hnodes, isChain_append_cons_cons, isChain_cons_cons] at hchain
  obtain ⟨hleft, ⟨hnext, hprev⟩, ⟨hnext', hprev'⟩, hright⟩ := hchain
  have hcb : some b ≠ c := fun h => hbC (h ▸ mem_cons_self ..)
  have hprev_eq : (L.unlink b).prev = update L.prev c a := by
    simp only [CircularLinks.unlink, hnext', hprev]
  have hnext_eq : (L.unlink b).next = update L.next a c := by
    simp only [CircularLinks.unlink, hnext', hprev, update_of_ne hcb]
  -- a link that does not touch `b` neither leaves `a` nor enters `c`
  have hkeep : ∀ x y, x ≠ some b → y ≠ some b → L.Joined x y → (L.unlink b).Joined x y := by
    rintro x y hx hy ⟨hxy, hyx⟩
    refine ⟨?_, ?_⟩
    · rw [hnext_eq, update_of_ne]
      · exact hxy
      · rintro rfl
        exact hy (hxy.symm.trans hnext)
    · rw [hprev_eq, update_of_ne]
      · exact hyx
      · rintro rfl
        exact hx (hyx.symm.trans hprev')
  rw [hnodes', isChain_append_cons_cons]
  refine ⟨?_, ⟨?_, ?_⟩, ?_⟩
  · exact hleft.imp_of_mem_imp fun x y hx hy =>
      hkeep x y (fun h => hbA (h ▸ hx)) fun h => hbA (h ▸ hy)
  · rw [hnext_eq, update_self]
  · rw [hprev_eq, update_self]
  · exact hright.imp_of_mem_imp fun x y hx hy =>
      hkeep x y (fun h => hbC (h ▸ hx)) fun h => hbC (h ▸ hy)

/-- A new node `b` is put in right after the head. -/
theorem pushFront (h : L.Ring l) (hb : b ∉ l) : (L.pushFront b).Ring (b :: l) := by
  obtain ⟨hchain, hnodup⟩ := h
  refine ⟨?_, nodup_cons.mpr ⟨hb, hnodup⟩⟩
  -- `c` is the first node so far
  obtain ⟨c, C, hC⟩ : ∃ c C, l.map some ++ [none] = c :: C :=
    exists_cons_of_ne_nil (by simp)
  have hbC : some b ∉ c :: C := by
    rw [← hC]
    simpa using hb
  have hcC : c ∉ C := by
    have hnodes : (l.map some ++ [none]).Nodup := by
      refine List.Nodup.append (hnodup.map fun _ _ h => Option.some.inj h) (nodup_singleton _) ?_
      simp
    rw [hC] at hnodes
    exact (nodup_cons.mp hnodes).1
  rw [hC, isChain_cons_cons] at hchain
  obtain ⟨⟨hnext, hprev⟩, hright⟩ := hchain
  have hcb : some b ≠ c := fun h => hbC (h ▸ mem_cons_self ..)
  have hnext_eq : (L.pushFront b).next =
      update (update L.next (some b) c) none (some b) := by
    simp only [CircularLinks.pushFront, hnext]
  have hprev_eq : (L.pushFront b).prev =
      update (update L.prev (some b) none) c (some b) := by
    simp only [CircularLinks.pushFront, update_of_ne (Option.some_ne_none b).symm, hnext]
  rw [map_cons, cons_append, hC, isChain_cons_cons, isChain_cons_cons]
  refine ⟨⟨?_, ?_⟩, ⟨?_, ?_⟩, ?_⟩
  · rw [hnext_eq, update_self]
  · rw [hprev_eq, update_of_ne hcb, update_self]
  · rw [hnext_eq, update_of_ne (Option.some_ne_none b), update_self]
  · rw [hprev_eq, update_self]
  · refine hright.imp_of_mem_tail_imp fun x y hx hy hxy => ?_
    have hxb : x ≠ some b := fun h => hbC (h ▸ hx)
    have hyb : y ≠ some b := fun h => hbC (h ▸ mem_cons_of_mem _ hy)
    have hyc : y ≠ c := fun h => hcC (h ▸ hy)
    have hx0 : x ≠ none := by
      rintro rfl
      exact hyc (hxy.1.symm.trans hnext)
    refine ⟨?_, ?_⟩
    · rw [hnext_eq, update_of_ne hx0, update_of_ne hxb]
      exact hxy.1
    · rw [hprev_eq, update_of_ne hyc, update_of_ne hyb]
      exact hxy.2

/-- The node `b` is moved to the front. -/
theorem moveFront (h : L.Ring (l₁ ++ b :: l₂)) :
    ((L.unlink b).pushFront b).Ring (b :: (l₁ ++ l₂)) := by
  refine h.unlink.pushFront ?_
  exact (nodup_cons.mp (nodup_middle.mp h.nodup)).1

omit [DecidableEq B] in
/-- A loop along links that visit the nodes of `l` in turn. -/
theorem scan_eq {step : Option B → Option B} (pred : B → Bool) {x : Option B} {fuel : ℕ}
    (h : List.IsChain (fun x y => step x = y) (x :: (l.map some ++ [none])))
    (hfuel : l.length < fuel) : scan step pred fuel (step x) = l.find? pred := by
  induction l generalizing x fuel with
  | nil =>
    have hx : step x = none := by simpa using h
    cases fuel <;> simp [hx, scan]
  | cons b l ih =>
    obtain ⟨fuel, rfl⟩ : ∃ n, fuel = n + 1 := ⟨fuel - 1, by omega⟩
    rw [map_cons, cons_append, isChain_cons_cons] at h
    obtain ⟨hx, hrest⟩ := h
    rw [hx, scan, List.find?_cons, ih hrest (by simpa using hfuel)]
    cases pred b <;> rfl

omit [DecidableEq B] in
/-- A loop from the front of the list. -/
theorem scan_next (h : L.Ring l) (pred : B → Bool) {fuel : ℕ} (hfuel : l.length < fuel) :
    scan L.next pred fuel (L.next none) = l.find? pred :=
  scan_eq pred (h.chain.imp fun _ _ hxy => hxy.1) hfuel

omit [DecidableEq B] in
/-- A loop from the back of the list. -/
theorem scan_prev (h : L.Ring l) (pred : B → Bool) {fuel : ℕ} (hfuel : l.length < fuel) :
    scan L.prev pred fuel (L.prev none) = l.reverse.find? pred := by
  refine scan_eq pred ?_ (by simpa using hfuel)
  have hrev := isChain_reverse.mpr (h.chain.imp (S := fun x y => L.prev y = x)
    fun _ _ hxy => hxy.2)
  simpa using hrev

end Ring

end CircularLinks
