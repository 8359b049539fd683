import Xv6.Foundations.Fallible
import Xv6.Foundations.SecondChance
import Xv6.VM.Kalloc

/-!
# The choice of a victim

`get_victim` is the second-chance clock on the frame table: the mark of a frame is its `ref`, and
the mark under its key is `PTE_A` of the entry that maps it. A frame is a candidate if it is
`Evictable` and, in the first of the two loops, if its process has the greatest level of any process
with a frame.
-/

namespace Xv6.VM

open SecondChance Function List

namespace Kernel

variable {σ : Type}

/-! ## Evictable frames -/

/-- The entry of the process of a frame at the address of the frame. -/
def entry (k : Kernel σ) (i : Fin NUM_FRAMES) : Option (ℕ × ℕ) :=
  match (k.frametable i).p with
  | none => none
  | some p => match k.walk (k.proc p).pagetable (k.frametable i).va with
    | .ok pte => pte
    | .error _ => none

/-- The frame is in use by a process with a page table, other than `init` and the shell, whose entry
at the address of the frame is valid and maps the frame. -/
def Evictable (k : Kernel σ) (i : Fin NUM_FRAMES) : Prop :=
  (k.frametable i).inUse = .used ∧
    (∃ p ∈ (k.frametable i).p, (k.proc p).pagetable ≠ 0 ∧ k.Evictee p) ∧
    ∃ pte ∈ k.entry i, (k.pte pte).flags.v = true ∧ (k.pte pte).num = (k.frametable i).pa
  deriving Decidable

/-- The level of the process of a frame. -/
def frameLevel (k : Kernel σ) (i : Fin NUM_FRAMES) : ℤ :=
  match (k.frametable i).p with
  | none => -1
  | some p => (k.proc p).level

/-- The frame is in use by a process other than `init` and the shell. -/
def InPlay (k : Kernel σ) (i : Fin NUM_FRAMES) : Prop :=
  (k.frametable i).inUse ≠ .free ∧ ∃ p ∈ (k.frametable i).p, k.Evictee p
  deriving Decidable

/-- The frames that a loop of `get_victim` accepts; `level` as in `inspect`. -/
def candidate (k : Kernel σ) (level : Option ℤ) (i : Fin NUM_FRAMES) : Bool :=
  decide (k.Evictable i) && decide (∀ l ∈ level, k.frameLevel i = l)

/-- The key of a frame: the entry at its address. -/
def key (k : Kernel σ) (i : Fin NUM_FRAMES) : ℕ × ℕ := (k.entry i).getD (0, 0)

/-- `ref` of the frames and `PTE_A` of the entries. -/
def marks (k : Kernel σ) : Marks (Fin NUM_FRAMES) (ℕ × ℕ) where
  ref i := (k.frametable i).ref
  acc q := (k.pte q).flags.a

/-- The state with other marks and another position of the hand. -/
def withMarks (k : Kernel σ) (m : Marks (Fin NUM_FRAMES) (ℕ × ℕ)) (hand : Fin NUM_FRAMES) :
    Kernel σ :=
  { k with
    frametable := fun i => { k.frametable i with ref := m.ref i }
    ptes := fun pg j =>
      { k.ptes pg j with flags := { (k.ptes pg j).flags with a := m.acc (pg, j) } }
    clockHand := hand }

/-- The virtual addresses in the frame table are below `MAXVA`, as `walk` requires. -/
def AddressesValid (k : Kernel σ) : Prop :=
  ∀ i, (k.frametable i).inUse = .used → (k.frametable i).va < MAXVA
  deriving Decidable

/-! ## The loops of `get_victim` -/

section Loops

variable {k : Kernel σ} {m : Marks (Fin NUM_FRAMES) (ℕ × ℕ)} {hand : Fin NUM_FRAMES}
  {level : Option ℤ} {i : Fin NUM_FRAMES}

lemma withMarks_marks (k : Kernel σ) : k.withMarks k.marks k.clockHand = k := rfl

lemma clearA_withMarks (pte : ℕ × ℕ) :
    (k.withMarks m hand).setPte pte ((k.withMarks m hand).pte pte).clearA =
      k.withMarks ⟨m.ref, update m.acc pte false⟩ hand := by
  rw [setPte, withMarks, withMarks]
  congr 1
  funext pg j
  by_cases hpg : pg = pte.1
  · subst hpg
    by_cases hj : j = pte.2
    · subst hj
      simp [Pte.clearA, Kernel.pte]
    · have hne : (pte.1, j) ≠ pte := fun h => hj (by rw [← h])
      simp [hj, hne]
  · have hne : (pg, j) ≠ pte := fun h => hpg (by rw [← h])
    simp [hpg, hne]

lemma clearRef_withMarks :
    (k.withMarks m hand).setFrame i { (k.withMarks m hand).frametable i with ref := false } =
      k.withMarks ⟨update m.ref i false, m.acc⟩ hand := by
  rw [setFrame, withMarks, withMarks]
  congr 1
  funext j
  by_cases hj : j = i
  · subst hj
    simp
  · simp [hj]

lemma secondChance_withMarks {pte : ℕ × ℕ} (hpte : k.key i = pte) :
    (k.withMarks m hand).secondChance i pte =
      if m.marked k.key i then (false, k.withMarks (m.clear k.key i) hand)
      else (true, k.withMarks m hand) := by
  have ha : ((k.withMarks m hand).pte pte).flags.a = m.acc pte := rfl
  have href : ((k.withMarks m hand).frametable i).ref = m.ref i := rfl
  rw [secondChance, ha, href, Marks.marked, hpte, Marks.clear, hpte]
  cases hacc : m.acc pte with
  | true =>
    simp only [if_true, true_or, Bool.true_or]
    rw [clearA_withMarks]
    exact congrArg _ clearRef_withMarks
  | false =>
    have hsame : update m.acc pte false = m.acc := by
      rw [← hacc, update_eq_self]
    rw [hsame]
    cases hr : m.ref i with
    | true =>
      simp only [Bool.false_eq_true, if_false, if_true, or_true, Bool.or_true]
      exact congrArg _ clearRef_withMarks
    | false => simp

lemma inspect_withMarks (hva : k.AddressesValid) (level : Option ℤ) (i : Fin NUM_FRAMES) :
    (k.withMarks m hand).inspect level i = .ok (
      if k.candidate level i then
        if m.marked k.key i then (false, k.withMarks (m.clear k.key i) hand)
        else (true, k.withMarks m hand)
      else (false, k.withMarks m hand)) := by
  have hp : ((k.withMarks m hand).frametable i).p = (k.frametable i).p := rfl
  rw [inspect, hp]
  cases howner : (k.frametable i).p with
  | none =>
    have hcand : k.candidate level i = false := by
      simp [candidate, Evictable, howner]
    simp [hcand]
  | some p =>
    have hlevel : (∀ l ∈ level, k.frameLevel i = l) ↔ ∀ l ∈ level, (k.proc p).level = l := by
      simp [frameLevel, howner]
    have hevict : k.Evictable i ↔ (k.frametable i).inUse = .used ∧ (k.proc p).pagetable ≠ 0 ∧
        k.Evictee p ∧ ∃ pte ∈ k.entry i, (k.pte pte).flags.v = true ∧
          (k.pte pte).num = (k.frametable i).pa := by
      simp [Evictable, howner, and_assoc]
    have hentry : k.entry i = match k.walk (k.proc p).pagetable (k.frametable i).va with
        | .ok pte => pte
        | .error _ => none := by
      rw [entry, howner]
    by_cases hcond : (k.frametable i).inUse = .used ∧ (k.proc p).pagetable ≠ 0 ∧ k.Evictee p ∧
        ∀ l ∈ level, (k.proc p).level = l
    · obtain ⟨hused, htable, hproc, hl⟩ := hcond
      have hwalk : k.walk (k.proc p).pagetable (k.frametable i).va = .ok (k.entry i) := by
        rw [hentry, walk, if_neg (hva i hused).not_ge]
      have hcand : k.candidate level i = decide (∃ pte ∈ k.entry i, (k.pte pte).flags.v = true ∧
          (k.pte pte).num = (k.frametable i).pa) := by
        rw [candidate, decide_eq_true (hlevel.mpr hl), Bool.and_true]
        exact decide_eq_decide.mpr (by simp [hevict, hused, htable, hproc])
      refine (if_pos ⟨hused, htable, hproc, hl⟩).trans ?_
      change (k.walk (k.proc p).pagetable (k.frametable i).va >>= _) = _
      rw [hwalk, hcand]
      cases hpte : k.entry i with
      | none => rfl
      | some pte =>
        change (if (k.pte pte).flags.v = true ∧ (k.pte pte).num = (k.frametable i).pa then _
          else _) = _
        have hkey : k.key i = pte := by rw [key, hpte, Option.getD_some]
        by_cases hmaps : (k.pte pte).flags.v = true ∧ (k.pte pte).num = (k.frametable i).pa
        · rw [if_pos hmaps, secondChance_withMarks hkey]
          simp [hmaps]
        · rw [if_neg hmaps]
          simp [hmaps]
    · have hcand : k.candidate level i = false := by
        rw [candidate, Bool.and_eq_false_iff]
        by_contra hboth
        simp only [not_or, decide_eq_false_iff_not, not_not] at hboth
        obtain ⟨hused, htable, hproc, -⟩ := hevict.mp hboth.1
        exact hcond ⟨hused, htable, hproc, hlevel.mp hboth.2⟩
      refine (if_neg hcond).trans ?_
      rw [hcand]
      rfl

/-- The outcome of a loop that has scanned to the result `r` and would leave the hand at `hand`. -/
def scanned (k : Kernel σ) (hand : Fin NUM_FRAMES)
    (r : Option (Fin NUM_FRAMES) × Marks (Fin NUM_FRAMES) (ℕ × ℕ)) :
    Option (Fin NUM_FRAMES) × Kernel σ :=
  match r with
  | (some i, m) => (some i, k.withMarks m (i + 1))
  | (none, m) => (none, k.withMarks m hand)

/-- A loop of `get_victim` is a scan of the clock. -/
theorem clockLoop_withMarks (hva : k.AddressesValid) (m : Marks (Fin NUM_FRAMES) (ℕ × ℕ))
    (hand : Fin NUM_FRAMES) (level : Option ℤ) (n : ℕ) :
    clockLoop level n (k.withMarks m hand) = .ok (k.scanned (hand + Fin.ofNat NUM_FRAMES n)
      (scan (k.candidate level) k.key (turns hand n) m)) := by
  induction n generalizing m hand with
  | zero =>
    rw [clockLoop, turns, scan, scanned]
    simp
  | succ n ih =>
    have hhand : hand + 1 + Fin.ofNat NUM_FRAMES n = hand + Fin.ofNat NUM_FRAMES (n + 1) := by
      rw [add_assoc]
      congr 1
      ext
      simp [Fin.val_add, add_comm]
    rw [clockLoop, turns, scan, ← hhand]
    change ((k.withMarks m (hand + 1)).inspect level hand >>= _) = _
    rw [inspect_withMarks hva]
    split_ifs with hc hm
    · exact ih _ _
    · rfl
    · exact ih _ _

end Loops

/-! ## The level of the first loop -/

lemma foldl_greatest {ι : Type} (p : ι → Prop) [DecidablePred p] (f : ι → ℤ) (l : List ι)
    (init : ℤ) :
    let low := l.foldl (fun low i => if p i ∧ low < f i then f i else low) init
    init ≤ low ∧ (∀ i ∈ l, p i → f i ≤ low) ∧ (low = init ∨ ∃ i ∈ l, p i ∧ low = f i) := by
  induction l generalizing init with
  | nil => simp
  | cons j l ih =>
    obtain ⟨hinit, hle, heq⟩ := ih (if p j ∧ init < f j then f j else init)
    rw [foldl_cons]
    dsimp only at hinit hle heq ⊢
    refine ⟨?_, fun i hi hp => ?_, ?_⟩
    · split_ifs at hinit ⊢ with hj <;> omega
    · rcases mem_cons.mp hi with rfl | hi
      · split_ifs at hinit with hj <;> grind
      · exact hle i hi hp
    · rcases heq with heq | ⟨i, hi, hp, heq⟩
      · split_ifs at heq ⊢ with hj
        · exact .inr ⟨j, mem_cons_self, hj.1, heq⟩
        · exact .inl heq
      · exact .inr ⟨i, mem_cons_of_mem _ hi, hp, heq⟩

/-- The level that the first loop looks for: no frame in play has a greater one, and one has it. -/
theorem lowPri_spec (k : Kernel σ) : (∀ i, k.InPlay i → k.frameLevel i ≤ k.lowPri) ∧
    (k.lowPri = -1 ∨ ∃ i, k.InPlay i ∧ k.lowPri = k.frameLevel i) := by
  have hlow : k.lowPri = (List.finRange NUM_FRAMES).foldl (fun low i =>
      if k.InPlay i ∧ low < k.frameLevel i then k.frameLevel i else low) (-1) := by
    rw [lowPri]
    congr 1
    funext low i
    cases hp : (k.frametable i).p with
    | none => simp [InPlay, hp]
    | some p => simp [InPlay, frameLevel, hp, and_assoc]
  obtain ⟨-, hle, heq⟩ := foldl_greatest k.InPlay k.frameLevel (List.finRange NUM_FRAMES) (-1)
  rw [← hlow] at hle heq
  refine ⟨fun i hi => hle i (mem_finRange i) hi, ?_⟩
  rcases heq with heq | ⟨i, -, hi, heq⟩
  · exact .inl heq
  · exact .inr ⟨i, hi, heq⟩

/-! ## The victims -/

/-- The frame is evictable, and no process with a frame in play has a greater level. -/
def Preferred (k : Kernel σ) (i : Fin NUM_FRAMES) : Prop :=
  k.Evictable i ∧ ∀ j, k.InPlay j → k.frameLevel j ≤ k.frameLevel i
  deriving Decidable

/-- The frames among which the clock chooses: those that are preferred, or all that are evictable if
none is. -/
def Eligible (k : Kernel σ) (i : Fin NUM_FRAMES) : Prop :=
  k.Evictable i ∧ ((∃ j, k.Preferred j) → k.Preferred i)
  deriving Decidable

/-- The frames in circular order from the clock hand on. -/
def clockOrder (k : Kernel σ) : List (Fin NUM_FRAMES) := turns k.clockHand NUM_FRAMES

/-- The levels of processes are not negative. -/
def LevelsValid (k : Kernel σ) : Prop := ∀ p, 0 ≤ (k.proc p).level ∧ (k.proc p).level ≤ 3
  deriving Decidable

section Victims

variable {k : Kernel σ} {i : Fin NUM_FRAMES}

lemma Evictable.inPlay (h : k.Evictable i) : k.InPlay i := by
  obtain ⟨hused, ⟨p, hp, -, hproc⟩, -⟩ := h
  exact ⟨by simp [hused], p, hp, hproc⟩

lemma Evictable.lowPri_nonneg (hlevel : k.LevelsValid) (h : k.Evictable i) : 0 ≤ k.lowPri := by
  refine le_trans ?_ (k.lowPri_spec.1 i h.inPlay)
  obtain ⟨-, p, hp, -⟩ := h.inPlay
  rw [Option.mem_def] at hp
  rw [frameLevel, hp]
  exact (hlevel p).1

lemma candidate_lowPri (hlevel : k.LevelsValid) (i : Fin NUM_FRAMES) :
    k.candidate (some k.lowPri) i = decide (k.Preferred i) := by
  obtain ⟨hle, heq⟩ := k.lowPri_spec
  rw [candidate, ← Bool.decide_and]
  refine decide_eq_decide.mpr (and_congr_right_iff.mpr fun hi => ?_)
  simp only [Option.mem_some_iff, forall_eq']
  constructor
  · intro h j hj
    rw [h]
    exact hle j hj
  · intro h
    rcases heq with heq | ⟨j, hj, heq⟩
    · have hnonneg := hi.lowPri_nonneg hlevel
      omega
    · exact le_antisymm (hle i hi.inPlay) (heq ▸ h j hj)

lemma candidate_none (k : Kernel σ) (i : Fin NUM_FRAMES) :
    k.candidate none i = decide (k.Evictable i) := by
  simp [candidate]

lemma clockLoop_twice (hva : k.AddressesValid) (level : Option ℤ) :
    clockLoop level (NUM_FRAMES * 2) k = .ok (k.scanned k.clockHand
      (scan (k.candidate level) k.key (k.clockOrder ++ k.clockOrder) k.marks)) := by
  have hloop := clockLoop_withMarks hva k.marks k.clockHand level (NUM_FRAMES * 2)
  have hlaps : Fin.ofNat NUM_FRAMES (NUM_FRAMES * 2) = 0 := rfl
  rw [withMarks_marks, turns_twice, hlaps, add_zero] at hloop
  exact hloop

/-- If no frame is preferred, the first loop leaves everything as it is. -/
theorem clockLoop_lowPri_of_none (hva : k.AddressesValid) (hlevel : k.LevelsValid)
    (h : ¬ ∃ i, k.Preferred i) :
    clockLoop (some k.lowPri) (NUM_FRAMES * 2) k = .ok (none, k) := by
  have hnone : ∀ i ∈ k.clockOrder ++ k.clockOrder, k.candidate (some k.lowPri) i = false := by
    intro i _
    rw [candidate_lowPri hlevel]
    exact decide_eq_false fun hi => h ⟨i, hi⟩
  rw [clockLoop_twice hva, scan_of_no_candidate hnone]
  rfl

lemma mem_clockOrder (k : Kernel σ) (i : Fin NUM_FRAMES) : i ∈ k.clockOrder := mem_turns _ i

lemma nodup_clockOrder (k : Kernel σ) : k.clockOrder.Nodup := nodup_turns _

/-- `get_victim` scans the clock for the victims, if a frame is evictable. -/
theorem getVictim_eq (hva : k.AddressesValid) (hlevel : k.LevelsValid) (h : ∃ i, k.Evictable i) :
    ∃ i m, scan (fun i => decide (k.Eligible i)) k.key (k.clockOrder ++ k.clockOrder) k.marks =
      (some i, m) ∧ k.getVictim = .ok (i, k.withMarks m (i + 1)) := by
  obtain ⟨i₀, hi₀⟩ := h
  have hlow := hi₀.lowPri_nonneg hlevel
  rw [getVictim, if_neg (by omega)]
  -- a scan for the frames that a loop accepts finds one if they are the victims
  have hscan : ∀ level, (k.candidate level = fun i => decide (k.Eligible i)) →
      (∃ i, k.Eligible i) → ∃ i m,
        scan (fun i => decide (k.Eligible i)) k.key (k.clockOrder ++ k.clockOrder) k.marks =
          (some i, m) ∧
        clockLoop level (NUM_FRAMES * 2) k = .ok (some i, k.withMarks m (i + 1)) := by
    intro level hcand hex
    obtain ⟨i, hi⟩ := hex
    obtain ⟨j, hj⟩ := exists_scan_twice (c := fun i => decide (k.Eligible i)) k.key k.marks
      (k.mem_clockOrder i) (decide_eq_true hi)
    refine ⟨j, _, Prod.ext hj rfl, ?_⟩
    rw [clockLoop_twice hva, hcand]
    cases hs : scan (fun i => decide (k.Eligible i)) k.key (k.clockOrder ++ k.clockOrder)
      k.marks with
    | mk o m =>
      rw [hs] at hj
      cases hj
      rfl
  by_cases hpref : ∃ j, k.Preferred j
  · have hcand : k.candidate (some k.lowPri) = fun i => decide (k.Eligible i) := by
      funext i
      rw [candidate_lowPri hlevel]
      exact decide_eq_decide.mpr ⟨fun hi => ⟨hi.1, fun _ => hi⟩, fun hi => hi.2 hpref⟩
    obtain ⟨j, hj⟩ := hpref
    obtain ⟨i, m, hm, hloop⟩ := hscan _ hcand ⟨j, hj.1, fun _ => hj⟩
    exact ⟨i, m, hm, by rw [hloop]; rfl⟩
  · have hcand : k.candidate none = fun i => decide (k.Eligible i) := by
      funext i
      rw [candidate_none]
      exact decide_eq_decide.mpr ⟨fun hi => ⟨hi, fun hc => absurd hc hpref⟩, fun hi => hi.1⟩
    obtain ⟨i, m, hm, hloop⟩ := hscan _ hcand ⟨i₀, hi₀, fun hc => absurd hc hpref⟩
    refine ⟨i, m, hm, ?_⟩
    rw [clockLoop_lowPri_of_none hva hlevel hpref]
    change (clockLoop none (NUM_FRAMES * 2) k >>= _) = _
    rw [hloop]
    rfl

/-- Without an evictable frame `get_victim` panics. -/
theorem getVictim_of_not_evictable (hva : k.AddressesValid) (hlevel : k.LevelsValid)
    (h : ¬ ∃ i, k.Evictable i) : ∃ msg, k.getVictim = .error msg := by
  rw [getVictim]
  split_ifs with hlow
  · exact ⟨_, rfl⟩
  · rw [clockLoop_lowPri_of_none hva hlevel fun ⟨i, hi⟩ => h ⟨i, hi.1⟩]
    change ∃ msg, (clockLoop none (NUM_FRAMES * 2) k >>= _) = .error msg
    have hnone : ∀ i ∈ k.clockOrder ++ k.clockOrder, k.candidate none i = false := by
      intro i _
      rw [candidate_none]
      exact decide_eq_false fun hi => h ⟨i, hi⟩
    rw [clockLoop_twice hva, scan_of_no_candidate hnone]
    exact ⟨_, rfl⟩

end Victims

/-! ## What `get_victim` returns and changes -/

/-- `PTE_A` of the entry of a frame or `ref` of the frame is set. -/
def Referenced (k : Kernel σ) (i : Fin NUM_FRAMES) : Prop :=
  (k.frametable i).ref = true ∨ ∃ pte ∈ k.entry i, (k.pte pte).flags.a = true
  deriving Decidable

/-- The frames that `get_victim` passes over: the victims before the first one that is not
referenced. -/
def PassedOver (k : Kernel σ) (i : Fin NUM_FRAMES) : Prop :=
  k.Eligible i ∧ i ∈ k.clockOrder.takeWhile fun j => ¬ (k.Eligible j ∧ ¬ k.Referenced j)
  deriving Decidable

/-- The first victim in circular order that is not referenced, or else the first one. -/
def clockVictim (k : Kernel σ) : Option (Fin NUM_FRAMES) :=
  (k.clockOrder.find? fun i => k.Eligible i ∧ ¬ k.Referenced i).or
    (k.clockOrder.find? fun i => k.Eligible i)

/-- The state with `ref` and `PTE_A` of the frames passed over clear, and the hand just past `i`. -/
def passed (k : Kernel σ) (i : Fin NUM_FRAMES) : Kernel σ :=
  { k with
    frametable := fun j =>
      if k.PassedOver j then { k.frametable j with ref := false } else k.frametable j
    ptes := fun pg j =>
      if ∃ l, k.PassedOver l ∧ k.entry l = some (pg, j) then (k.ptes pg j).clearA
      else k.ptes pg j
    clockHand := i + 1 }

/-- The frames in use are different physical pages. -/
def FramesDistinct (k : Kernel σ) : Prop :=
  ∀ i j, (k.frametable i).inUse ≠ .free → (k.frametable j).inUse ≠ .free →
    (k.frametable i).pa = (k.frametable j).pa → i = j
  deriving Decidable

section Distinct

variable {k : Kernel σ} {i j : Fin NUM_FRAMES}

lemma Evictable.entry_eq (h : k.Evictable i) : k.entry i = some (k.key i) := by
  obtain ⟨-, -, pte, hpte, -⟩ := h
  rw [Option.mem_def] at hpte
  rw [key, hpte, Option.getD_some]

lemma Evictable.key_inj (hpa : k.FramesDistinct) (hi : k.Evictable i) (hj : k.Evictable j)
    (h : k.key i = k.key j) : i = j := by
  refine hpa i j hi.inPlay.1 hj.inPlay.1 ?_
  obtain ⟨-, -, pte, hpte, -, hi'⟩ := hi
  obtain ⟨-, -, pte', hpte', -, hj'⟩ := hj
  rw [Option.mem_def] at hpte hpte'
  rw [key, key, hpte, hpte', Option.getD_some, Option.getD_some] at h
  rw [← hi', ← hj', h]

lemma Evictable.marked_eq (h : k.Evictable i) :
    k.marks.marked k.key i = decide (k.Referenced i) := by
  have hentry := h.entry_eq
  simp [Marks.marked, marks, Referenced, hentry, Bool.decide_or, Bool.or_comm]

/-- The victims that are passed over by the scan. -/
theorem not_spared_iff (hpa : k.FramesDistinct) (i : Fin NUM_FRAMES) :
    (decide (k.Eligible i) &&
      !k.marks.spared (fun i => decide (k.Eligible i)) k.key k.clockOrder i) =
        decide (k.Eligible i ∧ ¬ k.Referenced i) := by
  by_cases hi : k.Eligible i
  · have hkey : ∀ j, decide (k.Eligible j) = true → k.key j = k.key i → j = i := fun j hj h =>
      (of_decide_eq_true hj).1.key_inj hpa hi.1 h
    rw [spared_eq_marked hkey, hi.1.marked_eq]
    simp [hi]
  · simp [hi]

/-- Clearing the marks of the frames passed over. -/
theorem withMarks_clearAll {l : List (Fin NUM_FRAMES)} (hl : ∀ i, i ∈ l ↔ k.PassedOver i)
    (hand : Fin NUM_FRAMES) :
    k.withMarks (k.marks.clearAll k.key l) (hand + 1) = k.passed hand := by
  rw [withMarks, passed]
  congr 1
  · funext j
    rw [ref_clearAll]
    by_cases hj : k.PassedOver j <;> simp [hl, hj, marks]
  · funext pg j
    have hany : (l.any fun i => k.key i = (pg, j)) = true ↔
        ∃ i, k.PassedOver i ∧ k.entry i = some (pg, j) := by
      rw [any_eq_true]
      refine exists_congr fun i => ?_
      rw [hl, decide_eq_true_eq]
      refine and_congr_right fun hi => ?_
      rw [hi.1.1.entry_eq, Option.some.injEq]
    rw [acc_clearAll]
    by_cases hex : ∃ i, k.PassedOver i ∧ k.entry i = some (pg, j)
    · rw [if_pos hex, hany.mpr hex]
      simp [Pte.clearA]
    · rw [if_neg hex, eq_false_of_ne_true fun h => hex (hany.mp h)]
      simp [marks, Kernel.pte]

/-- With different physical pages in the frames `get_victim` is the clock algorithm. -/
theorem getVictim_distinct (hva : k.AddressesValid) (hlevel : k.LevelsValid)
    (hpa : k.FramesDistinct) (h : ∃ i, k.Evictable i) :
    ∃ i, k.clockVictim = some i ∧ k.getVictim = .ok (i, k.passed i) := by
  obtain ⟨i, m, hscan, hrun⟩ := getVictim_eq hva hlevel h
  rw [scan_twice_eq k.nodup_clockOrder] at hscan
  obtain ⟨hchoice, rfl⟩ := Prod.mk.inj hscan
  refine ⟨i, ?_, ?_⟩
  · rw [← hchoice, choice, clockVictim]
    simp only [not_spared_iff hpa]
  · rw [hrun]
    congr 2
    refine withMarks_clearAll (fun j => ?_) i
    simp only [not_spared_iff hpa, mem_filter, decide_eq_true_eq]
    rw [PassedOver, and_comm]
    simp

end Distinct

/-- No evictable frame has a process of a greater level. -/
def LowestPriority (k : Kernel σ) (i : Fin NUM_FRAMES) : Prop :=
  ∀ j, k.Evictable j → k.frameLevel j ≤ k.frameLevel i
  deriving Decidable

end Kernel

/-! ## Results -/

open Kernel

variable {σ : Type}

/-- Processes with process ids from 3 on, each with its first page mapped at a physical page of its
own, and the given frames and levels. -/
def framesState (frames : List Frame) (level : ProcId → ℤ) : Kernel Unit where
  frametable i := frames.getD i {}
  clockHand := 0
  swaptable _ := {}
  freelist := []
  managed := []
  kernelEnd := 0
  mem _ := 0
  -- the pages `3 * p + 1`, `3 * p + 2` and `3 * p + 3` are the page table of the process `p`
  ptes pg j :=
    if j ≠ 0 then {}
    else if pg % 3 = 0 then ⟨1000 + pg / 3, { v := true, r := true, w := true, u := true }⟩
    else ⟨pg + 1, { v := true }⟩
  proc p :=
    { state := .runnable, pid := p + 3, level := level p, sz := PGSIZE, pagetable := 3 * p + 1 }
  stats _ := {}
  nextpid := NPROC + 3
  initproc := none
  owner _ := none
  noff := 0
  dev := ()

/-- The frame that has the first page of a process. -/
def firstPage (p : ProcId) : Frame :=
  { inUse := .used, p := some p, va := 0, pa := 1001 + p, ref := true }

/-- `get_victim` panics only if no frame is evictable. Otherwise it returns the first victim in
clock order that is not referenced, or else the first, and clears the marks of the victims that it
passes. -/
theorem get_victim_clock (k : Kernel σ) (hpa : k.FramesDistinct) (hlevel : k.LevelsValid)
    (hva : k.AddressesValid) :
    ((∃ msg, k.getVictim = .error msg) ↔ ¬ ∃ i, k.Evictable i) ∧
      ∀ i k', k.getVictim = .ok (i, k') → k.clockVictim = some i ∧ k' = k.passed i := by
  by_cases hex : ∃ i, k.Evictable i
  · obtain ⟨i, hi, hrun⟩ := getVictim_distinct hva hlevel hpa hex
    refine ⟨⟨fun ⟨msg, hmsg⟩ => ?_, fun h => absurd hex h⟩, fun j k' hj => ?_⟩
    · rw [hrun] at hmsg
      cases hmsg
    · rw [hrun] at hj
      cases hj
      exact ⟨hi, rfl⟩
  · obtain ⟨msg, hmsg⟩ := getVictim_of_not_evictable hva hlevel hex
    refine ⟨iff_of_true ⟨msg, hmsg⟩ hex, fun j k' hj => ?_⟩
    rw [hmsg] at hj
    cases hj

/-- Two processes of level 2 and one of level 0, all with referenced frames. -/
def threeFrames : Kernel Unit :=
  framesState [firstPage ⟨0, nproc_pos⟩, firstPage ⟨1, one_lt_nproc⟩, firstPage ⟨2, two_lt_nproc⟩]
    fun p => if p.val = 0 then 0 else 2

/-- The state after a `get_victim` that evaluates to the frame `i`. -/
theorem exists_getVictim {k : Kernel σ} {i : Fin NUM_FRAMES}
    (h : k.getVictim.toOption.map Prod.fst = some i) : ∃ k', k.getVictim = .ok (i, k') := by
  obtain ⟨⟨j, k'⟩, hrun, rfl⟩ := Option.map_eq_some_iff.mp h
  exact ⟨k', Fallible.toOption_eq_some.mp hrun⟩

theorem get_victim_clock_three : threeFrames.clockVictim = some 1 ∧
    ∃ k', threeFrames.getVictim = .ok (1, k') ∧ k' = threeFrames.passed 1 := by
  obtain ⟨k', hrun⟩ : ∃ k', threeFrames.getVictim = .ok (1, k') :=
    exists_getVictim (by decide +kernel)
  obtain ⟨-, hreturn⟩ := get_victim_clock threeFrames (by decide +kernel) (by decide +kernel)
    (by decide +kernel)
  obtain ⟨hvictim, hk'⟩ := hreturn _ _ hrun
  exact ⟨hvictim, k', hrun, hk'⟩

/-- A frame whose address is out of range, before an evictable one. -/
def strayFrame : Kernel Unit :=
  framesState
    [{ firstPage ⟨0, nproc_pos⟩ with va := MAXVA }, firstPage ⟨1, one_lt_nproc⟩] fun _ => 0

/-- `walk` panics on an address from `MAXVA` on, although a frame is evictable. -/
theorem get_victim_walk_panics : strayFrame.FramesDistinct ∧ strayFrame.LevelsValid ∧
    strayFrame.Evictable 1 ∧ ∃ msg, strayFrame.getVictim = .error msg := by
  have heval : (match strayFrame.getVictim with
      | .ok _ => false
      | .error _ => true) = true := by decide +kernel
  refine ⟨by decide +kernel, by decide +kernel, by decide +kernel, ?_⟩
  cases hrun : strayFrame.getVictim with
  | ok r =>
    rw [hrun] at heval
    cases heval
  | error msg => exact ⟨msg, rfl⟩

/-- Whatever the reference bits and the hand are, `get_victim` takes a frame from a process of the
lowest priority that has an evictable one, if and only if the lowest priority of all processes with
frames is that of an evictable frame, or all evictable frames are of one priority. -/
theorem get_victim_priority_iff (k : Kernel σ) (hlevel : k.LevelsValid) (hva : k.AddressesValid)
    (hex : ∃ i, k.Evictable i) :
    (∀ m hand, ∃ i k', (k.withMarks m hand).getVictim = .ok (i, k') ∧ k.Evictable i ∧
      k.LowestPriority i) ↔
    (∃ i, k.Preferred i) ∨
      ∀ i j, k.Evictable i → k.Evictable j → k.frameLevel i = k.frameLevel j := by
  have hreturn : ∀ m hand, ∃ i k', (k.withMarks m hand).getVictim = .ok (i, k') ∧ k.Eligible i ∧
      choice (fun i => decide (k.Eligible i)) k.key (turns hand NUM_FRAMES) m = some i := by
    intro m hand
    obtain ⟨i, m', hscan, hrun⟩ := getVictim_eq (k := k.withMarks m hand) hva hlevel hex
    have hmem := mem_of_scan (i := i) (by rw [hscan])
    rw [scan_twice_eq (nodup_clockOrder _)] at hscan
    exact ⟨i, _, hrun, of_decide_eq_true hmem.2, (Prod.mk.inj hscan).1⟩
  constructor
  · intro hall
    by_contra hc
    obtain ⟨hpref, hlevels⟩ := not_or.mp hc
    obtain ⟨i, j, hi, hj, hlt⟩ : ∃ i j, k.Evictable i ∧ k.Evictable j ∧
        k.frameLevel i < k.frameLevel j := by
      push Not at hlevels
      obtain ⟨i, j, hi, hj, hne⟩ := hlevels
      rcases hne.lt_or_gt with hlt | hlt
      · exact ⟨i, j, hi, hj, hlt⟩
      · exact ⟨j, i, hj, hi, hlt⟩
    -- the hand is on `i` and all frames are referenced: the second lap stops there
    let m : Marks (Fin NUM_FRAMES) (ℕ × ℕ) := ⟨fun _ => true, fun _ => false⟩
    obtain ⟨i', k', hrun, -, hlow⟩ := hall m i
    obtain ⟨l, k'', hrun', -, hchoice⟩ := hreturn m i
    have hfirst : k.Eligible i := ⟨hi, fun h => absurd h hpref⟩
    have hl : some i = some l := by
      rw [← hchoice, choice_of_ref fun _ => rfl, turns, List.find?_cons_of_pos]
      exact decide_eq_true hfirst
    cases hl
    rw [hrun] at hrun'
    cases hrun'
    exact absurd (hlow j hj) hlt.not_ge
  · intro hcond m hand
    obtain ⟨i, k', hrun, hi, -⟩ := hreturn m hand
    refine ⟨i, k', hrun, hi.1, fun j hj => ?_⟩
    rcases hcond with hpref | hsame
    · exact (hi.2 hpref).2 j hj.inPlay
    · exact (hsame j i hj hi.1).le

theorem get_victim_priority_three : (∃ i k', threeFrames.getVictim = .ok (i, k') ∧
    threeFrames.Evictable i ∧ threeFrames.LowestPriority i) := by
  have hiff := get_victim_priority_iff threeFrames (by decide +kernel) (by decide +kernel)
    ⟨1, by decide +kernel⟩
  exact hiff.mpr (.inl ⟨1, by decide +kernel⟩) threeFrames.marks threeFrames.clockHand

/-- The only frame of the process of level 3 is pinned. -/
def pinnedFrame : Kernel Unit :=
  framesState [{ firstPage ⟨0, nproc_pos⟩ with inUse := .pinned }, firstPage ⟨1, one_lt_nproc⟩,
    firstPage ⟨2, two_lt_nproc⟩] fun p => if p.val = 0 then 3 else if p.val = 1 then 0 else 2

/-- `get_victim` takes the frame of a process of level 0, although a frame of a process of level 2
is evictable. -/
theorem get_victim_ignores_priority : pinnedFrame.Evictable 2 ∧
    pinnedFrame.frameLevel 1 < pinnedFrame.frameLevel 2 ∧
    ∃ k', pinnedFrame.getVictim = .ok (1, k') :=
  ⟨by decide +kernel, by decide +kernel, exists_getVictim (by decide +kernel)⟩

end Xv6.VM
