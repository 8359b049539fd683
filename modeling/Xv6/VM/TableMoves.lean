import Xv6.VM.Moves

/-!
# Changes of the page tables themselves

Page-table pages are physical pages too: `walk` allocates them, `uvmcreate` makes a root, and
`freewalk` takes them out again. Each of these changes moves one page between the uses `held`,
`root`, `dir1` and `dir0`, keeps the invariant, and leaves the entry of every page as it was.
-/

namespace Xv6.VM.Core

variable {c : Core} {h : Held} {held : Option ℕ}

/-- `memset(pagetable, 0, PGSIZE)`. -/
def zeroTable (c : Core) (pg : ℕ) : Core :=
  { c with ptes := Function.update c.ptes pg fun _ => {} }

/-- Record for which process a table is made. -/
def setOwner (c : Core) (r : ℕ) (p : Option ProcId) : Core :=
  { c with owner := Function.update c.owner r p }

section Directories

variable {r i j l1 pg : ℕ} {f : Option (Fin NUM_FRAMES)} {s : Option ℕ} {p : ProcId} {e : Pte}

/-- Two states with the same entry for a page. -/
theorem leaf_congr {c' : Core} {r v : ℕ} (href : c'.leafRef r v = c.leafRef r v)
    (hptes : ∀ q, c.leafRef r v = some q → c'.ptes q.1 q.2 = c.ptes q.1 q.2) :
    c'.leaf r v = c.leaf r v := by
  cases hq : c.leafRef r v with
  | none => rw [leaf_eq_of_none (href.trans hq), leaf_eq_of_none hq]
  | some q => rw [leaf_eq_of_ref (href.trans hq), leaf_eq_of_ref hq, hptes q hq]

/-- The invariant only depends on the page tables through their directories and entries. -/
theorem Inv.of_tables {c' : Core} {held' : Option ℕ} (hI : c.Inv ⟨f, s, held⟩)
    (hP : c'.PagesOk held') (hft : c'.frametable = c.frametable) (hst : c'.swaptable = c.swaptable)
    (hleaf : c'.leaf = c.leaf) (howner : ∀ r v, c.leaf r v ≠ {} → c'.owner r = c.owner r) :
    c'.Inv ⟨f, s, held'⟩ := by
  have hne : ∀ r v, (c.leaf r v).flags ≠ {} → c.leaf r v ≠ {} := by
    intro r v hflags heq
    exact hflags (by rw [heq])
  refine ⟨hP, ?_, ?_, ?_⟩
  · rw [hft, hleaf]
    refine hI.frames.of_agree (fun _ => ⟨rfl, rfl, rfl, rfl⟩) (fun _ _ _ => rfl)
      (fun _ _ _ _ => rfl) fun r v hv => howner r v (hne r v ?_)
    intro hflags
    simp [hflags] at hv
  · rw [hst, hleaf]
    refine hI.slots.of_agree (fun _ _ => rfl) (fun _ _ _ => ⟨rfl, rfl⟩)
      fun r v hs => howner r v (hne r v ?_)
    intro hflags
    simp [hflags] at hs
  · rw [hleaf]
    exact hI.shape

lemma child_setPte (q : ℕ × ℕ) (e : Pte) (a b : ℕ) :
    (c.setPte q e).child a b =
      if (a, b) = q then (if e.flags.v then some e.num else none) else c.child a b := by
  unfold child
  rw [ptes_setPte]
  split_ifs <;> rfl

/-- An entry that points at nothing is not valid. -/
theorem isPointer_of_child {a b : ℕ} (h : c.child a b = none) : (c.ptes a b).IsPointer := by
  intro hv
  unfold child at h
  rw [if_pos hv] at h
  cases h

lemma child_zeroTable (pg a b : ℕ) :
    (c.zeroTable pg).child a b = if a = pg then none else c.child a b := by
  unfold child zeroTable
  by_cases ha : a = pg
  · subst ha
    simp
  · simp [ha]

/-! ### A page that is part of no table -/

section

variable (hP : c.PagesOk (some pg))

include hP

lemma PagesOk.held_apart :
    (c.owner pg).isSome = false ∧ (∀ r i, c.dir1 r i ≠ some pg) ∧ ∀ r j, c.dir0 r j ≠ some pg := by
  have hne : ∀ u, u ≠ .held → ¬ c.PageUses (some pg) pg u := fun u hu huse =>
    hu (hP.exclusive huse rfl)
  refine ⟨?_, fun r i => hne (.dir1 r i) (by simp), fun r j => hne (.dir0 r j) (by simp)⟩
  exact (Bool.not_eq_true _).mp (hne .root (by simp))

lemma PagesOk.dir1_zeroTable : (c.zeroTable pg).dir1 = c.dir1 := by
  funext r i
  unfold dir1
  by_cases howner : (c.owner r).isSome
  · have hne : r ≠ pg := by
      rintro rfl
      simp [hP.held_apart.1] at howner
    rw [child_zeroTable, if_neg hne]
    rfl
  · rw [if_neg (fun hc => howner hc.1), if_neg (fun hc => howner hc.1)]

lemma PagesOk.dir0_zeroTable : (c.zeroTable pg).dir0 = c.dir0 := by
  funext r j
  unfold dir0
  rw [hP.dir1_zeroTable]
  cases hl : c.dir1 r (j / 512) with
  | none => rfl
  | some l1 =>
    have hne : l1 ≠ pg := by
      rintro rfl
      exact hP.held_apart.2.1 _ _ hl
    simp [child_zeroTable, hne]

lemma PagesOk.dirs_zeroTable : (c.zeroTable pg).DirsOk where
  root r i hr hi := by
    have hne : r ≠ pg := by
      rintro rfl
      change (c.owner r).isSome = true at hr
      simp [hP.held_apart.1] at hr
    simpa [zeroTable, hne] using hP.dirs.root r i hr hi
  level1 r i l1 b hl hb := by
    rw [hP.dir1_zeroTable] at hl
    have hne : l1 ≠ pg := by
      rintro rfl
      exact hP.held_apart.2.1 _ _ hl
    simpa [zeroTable, hne] using hP.dirs.level1 r i l1 b hl hb

lemma PagesOk.zeroTable : (c.zeroTable pg).PagesOk (some pg) ∧
    (c.zeroTable pg).dir1 = c.dir1 ∧ (c.zeroTable pg).dir0 = c.dir0 ∧
    (c.zeroTable pg).leaf = c.leaf := by
  have hdir1 := hP.dir1_zeroTable
  have hdir0 := hP.dir0_zeroTable
  have hleaf : (c.zeroTable pg).leaf = c.leaf := by
    funext r v
    refine leaf_congr (by simp only [leafRef, hdir0]) fun q hq => ?_
    have hne : q.1 ≠ pg := fun heq =>
      hP.held_apart.2.2 _ _ (heq ▸ (leafRef_eq_some.mp hq).1)
    simp [Core.zeroTable, hne]
  have hiff : ∀ q u, (c.zeroTable pg).PageUses (some pg) q u ↔ c.PageUses (some pg) q u := by
    intro q u
    cases u with
    | dir1 r i => simp only [PageUses, hdir1]
    | dir0 r j => simp only [PageUses, hdir0]
    | _ => exact Iff.rfl
  exact ⟨hP.of_iff hiff hP.nodup rfl hP.dirs_zeroTable, hdir1, hdir0, hleaf⟩

end

/-! ### Stores into the root -/

lemma PagesOk.root_apart (hP : c.PagesOk held) (hr : (c.owner r).isSome) :
    (∀ r' i, c.dir1 r' i ≠ some r) ∧ ∀ r' j, c.dir0 r' j ≠ some r := by
  have hne : ∀ u, u ≠ .root → ¬ c.PageUses held r u := fun u hu huse =>
    hu (hP.exclusive huse (show c.PageUses held r .root from hr))
  exact ⟨fun r' i => hne (.dir1 r' i) (by simp), fun r' j => hne (.dir0 r' j) (by simp)⟩

lemma dir1_setRoot (hr : (c.owner r).isSome) (hi : i < 512) (r' i' : ℕ) :
    (c.setPte (r, i) e).dir1 r' i' =
      if r' = r ∧ i' = i then (if e.flags.v then some e.num else none) else c.dir1 r' i' := by
  unfold dir1
  rw [child_setPte]
  by_cases hri : r' = r ∧ i' = i
  · obtain ⟨rfl, rfl⟩ := hri
    simp [setPte, hr, hi]
  · have hne : (r', i') ≠ (r, i) := by simpa using hri
    rw [if_neg hne, if_neg hri]
    rfl

section

variable (hP : c.PagesOk held) (hr : (c.owner r).isSome) (hi : i < 512)

include hP hr hi

/-- A store into the root, at an index below which nothing is mapped, moves no entry. -/
theorem PagesOk.tables_setRoot (hempty : ∀ j, j / 512 = i → c.dir0 r j = none)
    (he : e.flags.v = true → e.num ≠ r ∧ ∀ b, c.child e.num b = none) :
    (c.setPte (r, i) e).dir0 = c.dir0 ∧ (c.setPte (r, i) e).leaf = c.leaf := by
  have hdir0 : (c.setPte (r, i) e).dir0 = c.dir0 := by
    funext r' j
    by_cases hri : r' = r ∧ j / 512 = i
    · rw [hri.1, hempty j hri.2]
      unfold dir0
      rw [dir1_setRoot hr hi, if_pos ⟨rfl, hri.2⟩]
      split_ifs with hv
      · rw [Option.bind_some, (setPte_of_page e (he hv).1 _).2]
        exact (he hv).2 _
      · rfl
    · unfold dir0
      rw [dir1_setRoot hr hi, if_neg hri]
      cases hl : c.dir1 r' (j / 512) with
      | none => rfl
      | some l1 =>
        have hne : l1 ≠ r := by
          rintro rfl
          exact (hP.root_apart hr).1 _ _ hl
        exact (setPte_of_page e hne _).2
  refine ⟨hdir0, ?_⟩
  funext r' v
  refine leaf_congr (by simp only [leafRef, hdir0]) fun q hq => ?_
  exact (setPte_of_page e (fun heq =>
    (hP.root_apart hr).2 _ _ (heq ▸ (leafRef_eq_some.mp hq).1)) _).1

/-- A pointer at a page of pointers is stored into the root. -/
theorem PagesOk.dirs_setRoot (he : e.IsPointer)
    (hchild : e.flags.v = true → ∀ b < 512, (c.ptes e.num b).IsPointer) :
    (c.setPte (r, i) e).DirsOk where
  root r' i' hr' hi' := by
    rw [ptes_setPte]
    split_ifs
    · exact he
    · exact hP.dirs.root r' i' hr' hi'
  level1 r' i' l1 b hl hb := by
    rw [ptes_setPte]
    split_ifs with heq
    · exact he
    · rw [dir1_setRoot hr hi] at hl
      split_ifs at hl with hri hv
      · cases hl
        exact hchild hv b hb
      · exact hP.dirs.level1 r' i' l1 b hl hb

/-- The page that is held and the level-1 page of an entry of the root are exchanged: neither has
entries. -/
theorem PagesOk.exchangeDir1 (hempty : ∀ j, j / 512 = i → c.dir0 r j = none) (he : e.IsPointer)
    (hheld : held = if e.flags.v then some e.num else none)
    (hzero : e.flags.v = true → ∀ b, c.child e.num b = none) :
    (c.setPte (r, i) e).PagesOk (c.dir1 r i) ∧ (c.setPte (r, i) e).dir0 = c.dir0 ∧
      (c.setPte (r, i) e).leaf = c.leaf := by
  have hne : e.flags.v = true → e.num ≠ r := by
    rintro hv rfl
    rw [if_pos hv] at hheld
    subst hheld
    simp [hP.held_apart.1] at hr
  obtain ⟨hdir0, hleaf⟩ := hP.tables_setRoot hr hi hempty fun hv => ⟨hne hv, hzero hv⟩
  refine ⟨hP.of_exchange (.dir1 r i) (fun _ => Iff.rfl) (fun q => ?_) (fun q u hh hu => ?_)
    hP.nodup rfl (hP.dirs_setRoot hr hi he fun hv b _ => isPointer_of_child (hzero hv b)),
    hdir0, hleaf⟩
  · rw [hheld]
    simp only [PageUses, dir1_setRoot hr hi, true_and, if_true]
  · cases u with
    | held => exact absurd rfl hh
    | dir1 r' i' =>
      have hne : ¬ (r' = r ∧ i' = i) := by
        rintro ⟨rfl, rfl⟩
        exact hu rfl
      simp only [PageUses, dir1_setRoot hr hi, if_neg hne]
    | dir0 r' j => simp only [PageUses, hdir0]
    | _ => exact Iff.rfl

end

/-! ### Stores into a level-1 page -/

section Level1

section

variable (hP : c.PagesOk held)

include hP

/-- A level-1 page is neither a root nor a level-0 page, and it has one place. -/
theorem PagesOk.dir1_apart (hl : c.dir1 r i = some l1) :
    (c.owner l1).isSome = false ∧ (∀ r' j, c.dir0 r' j ≠ some l1) ∧
      ∀ r' i', c.dir1 r' i' = some l1 → r' = r ∧ i' = i := by
  have huse : ∀ u, c.PageUses held l1 u → u = .dir1 r i := fun u hu => hP.exclusive hu hl
  refine ⟨?_, fun r' j hj => ?_, fun r' i' hi' => ?_⟩
  · by_contra hne
    cases huse .root ((Bool.not_eq_false _).mp hne)
  · cases huse (.dir0 r' j) hj
  · have heq := huse (.dir1 r' i') hi'
    injection heq with hr hi
    exact ⟨hr, hi⟩

lemma PagesOk.dir1_setLevel1 (hl : c.dir1 r (j / 512) = some l1) :
    (c.setPte (l1, j % 512) e).dir1 = c.dir1 := by
  funext r' i'
  unfold dir1
  by_cases howner : (c.owner r').isSome
  · have hne : r' ≠ l1 := by
      rintro rfl
      simp [(hP.dir1_apart hl).1] at howner
    rw [(setPte_of_page e hne _).2]
    rfl
  · rw [if_neg (fun hc => howner hc.1), if_neg (fun hc => howner hc.1)]

lemma PagesOk.dir0_setLevel1 (hl : c.dir1 r (j / 512) = some l1) (r' j' : ℕ) :
    (c.setPte (l1, j % 512) e).dir0 r' j' =
      if r' = r ∧ j' = j then (if e.flags.v then some e.num else none) else c.dir0 r' j' := by
  unfold dir0
  rw [hP.dir1_setLevel1 hl]
  by_cases hrj : r' = r ∧ j' = j
  · obtain ⟨rfl, rfl⟩ := hrj
    rw [hl, if_pos ⟨rfl, rfl⟩, Option.bind_some, child_setPte, if_pos rfl]
  · rw [if_neg hrj]
    cases hl' : c.dir1 r' (j' / 512) with
    | none => rfl
    | some l =>
      have hne : (l, j' % 512) ≠ (l1, j % 512) := by
        intro heq
        injection heq with heq hmod
        obtain ⟨hr, hj⟩ := (hP.dir1_apart hl).2.2 _ _ (heq ▸ hl')
        exact hrj ⟨hr, by omega⟩
      exact child_setPte_of_ne e hne

/-- A pointer is stored into a level-1 page. -/
theorem PagesOk.dirs_setLevel1 (hl : c.dir1 r (j / 512) = some l1) (he : e.IsPointer) :
    (c.setPte (l1, j % 512) e).DirsOk where
  root r' i' hr' hi' := by
    rw [ptes_setPte]
    split_ifs
    · exact he
    · exact hP.dirs.root r' i' hr' hi'
  level1 r' i' l b hl' hb := by
    rw [hP.dir1_setLevel1 hl] at hl'
    rw [ptes_setPte]
    split_ifs
    · exact he
    · exact hP.dirs.level1 r' i' l b hl' hb

/-- A store into a level-1 page changes the entries below its index. -/
theorem PagesOk.leaf_setLevel1 (hl : c.dir1 r (j / 512) = some l1)
    (he : e.flags.v = true → e.num ≠ l1 ∧ ∀ b, c.ptes e.num b = {}) (r' v : ℕ) :
    (c.setPte (l1, j % 512) e).leaf r' v = if r' = r ∧ v / 512 = j then {} else c.leaf r' v := by
  have hdir0 := hP.dir0_setLevel1 (e := e) hl r' (v / 512)
  split_ifs at hdir0 ⊢ with hrj hv
  · have href : (c.setPte (l1, j % 512) e).leafRef r' v = some (e.num, v % 512) :=
      leafRef_eq_some.mpr ⟨hdir0, rfl⟩
    rw [leaf_eq_of_ref href, (setPte_of_page e (he hv).1 _).1, (he hv).2]
  · exact leaf_eq_of_none (by simp [leafRef, hdir0])
  · refine leaf_congr (by simp only [leafRef, hdir0]) fun q hq => ?_
    exact (setPte_of_page e (fun heq =>
      (hP.dir1_apart hl).2.1 _ _ (heq ▸ (leafRef_eq_some.mp hq).1)) _).1

/-- The page that is held and a level-0 page are exchanged: the entries of that page are gone, and
the new one has none. -/
theorem PagesOk.exchangeDir0 (hl : c.dir1 r (j / 512) = some l1) (he : e.IsPointer)
    (hheld : held = if e.flags.v then some e.num else none)
    (hzero : e.flags.v = true → ∀ b, c.ptes e.num b = {}) :
    (c.setPte (l1, j % 512) e).PagesOk (c.dir0 r j) ∧ ∀ r' v,
      (c.setPte (l1, j % 512) e).leaf r' v = if r' = r ∧ v / 512 = j then {} else c.leaf r' v := by
  have hne : e.flags.v = true → e.num ≠ l1 := by
    rintro hv rfl
    rw [if_pos hv] at hheld
    subst hheld
    exact hP.held_apart.2.1 _ _ hl
  refine ⟨hP.of_exchange (.dir0 r j) (fun _ => Iff.rfl) (fun q => ?_) (fun q u hh hu => ?_)
    hP.nodup rfl (hP.dirs_setLevel1 hl he),
    hP.leaf_setLevel1 hl fun hv => ⟨hne hv, hzero hv⟩⟩
  · rw [hheld]
    simp only [PageUses, hP.dir0_setLevel1 hl, true_and, if_true]
  · cases u with
    | held => exact absurd rfl hh
    | dir1 r' i' => simp only [PageUses, hP.dir1_setLevel1 hl]
    | dir0 r' j' =>
      have hne : ¬ (r' = r ∧ j' = j) := by
        rintro ⟨rfl, rfl⟩
        exact hu rfl
      simp only [PageUses, hP.dir0_setLevel1 hl, if_neg hne]
    | _ => exact Iff.rfl

end

end Level1

/-! ### Making and removing a table -/

/-- A change of owner of a page that points at nothing. -/
theorem tables_setOwner {o : Option ProcId} (hold : ∀ i, c.dir1 r i = none)
    (hnew : o.isSome → ∀ b, c.child r b = none) :
    (c.setOwner r o).dir1 = c.dir1 ∧ (c.setOwner r o).dir0 = c.dir0 ∧
      (c.setOwner r o).leaf = c.leaf := by
  have hdir1 : (c.setOwner r o).dir1 = c.dir1 := by
    funext r' i
    by_cases hr : r' = r
    · subst hr
      rw [hold, dir1]
      split_ifs with hc
      · exact hnew (by simpa [setOwner] using hc.1) i
      · rfl
    · have howner : (c.setOwner r o).owner r' = c.owner r' := by simp [setOwner, hr]
      unfold dir1
      rw [howner]
      rfl
  have hdir0 : (c.setOwner r o).dir0 = c.dir0 := by
    funext r' j
    unfold dir0
    rw [hdir1]
    rfl
  refine ⟨hdir1, hdir0, ?_⟩
  funext r' v
  exact leaf_congr (by simp only [leafRef, hdir0]) fun _ _ => rfl

lemma PagesOk.dirs_setOwner {o : Option ProcId} (hP : c.PagesOk held)
    (hold : ∀ i, c.dir1 r i = none) (hnew : o.isSome → ∀ b, c.child r b = none) :
    (c.setOwner r o).DirsOk where
  root r' i hr' hi := by
    by_cases hr : r' = r
    · subst hr
      exact isPointer_of_child (hnew (by simpa [setOwner] using hr') i)
    · exact hP.dirs.root r' i (by simpa [setOwner, hr] using hr') hi
  level1 r' i l1 b hl hb := by
    rw [(tables_setOwner hold hnew).1] at hl
    exact hP.dirs.level1 r' i l1 b hl hb

lemma leaf_of_dir1_none (hnone : ∀ i, c.dir1 r i = none) (v : ℕ) : c.leaf r v = {} :=
  leaf_eq_of_none (by simp [leafRef, dir0, hnone])

lemma PagesOk.newRoot (p : ProcId) (hP : c.PagesOk (some pg))
    (hzero : ∀ b, c.child pg b = none) :
    (c.setOwner pg (some p)).PagesOk none ∧ (c.setOwner pg (some p)).leaf = c.leaf := by
  have howner : c.owner pg = none := by simpa using hP.held_apart.1
  have hnone : ∀ i, c.dir1 pg i = none := fun i => by simp [dir1, howner]
  obtain ⟨hdir1, hdir0, hleaf⟩ := tables_setOwner (o := some p) hnone fun _ => hzero
  refine ⟨hP.of_moves (n := pg) (x := .held) (y := .root) ?_ hP.nodup rfl
    (hP.dirs_setOwner hnone fun _ => hzero), hleaf⟩
  refine ⟨by simp, rfl, fun q => ?_, fun q => ?_, fun q u hx hy => ?_⟩
  · simp [PageUses, eq_comm]
  · by_cases hq : q = pg
    · subst hq
      simp [PageUses, setOwner]
    · simp [PageUses, setOwner, hq]
  · cases u with
    | held => exact absurd rfl hx
    | root => exact absurd rfl hy
    | dir1 r i => simp only [PageUses, hdir1]
    | dir0 r j => simp only [PageUses, hdir0]
    | _ => exact Iff.rfl

lemma PagesOk.freeRoot (hP : c.PagesOk none) (hr : (c.owner r).isSome)
    (hnone : ∀ i, c.dir1 r i = none) :
    (c.setOwner r none).PagesOk (some r) ∧ (c.setOwner r none).leaf = c.leaf := by
  obtain ⟨hdir1, hdir0, hleaf⟩ := tables_setOwner (o := none) hnone (by simp)
  refine ⟨hP.of_moves (n := r) (x := .root) (y := .held) ?_ hP.nodup rfl
    (hP.dirs_setOwner hnone (by simp)), hleaf⟩
  refine ⟨by simp, hr, fun q => ?_, fun q => ?_, fun q u hx hy => ?_⟩
  · by_cases hq : q = r
    · subst hq
      simp [PageUses, setOwner]
    · simp [PageUses, setOwner, hq]
  · simp [PageUses, eq_comm]
  · cases u with
    | held => exact absurd rfl hy
    | root => exact absurd rfl hx
    | dir1 r i => simp only [PageUses, hdir1]
    | dir0 r j => simp only [PageUses, hdir0]
    | _ => exact Iff.rfl

/-- A root without level-1 pages is made a table, or is no longer one. -/
theorem Inv.of_setOwner {o : Option ProcId} {held' : Option ℕ} (hI : c.Inv ⟨f, s, held⟩)
    (hnone : ∀ i, c.dir1 r i = none) (hP : (c.setOwner r o).PagesOk held')
    (hleaf : (c.setOwner r o).leaf = c.leaf) : (c.setOwner r o).Inv ⟨f, s, held'⟩ := by
  refine hI.of_tables hP rfl rfl hleaf fun r' v hv => ?_
  have hne : r' ≠ r := by
    rintro rfl
    exact hv (leaf_of_dir1_none hnone v)
  simp [setOwner, hne]

end Directories

end Xv6.VM.Core
