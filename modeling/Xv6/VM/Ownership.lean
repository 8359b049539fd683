import Xv6.Foundations.Ownership
import Xv6.VM.Proc

/-!
# Who owns a page, a frame and a swap slot

`Core` is the part of the kernel state that says to what each resource is put: the free list, the
frame and swap tables, the page tables and the page-table and trapframe pointers of the processes.
`Core.PageUses`, `Core.FrameUses` and `Core.SlotUses` are the uses of a physical page, of a frame
and of a swap slot, and `Core.Inv` says that each has at most one. The fields of `Held` name the
resources that an operation in progress has allocated and not yet entered anywhere.

Each elementary change of the kernel moves one resource from one use to another; the lemmas
`Core.Inv.kalloc`, `Core.Inv.mapFrame` and so on say that these moves keep the invariant.
-/

namespace Xv6.VM

open Ownership Function

/-- The first page number above user memory, that of the trapframe. -/
def USER_TOP : ℕ := TRAPFRAME / PGSIZE

/-- The part of the kernel state that decides ownership. -/
structure Core where
  frametable : Fin NUM_FRAMES → Frame
  swaptable : ℕ → SwapSlot
  freelist : List ℕ
  managed : List ℕ
  ptes : ℕ → ℕ → Pte
  owner : ℕ → Option ProcId
  pagetable : ProcId → ℕ
  trapframe : ProcId → ℕ

/-- The ownership state of a kernel state. -/
def Kernel.core {σ : Type} (k : Kernel σ) : Core where
  frametable := k.frametable
  swaptable := k.swaptable
  freelist := k.freelist
  managed := k.managed
  ptes := k.ptes
  owner := k.owner
  pagetable p := (k.proc p).pagetable
  trapframe p := (k.proc p).trapframe

/-- An entry that, if it is valid, has no permissions and so points at a page-table page. -/
def Pte.IsPointer (e : Pte) : Prop :=
  e.flags.v = true → e.flags.r = false ∧ e.flags.w = false ∧ e.flags.x = false

/-- Resources that an operation in progress holds. -/
structure Held where
  frame : Option (Fin NUM_FRAMES) := none
  slot : Option ℕ := none
  page : Option ℕ := none

/-- The uses of a physical page. -/
inductive PageUse where
  | free
  | held
  | frame (i : Fin NUM_FRAMES)
  | root
  | dir1 (r i : ℕ)
  | dir0 (r j : ℕ)
  | trapframe (p : ProcId)

namespace Core

/-! ## Page tables -/

variable (c : Core)

/-- The page-table page that a valid entry points at. -/
def child (pg i : ℕ) : Option ℕ :=
  if (c.ptes pg i).flags.v then some (c.ptes pg i).num else none

/-- The level-1 page at index `i` of the table rooted at `r`. -/
def dir1 (r i : ℕ) : Option ℕ :=
  if (c.owner r).isSome ∧ i < 512 then c.child r i else none

/-- The level-0 page for the pages `512 * j`, ..., `512 * j + 511` of the table rooted at `r`. -/
def dir0 (r j : ℕ) : Option ℕ :=
  (c.dir1 r (j / 512)).bind fun l1 => c.child l1 (j % 512)

/-- Where the entry of page `v` of the table rooted at `r` is. -/
def leafRef (r v : ℕ) : Option (ℕ × ℕ) :=
  (c.dir0 r (v / 512)).map fun l0 => (l0, v % 512)

/-- The entry of page `v` of the table rooted at `r`, zero if there is none. -/
def leaf (r v : ℕ) : Pte :=
  match c.leafRef r v with
  | some q => c.ptes q.1 q.2
  | none => {}

/-! ## Uses -/

/-- The use of a physical page; `held` is the page that the operation in progress holds. -/
def PageUses (held : Option ℕ) (pg : ℕ) : PageUse → Prop
  | .free => pg ∈ c.freelist
  | .held => held = some pg
  | .frame i => (c.frametable i).inUse ≠ .free ∧ (c.frametable i).pa = pg
  | .root => (c.owner pg).isSome
  | .dir1 r i => c.dir1 r i = some pg
  | .dir0 r j => c.dir0 r j = some pg
  | .trapframe p => c.trapframe p = pg ∧ pg ≠ 0

/-- The entries of roots and level-1 pages that are valid point at page-table pages: they have no
permissions. -/
structure DirsOk : Prop where
  root : ∀ r i, (c.owner r).isSome → i < 512 → (c.ptes r i).IsPointer
  level1 : ∀ r i l1 b, c.dir1 r i = some l1 → b < 512 → (c.ptes l1 b).IsPointer

/-- Physical pages have at most one use, and those that `kinit` freed have one. -/
structure PagesOk (held : Option ℕ) : Prop where
  exclusive : Exclusive (c.PageUses held)
  null : ∀ u, ¬ c.PageUses held 0 u
  nodup : c.freelist.Nodup
  managed : ∀ pg, pg ∈ c.managed ↔ ∃ u, c.PageUses held pg u
  dirs : c.DirsOk

end Core

/-! ## Frames and slots -/

/-- Change what a function of tables and pages says about one page. -/
def setAt {α : Type*} (f : ℕ → ℕ → α) (r v : ℕ) (x : α) : ℕ → ℕ → α := fun r' v' =>
  if r' = r ∧ v' = v then x else f r' v'

@[simp]
lemma setAt_self {α : Type*} {f : ℕ → ℕ → α} {r v : ℕ} {x : α} : setAt f r v x r v = x := by
  simp [setAt]

lemma setAt_of_ne {α : Type*} {f : ℕ → ℕ → α} {r v : ℕ} {x : α} {a : ℕ × ℕ} (hne : a ≠ (r, v)) :
    setAt f r v x a.1 a.2 = f a.1 a.2 := by
  refine if_neg fun hc => hne ?_
  ext
  · exact hc.1
  · exact hc.2

section Tables

variable (ft : Fin NUM_FRAMES → Frame) (st : ℕ → SwapSlot) (leaf : ℕ → ℕ → Pte)
  (owner : ℕ → Option ProcId)

/-- The page `a.2` of the table rooted at `a.1` is in the frame `i`. -/
def Resides (a : ℕ × ℕ) (i : Fin NUM_FRAMES) : Prop :=
  a.2 < USER_TOP ∧ (leaf a.1 a.2).flags.v = true ∧ (leaf a.1 a.2).num = (ft i).pa ∧
    (ft i).inUse ≠ .free

/-- The page `a.2` of the table rooted at `a.1` is in the slot `j`. -/
def Swapped (a : ℕ × ℕ) (j : ℕ) : Prop :=
  (leaf a.1 a.2).flags.s = true ∧ (leaf a.1 a.2).num = j

/-- Every frame in use holds one page, whose process and address it knows, and every resident user
page is in a frame. -/
structure FramesOk (held : Option (Fin NUM_FRAMES)) : Prop where
  cells : Cells (fun i => (ft i).inUse ≠ .free) held (Resides ft leaf)
  notPinned : ∀ i, (ft i).inUse ≠ .pinned
  owned : ∀ a i, Resides ft leaf a i → (ft i).p = owner a.1 ∧ (ft i).va = a.2 * PGSIZE
  resident : ∀ r v, v < USER_TOP → (leaf r v).flags.v = true → ∃ i, Resides ft leaf (r, v) i
  blank : ∀ i, (ft i).inUse = .free → (ft i).p = none

/-- Every slot in use holds one page, whose process it knows. -/
structure SlotsOk (held : Option ℕ) : Prop where
  cells : Cells (fun j => (st j).inUse = true) held (Swapped leaf)
  owned : ∀ a j, Swapped leaf a j → (st j).p = owner a.1
  swapped : ∀ a j, Swapped leaf a j →
    (leaf a.1 a.2).flags.v = false ∧ a.2 < USER_TOP ∧ j < MAX_SWAP_PAGES

variable {ft st leaf owner} {ft' : Fin NUM_FRAMES → Frame} {leaf' : ℕ → ℕ → Pte}
  {owner' : ℕ → Option ProcId} {r v : ℕ} {e : Pte}

namespace FramesOk

variable {held : Option (Fin NUM_FRAMES)} {i : Fin NUM_FRAMES}

/-- Only the frames in use and the valid entries of user pages matter. -/
theorem of_agree (h : FramesOk ft leaf owner held)
    (hft : ∀ i, (ft' i).inUse = (ft i).inUse ∧ (ft' i).p = (ft i).p ∧ (ft' i).va = (ft i).va ∧
      (ft' i).pa = (ft i).pa)
    (hv : ∀ r v, v < USER_TOP → (leaf' r v).flags.v = (leaf r v).flags.v)
    (hnum : ∀ r v, v < USER_TOP → (leaf r v).flags.v = true → (leaf' r v).num = (leaf r v).num)
    (howner : ∀ r v, (leaf r v).flags.v = true → owner' r = owner r) :
    FramesOk ft' leaf' owner' held := by
  have href : ∀ a i, Resides ft' leaf' a i ↔ Resides ft leaf a i := by
    intro a i
    unfold Resides
    refine and_congr_right fun hlt => ?_
    rw [hv _ _ hlt, (hft i).1, (hft i).2.2.2]
    refine and_congr_right fun hva => ?_
    rw [hnum _ _ hlt hva]
  refine ⟨h.cells.of_iff (fun i => by rw [(hft i).1]) href, fun i => ?_, fun a i hr => ?_,
    fun r v hlt hva => ?_, fun i hi => ?_⟩
  · rw [(hft i).1]
    exact h.notPinned i
  · rw [href] at hr
    rw [(hft i).2.1, (hft i).2.2.1, howner _ _ hr.2.1]
    exact h.owned a i hr
  · rw [hv _ _ hlt] at hva
    simp only [href]
    exact h.resident r v hlt hva
  · rw [(hft i).1] at hi
    rw [(hft i).2.1]
    exact h.blank i hi

/-- An entry that is not the valid entry of a user page before and after does not matter. -/
theorem setLeaf (h : FramesOk ft leaf owner held)
    (hleaf : v < USER_TOP → (leaf r v).flags.v = false) (he : v < USER_TOP → e.flags.v = false) :
    FramesOk ft (setAt leaf r v e) owner held := by
  have hv : ∀ r' v', v' < USER_TOP →
      (setAt leaf r v e r' v').flags.v = (leaf r' v').flags.v := by
    intro r' v' hlt
    unfold setAt
    split_ifs with hrv
    · obtain ⟨rfl, rfl⟩ := hrv
      rw [hleaf hlt, he hlt]
    · rfl
  refine h.of_agree (fun _ => ⟨rfl, rfl, rfl, rfl⟩) hv (fun r' v' hlt hv' => ?_) fun _ _ _ => rfl
  have hne : ¬ (r' = r ∧ v' = v) := by
    rintro ⟨rfl, rfl⟩
    simp [hleaf hlt] at hv'
  simp [setAt, hne]

lemma used (h : FramesOk ft leaf owner held) (hi : (ft i).inUse ≠ .free) :
    (ft i).inUse = .used := by
  have := h.notPinned i
  cases hu : (ft i).inUse <;> simp_all

/-- A frame is changed in which no page resides, before and after. -/
theorem setFrame (h : FramesOk ft leaf owner held) {held' : Option (Fin NUM_FRAMES)} {f : Frame}
    (hno : ∀ a, ¬Resides ft leaf a i) (hnew : ∀ a, ¬Resides (update ft i f) leaf a i)
    (hpinned : f.inUse ≠ .pinned) (hblank : f.inUse = .free → f.p = none)
    (hcells : Cells (fun j => (update ft i f j).inUse ≠ .free) held' (Resides ft leaf)) :
    FramesOk (update ft i f) leaf owner held' := by
  have href : ∀ a j, Resides (update ft i f) leaf a j ↔ Resides ft leaf a j := by
    intro a j
    by_cases hj : j = i
    · subst hj
      exact iff_of_false (hnew a) (hno a)
    · simp [Resides, hj]
  refine ⟨hcells.of_iff (fun _ => Iff.rfl) href, fun j => ?_, fun a j hr => ?_,
    fun r v hlt hva => ?_, fun j hj => ?_⟩
  · by_cases hj : j = i
    · subst hj
      simpa using hpinned
    · simpa [hj] using h.notPinned j
  · rw [href] at hr
    have hj : j ≠ i := by
      rintro rfl
      exact hno a hr
    simpa [hj] using h.owned a j hr
  · simp only [href]
    exact h.resident r v hlt hva
  · by_cases hji : j = i
    · subst hji
      simpa using hblank (by simpa using hj)
    · simpa [hji] using h.blank j (by simpa [hji] using hj)

/-- `kalloc_user` takes a free frame for a page that nothing maps. -/
theorem take (h : FramesOk ft leaf owner none) (hi : (ft i).inUse = .free) {f : Frame}
    (hf : f.inUse = .used)
    (hfresh : ∀ r v, v < USER_TOP → (leaf r v).flags.v = true → (leaf r v).num ≠ f.pa) :
    FramesOk (update ft i f) leaf owner (some i) := by
  refine h.setFrame (fun a hr => hr.2.2.2 hi) ?_ (by simp [hf]) (by simp [hf])
    (h.cells.take (by simpa using hi) fun j => ?_)
  · rintro a ⟨ha, hva, hn, -⟩
    rw [update_self] at hn
    exact hfresh _ _ ha hva hn
  · by_cases hj : j = i
    · subst hj
      simp [hf]
    · simp [hj]

/-- The held frame is given to another page. -/
theorem reassign (h : FramesOk ft leaf owner (some i)) {f : Frame} (hf : f.inUse = .used)
    (hpa : f.pa = (ft i).pa) : FramesOk (update ft i f) leaf owner (some i) := by
  have hused : (ft i).inUse ≠ .free := h.cells.held_used i rfl
  refine h.setFrame (fun a => h.cells.held_ref a i rfl) ?_ (by simp [hf]) (by simp [hf])
    (h.cells.of_iff (fun j => ?_) fun _ _ => Iff.rfl)
  · rintro a ⟨ha, hva, hn, -⟩
    rw [update_self, hpa] at hn
    exact h.cells.held_ref a i rfl ⟨ha, hva, hn, hused⟩
  · by_cases hj : j = i
    · subst hj
      simp [hf, hused]
    · simp [hj]

lemma drop (h : FramesOk ft leaf owner (some i)) :
    FramesOk (update ft i {}) leaf owner none := by
  refine h.setFrame (fun a => h.cells.held_ref a i rfl) (fun a hr => ?_) (by simp) (by simp)
    (h.cells.drop fun j => ?_)
  · simpa using hr.2.2.2
  · by_cases hj : j = i
    · subst hj
      simp
    · simp [hj]

lemma attach (h : FramesOk ft leaf owner (some i))
    (hdist : ∀ j, (ft j).inUse ≠ .free → (ft j).pa = (ft i).pa → j = i) (hlt : v < USER_TOP)
    (hleaf : (leaf r v).flags.v = false) (he : e.flags.v = true) (hnum : e.num = (ft i).pa)
    (hp : (ft i).p = owner r) (hva : (ft i).va = v * PGSIZE) :
    FramesOk ft (setAt leaf r v e) owner none := by
  have hused : (ft i).inUse ≠ .free := h.cells.held_used i rfl
  have href : ∀ b j, Resides ft (setAt leaf r v e) b j ↔
      (b = (r, v) ∧ j = i) ∨ (b ≠ (r, v) ∧ Resides ft leaf b j) := by
    intro b j
    by_cases hb : b = (r, v)
    · subst hb
      simp only [Resides, setAt_self, he, hnum, hlt, true_and, ne_eq, not_true, false_and, or_false]
      constructor
      · rintro ⟨hpa, hu⟩
        exact hdist j hu hpa.symm
      · rintro rfl
        exact ⟨rfl, hused⟩
    · simp [Resides, setAt_of_ne hb, hb]
  have hnone : ∀ j, ¬ Resides ft leaf (r, v) j := by
    rintro j ⟨-, hv, -⟩
    simp [hleaf] at hv
  refine ⟨h.cells.attach href hnone, h.notPinned, fun b j hr => ?_, fun r' v' hlt' hv' => ?_,
    h.blank⟩
  · rcases (href b j).mp hr with ⟨rfl, rfl⟩ | ⟨-, hr⟩
    · exact ⟨hp, hva⟩
    · exact h.owned b j hr
  · by_cases hb : (r', v') = (r, v)
    · exact ⟨i, (href _ _).mpr (.inl ⟨hb, rfl⟩)⟩
    · rw [setAt_of_ne hb] at hv'
      obtain ⟨j, hj⟩ := h.resident r' v' hlt' hv'
      exact ⟨j, (href _ _).mpr (.inr ⟨hb, hj⟩)⟩

lemma detach (h : FramesOk ft leaf owner none)
    (hdist : ∀ j, (ft j).inUse ≠ .free → (ft j).pa = (ft i).pa → j = i)
    (hi : Resides ft leaf (r, v) i) (he : e.flags.v = false) :
    FramesOk ft (setAt leaf r v e) owner (some i) := by
  have href : ∀ b j, Resides ft (setAt leaf r v e) b j ↔ b ≠ (r, v) ∧ Resides ft leaf b j := by
    intro b j
    by_cases hb : b = (r, v)
    · subst hb
      simp [Resides, he]
    · simp [Resides, setAt_of_ne hb, hb]
  have hself : ∀ j, Resides ft leaf (r, v) j ↔ j = i := by
    intro j
    constructor
    · intro hj
      exact hdist j hj.2.2.2 (by rw [← hj.2.2.1, hi.2.2.1])
    · rintro rfl
      exact hi
  refine ⟨h.cells.detach hself href, h.notPinned, fun b j hr => h.owned b j ((href b j).mp hr).2,
    fun r' v' hlt' hv' => ?_, h.blank⟩
  by_cases hb : (r', v') = (r, v)
  · injection hb with hr hv
    subst hr hv
    simp [he] at hv'
  · rw [setAt_of_ne hb] at hv'
    obtain ⟨j, hj⟩ := h.resident r' v' hlt' hv'
    exact ⟨j, (href _ _).mpr ⟨hb, hj⟩⟩

end FramesOk

namespace SlotsOk

variable {st' : ℕ → SwapSlot} {held : Option ℕ} {j : ℕ}

/-- Only the swapped entries matter. -/
theorem of_agree (h : SlotsOk st leaf owner held)
    (hs : ∀ r v, (leaf' r v).flags.s = (leaf r v).flags.s)
    (hnum : ∀ r v, (leaf r v).flags.s = true →
      (leaf' r v).num = (leaf r v).num ∧ (leaf' r v).flags.v = (leaf r v).flags.v)
    (howner : ∀ r v, (leaf r v).flags.s = true → owner' r = owner r) :
    SlotsOk st leaf' owner' held := by
  have href : ∀ a j, Swapped leaf' a j ↔ Swapped leaf a j := by
    intro a j
    unfold Swapped
    rw [hs]
    refine and_congr_right fun hsw => ?_
    rw [(hnum _ _ hsw).1]
  refine ⟨h.cells.of_iff (fun _ => Iff.rfl) href, fun a j hr => ?_, fun a j hr => ?_⟩
  · rw [href] at hr
    rw [howner _ _ hr.1]
    exact h.owned a j hr
  · rw [href] at hr
    rw [(hnum _ _ hr.1).2]
    exact h.swapped a j hr

/-- An entry that is not swapped before and after does not matter. -/
theorem setLeaf (h : SlotsOk st leaf owner held) (hleaf : (leaf r v).flags.s = false)
    (he : e.flags.s = false) : SlotsOk st (setAt leaf r v e) owner held := by
  have hs : ∀ r' v', (setAt leaf r v e r' v').flags.s = (leaf r' v').flags.s := by
    intro r' v'
    unfold setAt
    split_ifs with hrv
    · rw [hrv.1, hrv.2, hleaf, he]
    · rfl
  refine h.of_agree hs (fun r' v' hs' => ?_) fun _ _ _ => rfl
  have hne : ¬ (r' = r ∧ v' = v) := by
    rintro ⟨rfl, rfl⟩
    simp [hleaf] at hs'
  simp [setAt, hne]

lemma take (h : SlotsOk st leaf owner none) (hj : (st j).inUse = false) {s : SwapSlot}
    (hs : s.inUse = true) : SlotsOk (update st j s) leaf owner (some j) := by
  refine ⟨h.cells.take (by simp [hj]) fun j' => ?_, fun a j' hr => ?_, h.swapped⟩
  · by_cases hj' : j' = j
    · subst hj'
      simp [hs]
    · simp [hj']
  · have hj' : j' ≠ j := by
      rintro rfl
      simpa [hj] using h.cells.ref_used a j' hr
    simpa [hj'] using h.owned a j' hr

lemma drop (h : SlotsOk st leaf owner (some j)) :
    SlotsOk (update st j {}) leaf owner none := by
  refine ⟨h.cells.drop fun j' => ?_, fun a j' hr => ?_, h.swapped⟩
  · by_cases hj' : j' = j
    · subst hj'
      simp
    · simp [hj']
  · have hj' : j' ≠ j := by
      rintro rfl
      exact h.cells.held_ref a j' rfl hr
    simpa [hj'] using h.owned a j' hr

lemma attach (h : SlotsOk st leaf owner (some j)) (hj : j < MAX_SWAP_PAGES) (hlt : v < USER_TOP)
    (hleaf : (leaf r v).flags.s = false) (he : e.flags.s = true) (hev : e.flags.v = false)
    (hnum : e.num = j) (hp : (st j).p = owner r) :
    SlotsOk st (setAt leaf r v e) owner none := by
  have href : ∀ b j', Swapped (setAt leaf r v e) b j' ↔
      (b = (r, v) ∧ j' = j) ∨ (b ≠ (r, v) ∧ Swapped leaf b j') := by
    intro b j'
    by_cases hb : b = (r, v)
    · subst hb
      simpa [Swapped, he, hnum] using eq_comm
    · simp [Swapped, setAt_of_ne hb, hb]
  have hnone : ∀ j', ¬ Swapped leaf (r, v) j' := by
    rintro j' ⟨hs, -⟩
    simp [hleaf] at hs
  refine ⟨h.cells.attach href hnone, fun b j' hr => ?_, fun b j' hr => ?_⟩
  · rcases (href b j').mp hr with ⟨rfl, rfl⟩ | ⟨-, hr⟩
    · exact hp
    · exact h.owned b j' hr
  · rcases (href b j').mp hr with ⟨rfl, rfl⟩ | ⟨hb, hr⟩
    · exact ⟨by simpa using hev, hlt, hj⟩
    · rw [setAt_of_ne hb]
      exact h.swapped b j' hr

lemma detach (h : SlotsOk st leaf owner none) (hs : Swapped leaf (r, v) j)
    (he : e.flags.s = false) : SlotsOk st (setAt leaf r v e) owner (some j) := by
  have href : ∀ b j', Swapped (setAt leaf r v e) b j' ↔ b ≠ (r, v) ∧ Swapped leaf b j' := by
    intro b j'
    by_cases hb : b = (r, v)
    · subst hb
      simp [Swapped, he]
    · simp [Swapped, setAt_of_ne hb, hb]
  have hself : ∀ j', Swapped leaf (r, v) j' ↔ j' = j := by
    intro j'
    constructor
    · intro hj'
      rw [← hj'.2, hs.2]
    · rintro rfl
      exact hs
  refine ⟨h.cells.detach hself href, fun b j' hr => h.owned b j' ((href b j').mp hr).2,
    fun b j' hr => ?_⟩
  obtain ⟨hb, hr⟩ := (href b j').mp hr
  rw [setAt_of_ne hb]
  exact h.swapped b j' hr

end SlotsOk

end Tables

namespace Core

/-- The ownership invariant. -/
structure Inv (c : Core) (h : Held) : Prop where
  pages : c.PagesOk h.page
  frames : FramesOk c.frametable c.leaf c.owner h.frame
  slots : SlotsOk c.swaptable c.leaf c.owner h.slot
  /-- An entry that is neither valid nor swapped is zero. -/
  shape : ∀ r v, (c.leaf r v).flags.v = false → (c.leaf r v).flags.s = false → c.leaf r v = {}

end Core

end Xv6.VM
