import Xv6.VM.Ownership

/-!
# Elementary changes of ownership

The ways in which the kernel moves a physical page, a frame or a swap slot from one use to another,
and that each keeps the invariant `Core.Inv`. The functions of the kernel are sequences of these
changes.
-/

namespace Xv6.VM.Core

open Ownership Function

variable {c : Core} {h : Held} {held : Option ℕ}

/-! ## Stores into page-table pages -/

/-- Store an entry of a page-table page. -/
def setPte (c : Core) (q : ℕ × ℕ) (e : Pte) : Core :=
  { c with ptes := update c.ptes q.1 (update (c.ptes q.1) q.2 e) }

lemma ptes_setPte (q : ℕ × ℕ) (e : Pte) (pg i : ℕ) :
    (c.setPte q e).ptes pg i = if (pg, i) = q then e else c.ptes pg i := by
  obtain ⟨pg', i'⟩ := q
  by_cases hpg : pg = pg'
  · subst hpg
    simp [setPte, update_apply]
  · simp [setPte, hpg]

lemma child_setPte_of_ne {q : ℕ × ℕ} (e : Pte) {pg i : ℕ} (hne : (pg, i) ≠ q) :
    (c.setPte q e).child pg i = c.child pg i := by
  simp [child, ptes_setPte, hne]

lemma setPte_of_page {q : ℕ × ℕ} (e : Pte) {pg : ℕ} (hne : pg ≠ q.1) (i : ℕ) :
    (c.setPte q e).ptes pg i = c.ptes pg i ∧ (c.setPte q e).child pg i = c.child pg i := by
  simp [child, setPte, hne]

lemma leaf_eq_of_ref {r v : ℕ} {q : ℕ × ℕ} (hq : c.leafRef r v = some q) :
    c.leaf r v = c.ptes q.1 q.2 := by
  simp [leaf, hq]

lemma leaf_eq_of_none {r v : ℕ} (hq : c.leafRef r v = none) : c.leaf r v = {} := by
  simp [leaf, hq]

lemma leafRef_eq_some {r v : ℕ} {q : ℕ × ℕ} :
    c.leafRef r v = some q ↔ c.dir0 r (v / 512) = some q.1 ∧ q.2 = v % 512 := by
  obtain ⟨l0, i⟩ := q
  simp only [leafRef, Option.map_eq_some_iff, Prod.mk.injEq]
  constructor
  · rintro ⟨l, hl, rfl, rfl⟩
    exact ⟨hl, rfl⟩
  · rintro ⟨hl, rfl⟩
    exact ⟨l0, hl, rfl, rfl⟩

lemma dir1_eq_some {r i pg : ℕ} :
    c.dir1 r i = some pg ↔ (c.owner r).isSome ∧ i < 512 ∧ c.child r i = some pg := by
  unfold dir1
  split_ifs with hc
  · simp [hc]
  · exact iff_of_false (by simp) (by tauto)

lemma dir0_eq_some {r j pg : ℕ} :
    c.dir0 r j = some pg ↔ ∃ l1, c.dir1 r (j / 512) = some l1 ∧ c.child l1 (j % 512) = some pg := by
  simp [dir0, Option.bind_eq_some_iff]

lemma PagesOk.leafRef_inj (hP : c.PagesOk held) {r v r' v' : ℕ} {q : ℕ × ℕ}
    (hq : c.leafRef r v = some q)
    (hq' : c.leafRef r' v' = some q) : r' = r ∧ v' = v := by
  rw [leafRef_eq_some] at hq hq'
  have huse : PageUse.dir0 r (v / 512) = .dir0 r' (v' / 512) := hP.exclusive hq.1 hq'.1
  injection huse with hr hv
  exact ⟨hr.symm, by omega⟩

lemma PagesOk.owner_ref (hP : c.PagesOk held) {r v : ℕ} {q : ℕ × ℕ}
    (hq : c.leafRef r v = some q) :
    (c.owner q.1).isSome = false := by
  by_contra hne
  have hroot : c.PageUses held q.1 .root := (Bool.not_eq_false _).mp hne
  have huse : PageUse.dir0 r (v / 512) = .root := hP.exclusive (leafRef_eq_some.mp hq).1 hroot
  cases huse

section SetLeaf

variable {r v : ℕ} {q : ℕ × ℕ} {e : Pte}

section

variable (hP : c.PagesOk held) (hq : c.leafRef r v = some q)

include hP hq

lemma PagesOk.dir1_ref (r' i : ℕ) : c.dir1 r' i ≠ some q.1 := by
  intro hl
  have huse : PageUse.dir0 r (v / 512) = .dir1 r' i := hP.exclusive (leafRef_eq_some.mp hq).1 hl
  cases huse

lemma PagesOk.dir1_setPte (r' i : ℕ) : (c.setPte q e).dir1 r' i = c.dir1 r' i := by
  unfold dir1
  by_cases howner : (c.owner r').isSome
  · have hne : (r', i) ≠ q := by
      rintro rfl
      have := hP.owner_ref hq
      simp_all
    rw [child_setPte_of_ne e hne]
    rfl
  · rw [if_neg (by tauto), if_neg (fun hc => howner hc.1)]

lemma PagesOk.dir0_setPte (r' j : ℕ) : (c.setPte q e).dir0 r' j = c.dir0 r' j := by
  unfold dir0
  rw [hP.dir1_setPte hq]
  cases hl : c.dir1 r' (j / 512) with
  | none => rfl
  | some l1 =>
    have hne : (l1, j % 512) ≠ q := by
      rintro rfl
      exact hP.dir1_ref hq _ _ hl
    exact child_setPte_of_ne e hne

lemma PagesOk.leafRef_setPte (r' v' : ℕ) : (c.setPte q e).leafRef r' v' = c.leafRef r' v' := by
  unfold leafRef
  rw [hP.dir0_setPte hq]

lemma PagesOk.leaf_setPte : (c.setPte q e).leaf = setAt c.leaf r v e := by
  funext r' v'
  have href := hP.leafRef_setPte (e := e) hq r' v'
  by_cases hrv : r' = r ∧ v' = v
  · obtain ⟨rfl, rfl⟩ := hrv
    rw [leaf_eq_of_ref (href.trans hq), setAt_self, ptes_setPte, if_pos rfl]
  · rw [setAt, if_neg hrv]
    cases hq' : c.leafRef r' v' with
    | none => rw [leaf_eq_of_none (href.trans hq'), leaf_eq_of_none hq']
    | some q' =>
      have hne : (q'.1, q'.2) ≠ q := by
        rintro rfl
        exact hrv (hP.leafRef_inj hq hq')
      rw [leaf_eq_of_ref (href.trans hq'), leaf_eq_of_ref hq', ptes_setPte, if_neg hne]

end

@[simp]
lemma setPte_setPte (q : ℕ × ℕ) (e e' : Pte) :
    (c.setPte q e).setPte q e' = c.setPte q e' := by
  simp [setPte]

lemma PagesOk.dirs_setPte (hP : c.PagesOk held) (hq : c.leafRef r v = some q) :
    (c.setPte q e).DirsOk where
  root r' i hr hi := by
    have hne : (r', i) ≠ q := by
      rintro rfl
      have hnone := hP.owner_ref hq
      change (c.owner r').isSome = true at hr
      rw [hnone] at hr
      cases hr
    rw [ptes_setPte, if_neg hne]
    exact hP.dirs.root r' i hr hi
  level1 r' i l1 b hl hb := by
    rw [hP.dir1_setPte hq] at hl
    have hne : (l1, b) ≠ q := by
      rintro rfl
      exact hP.dir1_ref hq r' i hl
    rw [ptes_setPte, if_neg hne]
    exact hP.dirs.level1 r' i l1 b hl hb

lemma DirsOk.congr {c' : Core} (h : c.DirsOk) (hptes : c'.ptes = c.ptes)
    (howner : c'.owner = c.owner) : c'.DirsOk where
  root r i hr hi := by
    rw [hptes]
    rw [howner] at hr
    exact h.root r i hr hi
  level1 r i l1 b hl hb := by
    rw [hptes]
    refine h.level1 r i l1 b ?_ hb
    unfold dir1 child at hl ⊢
    rw [← hptes, ← howner]
    exact hl

/-- The same pages are used if the uses agree up to their names. -/
theorem PagesOk.of_perm {c' : Core} {held' : Option ℕ} (hP : c.PagesOk held)
    (e : PageUse ≃ PageUse) (hiff : ∀ pg u, c'.PageUses held' pg u ↔ c.PageUses held pg (e u))
    (hnodup : c'.freelist.Nodup) (hmanaged : c'.managed = c.managed) (hdirs : c'.DirsOk) :
    c'.PagesOk held' where
  exclusive := hP.exclusive.of_perm e hiff
  null u hu := hP.null (e u) ((hiff 0 u).mp hu)
  nodup := hnodup
  managed pg := by
    rw [hmanaged, hP.managed, e.surjective.exists]
    exact exists_congr fun u => (hiff pg u).symm
  dirs := hdirs

lemma PagesOk.of_iff {c' : Core} {held' : Option ℕ} (hP : c.PagesOk held)
    (hiff : ∀ pg u, c'.PageUses held' pg u ↔ c.PageUses held pg u)
    (hnodup : c'.freelist.Nodup) (hmanaged : c'.managed = c.managed) (hdirs : c'.DirsOk) :
    c'.PagesOk held' :=
  hP.of_perm (.refl _) hiff hnodup hmanaged hdirs

/-- The page that is held and the page put to the use `x` are exchanged. -/
theorem PagesOk.of_exchange {c' : Core} {held' : Option ℕ} (x : PageUse) (hP : c.PagesOk held)
    (hheld : ∀ pg, held' = some pg ↔ c.PageUses held pg x)
    (hx : ∀ pg, c'.PageUses held' pg x ↔ held = some pg)
    (hother : ∀ pg u, u ≠ .held → u ≠ x → (c'.PageUses held' pg u ↔ c.PageUses held pg u))
    (hnodup : c'.freelist.Nodup) (hmanaged : c'.managed = c.managed) (hdirs : c'.DirsOk) :
    c'.PagesOk held' := by
  classical
  refine hP.of_perm (.swap .held x) (fun pg u => ?_) hnodup hmanaged hdirs
  by_cases hu : u = .held
  · rw [hu, Equiv.swap_apply_left]
    exact hheld pg
  · by_cases hux : u = x
    · rw [hux, Equiv.swap_apply_right]
      exact hx pg
    · rw [Equiv.swap_apply_of_ne_of_ne hu hux]
      exact hother pg u hu hux

lemma PagesOk.setPte (hP : c.PagesOk held) (hq : c.leafRef r v = some q) :
    (c.setPte q e).PagesOk held := by
  have hiff : ∀ pg u, (c.setPte q e).PageUses held pg u ↔ c.PageUses held pg u := by
    intro pg u
    cases u with
    | dir1 r' i => simp only [PageUses, hP.dir1_setPte hq]
    | dir0 r' j => simp only [PageUses, hP.dir0_setPte hq]
    | _ => exact Iff.rfl
  exact hP.of_iff hiff hP.nodup rfl (hP.dirs_setPte hq)

end SetLeaf

/-! ## Mapping and unmapping pages -/

lemma PagesOk.pa_inj (hP : c.PagesOk held) {i j : Fin NUM_FRAMES}
    (hi : (c.frametable i).inUse ≠ .free) (hj : (c.frametable j).inUse ≠ .free)
    (hpa : (c.frametable j).pa = (c.frametable i).pa) : j = i := by
  have huse : PageUse.frame i = .frame j :=
    hP.exclusive (r := (c.frametable i).pa) ⟨hi, rfl⟩ ⟨hj, hpa⟩
  injection huse with hij
  exact hij.symm

section Leaf

variable {r v : ℕ} {q : ℕ × ℕ} {e : Pte} {f : Option (Fin NUM_FRAMES)} {s : Option ℕ}
  {i : Fin NUM_FRAMES} {j : ℕ}

/-- A change of the other bits of an entry in use. -/
theorem Inv.setBits (hI : c.Inv h) (hq : c.leafRef r v = some q)
    (hlive : (c.leaf r v).flags.v = true ∨ (c.leaf r v).flags.s = true)
    (hv : e.flags.v = (c.leaf r v).flags.v) (hs : e.flags.s = (c.leaf r v).flags.s)
    (hnum : e.num = (c.leaf r v).num) : (c.setPte q e).Inv h := by
  have hleaf := hI.pages.leaf_setPte (e := e) hq
  have hsame : ∀ r' v', (setAt c.leaf r v e r' v').flags.v = (c.leaf r' v').flags.v ∧
      (setAt c.leaf r v e r' v').flags.s = (c.leaf r' v').flags.s ∧
      (setAt c.leaf r v e r' v').num = (c.leaf r' v').num := by
    intro r' v'
    unfold setAt
    split_ifs with hrv
    · obtain ⟨rfl, rfl⟩ := hrv
      exact ⟨hv, hs, hnum⟩
    · exact ⟨rfl, rfl, rfl⟩
  refine ⟨hI.pages.setPte hq, ?_, ?_, ?_⟩
  · rw [hleaf]
    exact hI.frames.of_agree (fun _ => ⟨rfl, rfl, rfl, rfl⟩) (fun r' v' _ => (hsame r' v').1)
      (fun r' v' _ _ => (hsame r' v').2.2) fun _ _ _ => rfl
  · rw [hleaf]
    exact hI.slots.of_agree (fun r' v' => (hsame r' v').2.1)
      (fun r' v' _ => ⟨(hsame r' v').2.2, (hsame r' v').1⟩) fun _ _ _ => rfl
  · rw [hleaf]
    intro r' v' hv' hs'
    rw [(hsame r' v').1] at hv'
    rw [(hsame r' v').2.1] at hs'
    have hne : ¬ (r' = r ∧ v' = v) := by
      rintro ⟨rfl, rfl⟩
      simp [hv', hs'] at hlive
    rw [setAt, if_neg hne]
    exact hI.shape r' v' hv' hs'

/-- A store of an entry that is not stray, after which frames and slots are in order. -/
theorem Inv.setLeaf {h' : Held} (hI : c.Inv h) (hq : c.leafRef r v = some q)
    (hpage : h'.page = h.page) (he : e.flags.v = false → e.flags.s = false → e = {})
    (hframes : FramesOk c.frametable (setAt c.leaf r v e) c.owner h'.frame)
    (hslots : SlotsOk c.swaptable (setAt c.leaf r v e) c.owner h'.slot) :
    (c.setPte q e).Inv h' := by
  have hleaf := hI.pages.leaf_setPte (e := e) hq
  refine ⟨hpage ▸ hI.pages.setPte hq, by rwa [hleaf], by rwa [hleaf], fun r' v' hv hs => ?_⟩
  rw [hleaf] at hv hs ⊢
  unfold setAt at *
  split_ifs at * with hrv
  · exact he hv hs
  · exact hI.shape r' v' hv hs

lemma Inv.mapFrame (hI : c.Inv ⟨some i, s, held⟩) (hq : c.leafRef r v = some q)
    (hlt : v < USER_TOP) (hleaf : c.leaf r v = {}) (he : e.flags.v = true) (hes : e.flags.s = false)
    (hnum : e.num = (c.frametable i).pa) (hp : (c.frametable i).p = c.owner r)
    (hva : (c.frametable i).va = v * PGSIZE) : (c.setPte q e).Inv ⟨none, s, held⟩ := by
  have hused : (c.frametable i).inUse ≠ .free := hI.frames.cells.held_used i rfl
  refine hI.setLeaf hq rfl (by simp [he]) ?_ (hI.slots.setLeaf (by rw [hleaf]) hes)
  exact hI.frames.attach (fun j hj => hI.pages.pa_inj hused hj) hlt (by rw [hleaf]) he hnum hp hva

lemma Inv.unmapFrame (hI : c.Inv ⟨none, s, held⟩) (hq : c.leafRef r v = some q)
    (hi : Resides c.frametable c.leaf (r, v) i) : (c.setPte q {}).Inv ⟨some i, s, held⟩ := by
  have hsv : (c.leaf r v).flags.s = false := by
    by_contra hs
    have := (hI.slots.swapped (r, v) _ ⟨(Bool.not_eq_false _).mp hs, rfl⟩).1
    simp [hi.2.1] at this
  exact hI.setLeaf hq rfl (fun _ _ => rfl)
    (hI.frames.detach (fun j hj => hI.pages.pa_inj hi.2.2.2 hj) hi rfl) (hI.slots.setLeaf hsv rfl)

lemma Inv.mapSlot (hI : c.Inv ⟨f, some j, held⟩) (hq : c.leafRef r v = some q)
    (hj : j < MAX_SWAP_PAGES) (hlt : v < USER_TOP) (hleaf : c.leaf r v = {})
    (he : e.flags.s = true) (hev : e.flags.v = false) (hnum : e.num = j)
    (hp : (c.swaptable j).p = c.owner r) : (c.setPte q e).Inv ⟨f, none, held⟩ :=
  hI.setLeaf hq rfl (by simp [he]) (hI.frames.setLeaf (fun _ => by rw [hleaf]) fun _ => hev)
    (hI.slots.attach hj hlt (by rw [hleaf]) he hev hnum hp)

lemma Inv.unmapSlot (hI : c.Inv ⟨f, none, held⟩) (hq : c.leafRef r v = some q)
    (hs : Swapped c.leaf (r, v) j) : (c.setPte q {}).Inv ⟨f, some j, held⟩ := by
  have hnv : (c.leaf r v).flags.v = false := (hI.slots.swapped (r, v) j hs).1
  exact hI.setLeaf hq rfl (fun _ _ => rfl) (hI.frames.setLeaf (fun _ => hnv) fun _ => rfl)
    (hI.slots.detach hs rfl)

/-- The entries of the trampoline and the trapframe are not those of user pages. -/
theorem Inv.setUpper (hI : c.Inv h) (hq : c.leafRef r v = some q) (hle : USER_TOP ≤ v)
    (hs : e.flags.s = false) (he : e.flags.v = false → e = {}) : (c.setPte q e).Inv h := by
  have hsv : (c.leaf r v).flags.s = false := by
    by_contra hs'
    have := (hI.slots.swapped (r, v) _ ⟨(Bool.not_eq_false _).mp hs', rfl⟩).2.1
    exact absurd this (by simpa using hle)
  refine hI.setLeaf hq rfl (fun hv _ => he hv) ?_ (hI.slots.setLeaf hsv hs)
  exact hI.frames.setLeaf (fun hlt => absurd hlt (by omega)) fun hlt => absurd hlt (by omega)

end Leaf

/-! ## Allocating and freeing pages -/

/-- A move of one page keeps the uses exclusive. -/
theorem PagesOk.of_moves {c' : Core} {held' : Option ℕ} {n : ℕ} {x y : PageUse}
    (hP : c.PagesOk held) (hm : Moves (c.PageUses held) (c'.PageUses held') n x y)
    (hnodup : c'.freelist.Nodup) (hmanaged : c'.managed = c.managed) (hdirs : c'.DirsOk) :
    c'.PagesOk held' where
  exclusive := hm.exclusive hP.exclusive
  null u hu := by
    obtain ⟨u', hu'⟩ := (hm.used_iff 0).mp ⟨u, hu⟩
    exact hP.null u' hu'
  nodup := hnodup
  managed pg := by
    rw [hmanaged, hP.managed]
    exact (hm.used_iff pg).symm
  dirs := hdirs

lemma PagesOk.kalloc {pg : ℕ} {rest : List ℕ} (hP : c.PagesOk none)
    (hfree : c.freelist = pg :: rest) : { c with freelist := rest }.PagesOk (some pg) := by
  have hnodup := hP.nodup
  rw [hfree, List.nodup_cons] at hnodup
  refine hP.of_moves (n := pg) (x := .free) (y := .held) ?_ hnodup.2 rfl (hP.dirs.congr rfl rfl)
  refine ⟨by simp, by simp [PageUses, hfree], fun q => ?_, fun q => ?_, fun q u hx hy => ?_⟩
  · simp only [PageUses, hfree, List.mem_cons]
    constructor
    · intro hq
      exact ⟨.inr hq, fun heq => hnodup.1 (heq ▸ hq)⟩
    · rintro ⟨rfl | hq, hne⟩
      · exact absurd rfl hne
      · exact hq
  · simp [PageUses, eq_comm]
  · cases u with
    | free => exact absurd rfl hx
    | held => exact absurd rfl hy
    | _ => exact Iff.rfl

lemma PagesOk.kfree {pg : ℕ} (hP : c.PagesOk (some pg)) :
    { c with freelist := pg :: c.freelist }.PagesOk none := by
  have hnot : pg ∉ c.freelist := fun hmem => by
    have huse : PageUse.free = .held := hP.exclusive (r := pg) hmem rfl
    cases huse
  refine hP.of_moves (n := pg) (x := .held) (y := .free) ?_
    (List.nodup_cons.mpr ⟨hnot, hP.nodup⟩) rfl (hP.dirs.congr rfl rfl)
  refine ⟨by simp, rfl, fun q => ?_, fun q => ?_, fun q u hx hy => ?_⟩
  · simp [PageUses, eq_comm]
  · simp [PageUses, or_comm]
  · cases u with
    | free => exact absurd rfl hy
    | held => exact absurd rfl hx
    | _ => exact Iff.rfl

section Pages

variable {f : Option (Fin NUM_FRAMES)} {s : Option ℕ} {i : Fin NUM_FRAMES} {pg : ℕ}

lemma Inv.kalloc {rest : List ℕ} (hI : c.Inv ⟨f, s, none⟩) (hfree : c.freelist = pg :: rest) :
    { c with freelist := rest }.Inv ⟨f, s, some pg⟩ :=
  ⟨hI.pages.kalloc hfree, hI.frames, hI.slots, hI.shape⟩

lemma Inv.kfree (hI : c.Inv ⟨f, s, some pg⟩) :
    { c with freelist := pg :: c.freelist }.Inv ⟨f, s, none⟩ :=
  ⟨hI.pages.kfree, hI.frames, hI.slots, hI.shape⟩

lemma Inv.num_ne (hI : c.Inv h) {u : PageUse} (hu : c.PageUses h.page pg u)
    (hframe : ∀ i, u ≠ .frame i) {r v : ℕ} (hlt : v < USER_TOP)
    (hv : (c.leaf r v).flags.v = true) : (c.leaf r v).num ≠ pg := by
  rintro rfl
  obtain ⟨i, hi⟩ := hI.frames.resident r v hlt hv
  exact hframe i (hI.pages.exclusive hu ⟨hi.2.2.2, hi.2.2.1.symm⟩)

/-- Store into the frame table. -/
def setFrame (c : Core) (i : Fin NUM_FRAMES) (fr : Frame) : Core :=
  { c with frametable := update c.frametable i fr }

lemma PagesOk.setFrame {held' : Option ℕ} {fr : Frame} (hP : c.PagesOk held)
    (hheld : ∀ pg, held' = some pg ↔ c.PageUses held pg (.frame i))
    (hfr : ∀ pg, fr.inUse ≠ .free ∧ fr.pa = pg ↔ held = some pg) :
    (c.setFrame i fr).PagesOk held' := by
  refine hP.of_exchange (.frame i) hheld (by simpa [PageUses, Core.setFrame] using hfr)
    (fun pg u hh hu => ?_) hP.nodup rfl (hP.dirs.congr rfl rfl)
  cases u with
  | held => exact absurd rfl hh
  | frame j =>
    have hj : j ≠ i := fun heq => hu (by rw [heq])
    simp [PageUses, Core.setFrame, hj]
  | _ => exact Iff.rfl

lemma Inv.newFrame (hI : c.Inv ⟨none, s, some pg⟩) (hi : (c.frametable i).inUse = .free)
    {fr : Frame} (hused : fr.inUse = .used) (hpa : fr.pa = pg) :
    (c.setFrame i fr).Inv ⟨some i, s, none⟩ := by
  refine ⟨hI.pages.setFrame (by simp [PageUses, hi]) (by simp [hused, hpa]),
    hI.frames.take hi hused fun r v hlt hv => ?_, hI.slots, hI.shape⟩
  rw [hpa]
  exact hI.num_ne (u := .held) rfl (by simp) hlt hv

lemma Inv.freeFrame (hI : c.Inv ⟨some i, s, none⟩) :
    (c.setFrame i {}).Inv ⟨none, s, some (c.frametable i).pa⟩ := by
  have hused : (c.frametable i).inUse ≠ .free := hI.frames.cells.held_used i rfl
  exact ⟨hI.pages.setFrame (by simp [PageUses, hused]) (by simp), hI.frames.drop, hI.slots,
    hI.shape⟩

lemma Inv.reassignFrame (hI : c.Inv ⟨some i, s, held⟩) {fr : Frame} (hused : fr.inUse = .used)
    (hpa : fr.pa = (c.frametable i).pa) : (c.setFrame i fr).Inv ⟨some i, s, held⟩ := by
  have hused' : (c.frametable i).inUse ≠ .free := hI.frames.cells.held_used i rfl
  have hiff : ∀ q u, (c.setFrame i fr).PageUses held q u ↔ c.PageUses held q u := by
    intro q u
    cases u with
    | frame j =>
      by_cases hj : j = i
      · subst hj
        simp [PageUses, setFrame, hused, hpa, hused']
      · simp [PageUses, setFrame, hj]
    | _ => exact Iff.rfl
  exact ⟨hI.pages.of_iff hiff hI.pages.nodup rfl (hI.pages.dirs.congr rfl rfl),
    hI.frames.reassign hused hpa, hI.slots, hI.shape⟩

lemma Inv.setRef (hI : c.Inv h) (b : Bool) :
    (c.setFrame i { c.frametable i with ref := b }).Inv h := by
  have hft := (forall_update_iff c.frametable (a := i) (b := { c.frametable i with ref := b })
    fun j fr => fr.inUse = (c.frametable j).inUse ∧ fr.p = (c.frametable j).p ∧
      fr.va = (c.frametable j).va ∧ fr.pa = (c.frametable j).pa).mpr
    ⟨⟨rfl, rfl, rfl, rfl⟩, fun _ _ => ⟨rfl, rfl, rfl, rfl⟩⟩
  have hiff : ∀ q u, (c.setFrame i { c.frametable i with ref := b }).PageUses h.page q u ↔
      c.PageUses h.page q u := by
    intro q u
    cases u with
    | frame j => simp only [PageUses, setFrame, (hft j).1, (hft j).2.2.2]
    | _ => exact Iff.rfl
  exact ⟨hI.pages.of_iff hiff hI.pages.nodup rfl (hI.pages.dirs.congr rfl rfl),
    hI.frames.of_agree hft (fun _ _ _ => rfl) (fun _ _ _ _ => rfl) fun _ _ _ => rfl, hI.slots,
    hI.shape⟩

end Pages

/-! ## Swap slots and trapframes -/

section Slots

variable {f : Option (Fin NUM_FRAMES)} {s : Option ℕ} {j pg : ℕ} {p : ProcId}

/-- Store into the swap table. -/
def setSlot (c : Core) (j : ℕ) (sl : SwapSlot) : Core :=
  { c with swaptable := update c.swaptable j sl }

lemma Inv.takeSlot (hI : c.Inv ⟨f, none, held⟩) (hj : (c.swaptable j).inUse = false)
    {w : SwapSlot} (hw : w.inUse = true) : (c.setSlot j w).Inv ⟨f, some j, held⟩ :=
  ⟨hI.pages.of_iff (fun _ u => by cases u <;> exact Iff.rfl) hI.pages.nodup rfl
    (hI.pages.dirs.congr rfl rfl), hI.frames, hI.slots.take hj hw, hI.shape⟩

lemma Inv.freeSlot (hI : c.Inv ⟨f, some j, held⟩) : (c.setSlot j {}).Inv ⟨f, none, held⟩ :=
  ⟨hI.pages.of_iff (fun _ u => by cases u <;> exact Iff.rfl) hI.pages.nodup rfl
    (hI.pages.dirs.congr rfl rfl), hI.frames, hI.slots.drop, hI.shape⟩

/-- Set the trapframe of a process. -/
def setTrapframe (c : Core) (p : ProcId) (pg : ℕ) : Core :=
  { c with trapframe := update c.trapframe p pg }

lemma PagesOk.setTrapframe {held' : Option ℕ} (hP : c.PagesOk held)
    (hheld : ∀ q, held' = some q ↔ c.PageUses held q (.trapframe p))
    (hpg : ∀ q, pg = q ∧ q ≠ 0 ↔ held = some q) : (c.setTrapframe p pg).PagesOk held' := by
  refine hP.of_exchange (.trapframe p) hheld (by simpa [PageUses, Core.setTrapframe] using hpg)
    (fun q u hh hu => ?_) hP.nodup rfl (hP.dirs.congr rfl rfl)
  cases u with
  | held => exact absurd rfl hh
  | trapframe p' =>
    have hp' : p' ≠ p := fun heq => hu (by rw [heq])
    simp [PageUses, Core.setTrapframe, hp']
  | _ => exact Iff.rfl

lemma Inv.newTrapframe (hI : c.Inv ⟨f, s, some pg⟩) (hp : c.trapframe p = 0) :
    (c.setTrapframe p pg).Inv ⟨f, s, none⟩ := by
  have hpg : pg ≠ 0 := fun h0 => hI.pages.null .held (congrArg some h0)
  refine ⟨hI.pages.setTrapframe (fun q => ?_) (fun q => ?_), hI.frames, hI.slots, hI.shape⟩
  · simp [PageUses, hp, eq_comm]
  · rw [Option.some.injEq]
    exact ⟨And.left, fun hq => ⟨hq, hq ▸ hpg⟩⟩

lemma Inv.clearTrapframe (hI : c.Inv ⟨f, s, none⟩) (hp : c.trapframe p ≠ 0) :
    (c.setTrapframe p 0).Inv ⟨f, s, some (c.trapframe p)⟩ := by
  refine ⟨hI.pages.setTrapframe (fun q => ?_) (fun q => ?_), hI.frames, hI.slots, hI.shape⟩
  · rw [Option.some.injEq]
    exact ⟨fun hq => ⟨hq, hq ▸ hp⟩, And.left⟩
  · simp [eq_comm]

end Slots

end Xv6.VM.Core
