import Xv6.VM.ProcSpec
import Xv6.VM.ArgLayout

/-!
# Replacing the image of a process

The specification of `kexec`. The new image is built in a page table that is not yet that of the
process, so none of its pages is evicted meanwhile: `get_victim` looks the pages of a frame up in
the table of its process. That is why the stores of `loadseg` and `copyout` into the new image find
their pages resident. `Kernel.Building` relates the state in the middle of `kexec` to the address
space that `AddressSpace.exec` has computed so far.
-/

namespace Xv6.VM.Kernel

open Fallible Function List Nat Space

variable {σ : Type} {D : SwapDev σ} {k0 k k' : Kernel σ} {h : Held} {p : ProcId}
  {r v va pa off : ℕ} {q : ℕ × ℕ} {a a' : AddressSpace} {x : UPage}

/-! ## Stores to user pages -/

lemma page_setMem_leaf (hI : k.core.Inv h) (hlt : v < USER_TOP)
    (hv : (k.core.leaf r v).flags.v = true) (pg : Page) :
    (k.setMem (k.core.leaf r v).num pg).page D =
      setAt (k.page D) r v (some (.ofFlags (D.seen pg) (k.core.leaf r v).flags)) := by
  funext r' v'
  unfold setAt
  split_ifs with hrv
  · rw [hrv.1, hrv.2, page_of_valid (k := k.setMem (k.core.leaf r v).num pg) hlt hv]
    simp [setMem, core]
  · refine page_congr Iff.rfl ⟨rfl, rfl, rfl, fun _ => rfl⟩ (fun hlt' hv' => ?_) fun _ _ _ => rfl
    refine update_of_ne (fun heq => hrv ?_) _ _
    -- both pages would be in the same frame
    obtain ⟨i, hi⟩ := hI.frames.resident r v hlt hv
    have hi' : Resides k.core.frametable k.core.leaf (r', v') i :=
      ⟨hlt', hv', heq.trans hi.2.2.1, hi.2.2.2⟩
    have := hI.frames.cells.ref_inj _ _ i hi' hi
    injection this with h1 h2
    exact ⟨h1, h2⟩

/-- Storing bytes into a resident user page. -/
theorem page_write (hI : k.core.Inv h) (hlt : v < USER_TOP)
    (hv : (k.core.leaf r v).flags.v = true) (hnum : (k.core.leaf r v).num = pa)
    (off : ℕ) (bytes : List UInt8) :
    (k.setMem pa ((k.mem pa).write off bytes)).page D =
      update (k.page D) r (write D.seen (k.page D r) v off bytes) := by
  rw [← hnum, page_setMem_leaf hI hlt hv, setAt_eq_update, write, page_of_valid hlt hv]
  simp only [Option.map_some, UPage.ofFlags]
  rw [SwapDev.seen_write]

/-! ## The state while the image is built -/

/-- The table rooted at `r` holds the address space `a`, and everything else is as in `k0`. -/
structure Building (D : SwapDev σ) (k0 : Kernel σ) (r : ℕ) (k : Kernel σ) (a : AddressSpace) :
    Prop where
  inv : k.core.Inv {}
  same : k0.Same k
  page : k.page D = update (k0.page D) r a.page
  top : pageCount a.sz ≤ USER_TOP
  above : ∀ v, pageCount a.sz ≤ v → a.page v = none

lemma Building.page_self (hB : Building D k0 r k a) : k.page D r = a.page := by
  rw [hB.page, update_self]

lemma Building.valid (hB : Building D k0 r k a) (hres : k.Resident r) (hx : a.page v = some x) :
    v < USER_TOP ∧ (k.core.leaf r v).flags.v = true ∧
      x.u = (k.core.leaf r v).flags.u ∧ x.w = (k.core.leaf r v).flags.w := by
  have hlt : v < USER_TOP := by
    by_contra hge
    have htop := hB.top
    rw [hB.above v (by omega)] at hx
    cases hx
  rw [← hB.page_self] at hx
  have hv : (k.core.leaf r v).flags.v = true := by
    by_contra hv
    rw [page_of_empty (hB.inv.shape r v ((Bool.not_eq_true _).mp hv) (hres v))] at hx
    cases hx
  rw [page_of_valid hlt hv] at hx
  rw [← Option.some.inj hx]
  exact ⟨hlt, hv, rfl, rfl⟩

lemma Building.write (hB : Building D k0 r k a) (hres : k.Resident r) (hlt : v < USER_TOP)
    (hv : (k.core.leaf r v).flags.v = true) (hnum : (k.core.leaf r v).num = pa)
    (off : ℕ) (bytes : List UInt8) :
    Building D k0 r (k.setMem pa ((k.mem pa).write off bytes))
        ⟨a.sz, a.page.write D.seen v off bytes⟩ ∧
      (k.setMem pa ((k.mem pa).write off bytes)).Resident r := by
  refine ⟨⟨hB.inv, hB.same, ?_, hB.top, fun v' hv' => ?_⟩, hres⟩
  · rw [page_write hB.inv hlt hv hnum, hB.page, update_idem, update_self]
  · exact write_eq_none.mpr (hB.above v' hv')

/-! ## `loadseg` -/

/-- What `walkaddr` found if it did not return null. -/
theorem walkaddr_ok (hr : (k.owner r).isSome) (hrun : k.walkaddr r va = .ok pa) (hpa : pa ≠ 0) :
    (k.core.leaf r (va / PGSIZE)).flags.v = true ∧ (k.core.leaf r (va / PGSIZE)).flags.u = true ∧
      (k.core.leaf r (va / PGSIZE)).num = pa := by
  unfold walkaddr at hrun
  split_ifs at hrun
  · cases hrun
    exact absurd rfl hpa
  · obtain ⟨o, hwalk, hrun⟩ := bind_eq_ok.mp hrun
    obtain ⟨-, href⟩ := walk_ok hr hwalk
    cases o with
    | none =>
      cases hrun
      exact absurd rfl hpa
    | some q =>
      dsimp only at hrun
      rw [pte_eq_leaf href] at hrun
      split_ifs at hrun with hc
      · cases hrun
        exact absurd rfl hpa
      · injection hrun with hrun
        simp only [not_or, Bool.not_eq_false] at hc
        exact ⟨hc.1, hc.2, hrun⟩

/-- The loop of `loadseg` at page `v`. -/
theorem loadsegLoop_spec (hr : (k0.owner r).isSome) (ip : File) (m : ℕ) :
    ∀ {k k' : Kernel σ} {v offset sz : ℕ} {s : Space} {n : ℕ} {b : Bool},
    Building D k0 r k ⟨n, s⟩ → k.Resident r → v + m ≤ pageCount n →
    k.loadsegLoop r ip m (v * PGSIZE) offset sz = .ok (b, k') →
    ∃ s', Building D k0 r k' ⟨n, s'⟩ ∧ k'.Resident r ∧
      (b = true → s.loadseg D.seen ip m v offset sz = some s') := by
  induction m with
  | zero =>
    intro k k' v offset sz s n b hB hres hle hrun
    cases hrun
    exact ⟨s, hB, hres, fun _ => rfl⟩
  | succ m ih =>
    intro k k' v offset sz s n b hB hres hle hrun
    unfold loadsegLoop at hrun
    obtain ⟨pa, hwalk, hrun⟩ := bind_eq_ok.mp hrun
    rw [Space.loadseg]
    dsimp only at hrun ⊢
    generalize (if sz < PGSIZE then sz else PGSIZE) = cnt at hrun ⊢
    generalize ip.readi (offset % 2 ^ 32) cnt = bytes at hrun ⊢
    by_cases hpa : pa = 0
    · rw [if_pos hpa] at hrun
      cases hrun
    rw [if_neg hpa] at hrun
    obtain ⟨hv, -, hnum⟩ := walkaddr_ok (by rw [hB.same.owner]; exact hr) hwalk hpa
    rw [mul_pgsize_div] at hv hnum
    have htop : pageCount n ≤ USER_TOP := hB.top
    obtain ⟨hB', hres'⟩ := hB.write hres (by omega) hv hnum 0 bytes
    by_cases hlen : bytes.length ≠ cnt
    · rw [if_pos hlen] at hrun
      cases hrun
      exact ⟨_, hB', hres', by simp⟩
    · rw [if_neg hlen] at hrun
      rw [← succ_mul] at hrun
      obtain ⟨s', hB2, hres2, hload⟩ := ih (v := v + 1) (n := n) hB' hres' (by omega) hrun
      refine ⟨s', hB2, hres2, fun hb => ?_⟩
      rw [if_neg hlen]
      exact hload hb

/-! ## The program headers -/

lemma setRange_eq_update (g : ℕ → ℕ → Option UPage) (r a n : ℕ) (x : Option UPage) :
    setRange g r a n x = update g r (fill (g r) a n x) := by
  funext r' v
  by_cases hr : r' = r
  · subst hr
    simp [setRange, fill]
  · simp [setRange, hr]

lemma pageCount_add (v x : ℕ) : pageCount (v * PGSIZE + x) = v + pageCount x := by
  change (v * 4096 + x + 4096 - 1) / 4096 = v + (x + 4096 - 1) / 4096
  omega

lemma pageCount_max (a b : ℕ) : pageCount (max a b) = max (pageCount a) (pageCount b) := by
  rcases le_total a b with hab | hab
  · rw [max_eq_right hab, max_eq_right (pageCount_mono hab)]
  · rw [max_eq_left hab, max_eq_left (pageCount_mono hab)]

section Build

variable (howner : k0.owner r = some p) (hframed : k0.Framed r) (hun : k0.Unattached r)
  (ha : k0.Attached)

include howner hframed hun ha

lemma Building.uvmalloc {newsz sz : ℕ} {xperm : Flags} (hB : Building D k0 r k a)
    (hres : k.Resident r) (hperm : xperm.s = false)
    (hrun : k.uvmalloc D p r a.sz newsz xperm = .ok (sz, k')) :
    (sz = max a.sz newsz ∧ k'.Resident r ∧ Building D k0 r k'
      ⟨sz, a.page.alloc a.sz newsz { xperm with r := true, u := true }⟩) ∨
    (sz = 0 ∧ Building D k0 r k' a) := by
  obtain ⟨hI, hsame, hcases⟩ := uvmalloc_spec (D := D) hperm hB.inv (hB.same.attached ha)
    (by rw [hB.same.owner, howner]) (hB.same.framed hframed) hB.top
    (fun v hv => by rw [hB.page_self, hB.above v hv]) hrun
  rcases hcases with ⟨hsz, htop, hpage, hres'⟩ | ⟨hsz, hpage⟩
  · refine .inl ⟨hsz, hres' (hB.same.unattached hun) hres, hI, hB.same.trans hsame, ?_, htop,
      fun v hv => ?_⟩
    · rw [hpage, setRange_eq_update, hB.page, update_idem, update_self]
      rfl
    · rw [hsz, pageCount_max] at hv
      change (if _ ∧ _ then _ else _) = _
      rw [if_neg (by omega)]
      exact hB.above v (by omega)
  · exact .inr ⟨hsz, hI, hB.same.trans hsame, by rw [hpage, hB.page], hB.top, hB.above⟩

/-- One program header: the segment is loaded as `AddressSpace.loadHeader` says, or `kexec` fails
with what has been built so far in the table. -/
theorem loadHeader_spec {ip : File} {off sz : ℕ} {b : Bool} (hB : Building D k0 r k a)
    (hres : k.Resident r) (hrun : k.loadHeader D p ip r off a.sz = .ok ((b, sz), k')) :
    ∃ a', a'.sz = sz ∧ Building D k0 r k' a' ∧
      (b = true → k'.Resident r ∧ a.loadHeader D.seen ip off = some a') := by
  unfold loadHeader at hrun
  unfold AddressSpace.loadHeader
  dsimp only at hrun ⊢
  generalize ip.readi off PROGHDR_SIZE = bytes at hrun ⊢
  generalize ProgHdr.ofBytes bytes = ph at hrun ⊢
  -- the checks that fail leave everything as it is
  have hfail : (Except.ok ((false, a.sz), k) : Except String _) = .ok ((b, sz), k') →
      ∀ o : Option AddressSpace, ∃ a', a'.sz = sz ∧ Building D k0 r k' a' ∧
        (b = true → k'.Resident r ∧ o = some a') := by
    intro heq o
    cases heq
    exact ⟨a, rfl, hB, by simp⟩
  by_cases h1 : bytes.length ≠ PROGHDR_SIZE
  · rw [if_pos h1] at hrun
    exact hfail hrun _
  rw [if_neg h1] at hrun ⊢
  by_cases h2 : ph.type ≠ ELF_PROG_LOAD
  · rw [if_pos h2] at hrun ⊢
    cases hrun
    exact ⟨a, rfl, hB, fun _ => ⟨hres, rfl⟩⟩
  rw [if_neg h2] at hrun ⊢
  by_cases h3 : ph.memsz < ph.filesz
  · rw [if_pos h3] at hrun
    exact hfail hrun _
  rw [if_neg h3] at hrun ⊢
  by_cases h4 : (ph.vaddr + ph.memsz) % 2 ^ 64 < ph.vaddr
  · rw [if_pos h4] at hrun
    exact hfail hrun _
  rw [if_neg h4] at hrun ⊢
  by_cases h5 : ph.vaddr % PGSIZE ≠ 0
  · rw [if_pos h5] at hrun
    exact hfail hrun _
  rw [if_neg h5] at hrun ⊢
  obtain ⟨⟨sz1, k1⟩, halloc, hrun⟩ := bind_eq_ok.mp hrun
  dsimp only at hrun
  rcases hB.uvmalloc howner hframed hun ha hres rfl halloc with ⟨rfl, hres1, hB1⟩ | ⟨rfl, hB1⟩
  · by_cases h6 : max a.sz (ph.vaddr + ph.memsz) = 0
    · -- an empty segment at address zero in an empty image
      rw [if_pos h6] at hrun
      cases hrun
      refine ⟨_, ?_, hB1, by simp⟩
      change max a.sz (ph.vaddr + ph.memsz) = a.sz
      omega
    rw [if_neg h6] at hrun ⊢
    obtain ⟨⟨ok, k2⟩, hload, hrun⟩ := bind_eq_ok.mp hrun
    cases hrun
    unfold loadseg at hload
    dsimp only at hload
    have hva : ph.vaddr = ph.vaddr / PGSIZE * PGSIZE := by
      have := div_add_mod' ph.vaddr PGSIZE
      omega
    have hcount : pagesFrom 0 (ph.filesz % 2 ^ 32) = pageCount (ph.filesz % 2 ^ 32) :=
      pagesFrom_eq 0 _
    have hle : ph.vaddr / PGSIZE + pageCount (ph.filesz % 2 ^ 32) ≤
        pageCount (max a.sz (ph.vaddr + ph.memsz)) := by
      rw [← pageCount_add, ← hva]
      have := mod_le ph.filesz (2 ^ 32)
      exact pageCount_mono (by omega)
    rw [hcount] at hload
    obtain ⟨s', hB2, hres2, hs⟩ := loadsegLoop_spec (by rw [howner]; rfl) ip _ hB1 hres1 hle
      (by rw [← hva]; exact hload)
    refine ⟨_, rfl, hB2, fun hb => ⟨hres2, ?_⟩⟩
    rw [hs hb]
    rfl
  · rw [if_pos rfl] at hrun
    cases hrun
    exact ⟨a, rfl, hB1, by simp⟩

lemma loadHeaders_spec {ip : File} (n : ℕ) : ∀ {k k' : Kernel σ} {a : AddressSpace}
    {off sz : ℕ} {b : Bool}, Building D k0 r k a → k.Resident r →
    k.loadHeaders D p ip r n off a.sz = .ok ((b, sz), k') →
    ∃ a', a'.sz = sz ∧ Building D k0 r k' a' ∧
      (b = true → k'.Resident r ∧ a.loadHeaders D.seen ip n off = some a') := by
  induction n with
  | zero =>
    intro k k' a off sz b hB hres hrun
    cases hrun
    exact ⟨a, rfl, hB, fun _ => ⟨hres, rfl⟩⟩
  | succ n ih =>
    intro k k' a off sz b hB hres hrun
    unfold loadHeaders at hrun
    obtain ⟨⟨⟨b1, sz1⟩, k1⟩, hhead, hrun⟩ := bind_eq_ok.mp hrun
    obtain ⟨a1, rfl, hB1, hok⟩ := loadHeader_spec howner hframed hun ha hB hres hhead
    cases b1 with
    | false =>
      cases hrun
      exact ⟨a1, rfl, hB1, by simp⟩
    | true =>
      obtain ⟨hres1, hhead'⟩ := hok rfl
      obtain ⟨a2, hsz, hB2, hok2⟩ := ih hB1 hres1 hrun
      refine ⟨a2, hsz, hB2, fun hb => ⟨(hok2 hb).1, ?_⟩⟩
      rw [AddressSpace.loadHeaders, hhead']
      exact (hok2 hb).2

end Build

/-! ## The stack -/

lemma walk_of_valid (hr : (k.owner r).isSome) (hlt : v * PGSIZE < MAXVA)
    (hv : (k.core.leaf r v).flags.v = true) :
    ∃ q, k.core.leafRef r v = some q ∧ k.walk r (v * PGSIZE) = .ok (some q) := by
  have hwalk := walk_eq hr hlt
  rw [mul_pgsize_div] at hwalk
  cases hq : k.core.leafRef r v with
  | none =>
    rw [Core.leaf_eq_of_none hq] at hv
    cases hv
  | some q => exact ⟨q, rfl, hwalk.trans (by rw [hq])⟩

lemma Building.uvmclear (hB : Building D k0 r k a) (hres : k.Resident r)
    (hr : (k0.owner r).isSome) (hx : a.page v = some x) :
    ∃ k', k.uvmclear r (v * PGSIZE) = .ok k' ∧ Building D k0 r k' ⟨a.sz, a.page.clearU v⟩ ∧
      k'.Resident r := by
  obtain ⟨hlt, hv, -, -⟩ := hB.valid hres hx
  obtain ⟨q, href, hwalk⟩ := walk_of_valid (by rw [hB.same.owner]; exact hr)
    (mul_pgsize_lt_maxva hlt) hv
  have hleaf : (k.setPte q (k.core.leaf r v).clearU).core.leaf =
      setAt k.core.leaf r v (k.core.leaf r v).clearU := hB.inv.pages.leaf_setPte href
  refine ⟨k.setPte q (k.core.leaf r v).clearU, ?_, ⟨hB.inv.setBits href (.inl hv) rfl rfl rfl, ?_,
    ?_, hB.top, fun v' hv' => ?_⟩, fun v' => ?_⟩
  · unfold Kernel.uvmclear
    rw [bind_of_ok hwalk, ← pte_eq_leaf href]
    rfl
  · refine hB.same.trans (.mk rfl rfl (fun r' v' hle => ?_) rfl rfl rfl rfl rfl)
    rw [hleaf, setAt, if_neg (by rintro ⟨-, rfl⟩; omega)]
  · rw [page_setPte hB.inv href, setAt_eq_update, hB.page, update_idem, update_self]
    have hself : k.page D r v = a.page v := by rw [hB.page_self]
    rw [clearU, ← hself, page_of_valid hlt hv]
    simp [entryPage, Pte.clearU, hv, not_le.mpr hlt, UPage.ofFlags]
  · have hne : v' ≠ v := by
      rintro rfl
      rw [hB.above v' hv'] at hx
      cases hx
    change update a.page v _ v' = none
    rw [update_of_ne hne]
    exact hB.above v' hv'
  · rw [hleaf]
    unfold setAt
    split_ifs
    · exact hres v
    · exact hres v'

lemma walkaddr_eq (hr : (k.owner r).isSome) (hlt : v * PGSIZE < MAXVA)
    (hv : (k.core.leaf r v).flags.v = true) (hu : (k.core.leaf r v).flags.u = true) :
    k.walkaddr r (v * PGSIZE) = .ok (k.core.leaf r v).num := by
  obtain ⟨q, hq, hwalk⟩ := walk_of_valid hr hlt hv
  unfold walkaddr
  rw [if_neg (by omega), bind_of_ok hwalk]
  change (if _ ∨ _ then _ else _) = _
  rw [pte_eq_leaf hq, if_neg (by simp [hv, hu])]

/-- `copyout` to part of one page of the image, which the user can write. -/
theorem Building.copyout {src : List UInt8} (hB : Building D k0 r k a)
    (hres : k.Resident r) (hr : (k0.owner r).isSome) (hx : a.page v = some x) (hu : x.u = true)
    (hw : x.w = true) (hfit : off + src.length ≤ PGSIZE) (hsrc : src ≠ []) :
    ∃ k', k.copyout D p r (v * PGSIZE + off) src = .ok (true, k') ∧
      Building D k0 r k' ⟨a.sz, a.page.write D.seen v off src⟩ ∧ k'.Resident r := by
  obtain ⟨hlt, hv, hxu, hxw⟩ := hB.valid hres hx
  rw [hxu] at hu
  rw [hxw] at hw
  have hr' : (k.owner r).isSome := by rw [hB.same.owner]; exact hr
  have hva := mul_pgsize_lt_maxva hlt
  obtain ⟨q, hq, hwalk⟩ := walk_of_valid hr' hva hv
  have hnum : (k.core.leaf r v).num ≠ 0 := by
    obtain ⟨i, hi⟩ := hB.inv.frames.resident r v hlt hv
    rw [hi.2.2.1]
    exact pa_ne_zero hB.inv hi.2.2.2
  have hpa : k.userPa D p r (v * PGSIZE) = .ok ((k.core.leaf r v).num, k) := by
    unfold userPa
    rw [bind_of_ok (walkaddr_eq hr' hva hv hu), if_neg hnum]
    rfl
  obtain ⟨c, cs, rfl⟩ := exists_cons_of_ne_nil hsrc
  have hoff : off < PGSIZE := by
    rw [length_cons] at hfit
    omega
  have hdown : pgrounddown (v * PGSIZE + off) = v * PGSIZE := by
    unfold pgrounddown
    rw [Nat.mul_comm v PGSIZE, Nat.mul_add_div (by decide), Nat.div_eq_of_lt hoff, Nat.add_zero,
      Nat.mul_comm]
  -- after the first page nothing is left
  have hdone : ∀ fuel va (k1 : Kernel σ), copyoutLoop D p r fuel va [] k1 = .ok (true, k1) := by
    intro fuel va k1
    cases fuel <;> rfl
  refine ⟨_, ?_, hB.write hres hlt hv rfl off (c :: cs)⟩
  unfold Kernel.copyout
  rw [length_cons, copyoutLoop, if_neg (by simp)]
  dsimp only
  rw [hdown, if_neg (by omega), bind_of_ok hpa]
  dsimp only
  rw [if_neg hnum, bind_of_ok hwalk]
  dsimp only
  rw [pte_eq_leaf hq, if_neg (by simp [hw]), Nat.add_sub_cancel_left,
    take_of_length_le (by omega), drop_eq_nil_of_le (by omega), hdone]

lemma sub64_eq {x y : ℕ} (hle : y ≤ x) (hlt : x < 2 ^ 64) : sub64 x y = x - y := by
  unfold sub64
  omega

/-- The stack of the image: one page that the user can write, above at least one other page. -/
structure StackPage (s : Space) (v : ℕ) : Prop where
  pos : 0 < v
  page : ∃ x, s v = some x ∧ x.u = true ∧ x.w = true

lemma StackPage.write {s : Space} {see : Page → Page} {v' : ℕ} {bytes : List UInt8}
    (h : StackPage s v) : StackPage (s.write see v' off bytes) v := by
  obtain ⟨x, hx, hu, hw⟩ := h.page
  obtain ⟨bytes', hx'⟩ := write_eq_some see hx v' off bytes
  exact ⟨h.pos, _, hx', hu, hw⟩

lemma Building.push {src : List UInt8} {sp : ℕ} (hB : Building D k0 r k a)
    (hres : k.Resident r) (hr : (k0.owner r).isSome) (hstack : StackPage a.page v)
    (hsp : sp ≤ (v + 1) * PGSIZE) (hsrc : src ≠ [])
    (hbase : v * PGSIZE ≤ sp - src.length - (sp - src.length) % 16) :
    ∃ k', k.copyout D p r (sp - src.length - (sp - src.length) % 16) src = .ok (true, k') ∧
      Building D k0 r k'
        ⟨a.sz, a.page.write D.seen ((sp - src.length - (sp - src.length) % 16) / PGSIZE)
          ((sp - src.length - (sp - src.length) % 16) % PGSIZE) src⟩ ∧ k'.Resident r := by
  obtain ⟨x, hx, hu, hw⟩ := hstack.page
  have hlen : 0 < src.length := length_pos_iff.mpr hsrc
  have hpos := hstack.pos
  generalize hsp' : sp - src.length - (sp - src.length) % 16 = sp' at *
  obtain ⟨off, rfl⟩ := Nat.exists_eq_add_of_le hbase
  have hfit : off + src.length ≤ PGSIZE := by
    change sp ≤ (v + 1) * 4096 at hsp
    change sp - src.length - (sp - src.length) % 16 = v * 4096 + off at hsp'
    change off + src.length ≤ 4096
    omega
  have hdiv : (v * PGSIZE + off) / PGSIZE = v ∧ (v * PGSIZE + off) % PGSIZE = off := by
    change off + src.length ≤ 4096 at hfit
    change (v * 4096 + off) / 4096 = v ∧ (v * 4096 + off) % 4096 = off
    omega
  rw [hdiv.1, hdiv.2]
  exact hB.copyout hres hr hx hu hw hfit hsrc

/-- The arguments of `kexec` are copied to the stack as `Space.pushArgs` says, or do not fit. -/
theorem pushArgs_spec (hr : (k0.owner r).isSome) (htop : v < USER_TOP)
    (argv : List (List UInt8)) : ∀ {k : Kernel σ} {n : ℕ} {s : Space} {sp : ℕ} {ustack : List ℕ},
    Building D k0 r k ⟨n, s⟩ → k.Resident r → StackPage s v →
    v * PGSIZE ≤ sp → sp ≤ (v + 1) * PGSIZE → ustack.length ≤ MAXARG →
    (∀ arg ∈ argv, arg.length < PGSIZE) →
    ∃ o k' s', k.pushArgs D p r (v * PGSIZE) argv sp ustack = .ok (o, k') ∧
      Building D k0 r k' ⟨n, s'⟩ ∧
      s.pushArgs D.seen (v * PGSIZE) argv sp ustack = o.map (·, s') ∧
      ∀ w, o = some w → k'.Resident r ∧ StackPage s' v ∧
        v * PGSIZE ≤ w.1 ∧ w.1 ≤ (v + 1) * PGSIZE ∧ w.2.length ≤ MAXARG := by
  induction argv with
  | nil =>
    intro k n s sp ustack hB hres hstack hbase hsp hustack _
    refine ⟨some (sp, ustack), k, s, rfl, hB, rfl, fun w hw => ?_⟩
    cases hw
    exact ⟨hres, hstack, hbase, hsp, hustack⟩
  | cons arg argv ih =>
    intro k n s sp ustack hB hres hstack hbase hsp hustack hargs
    have hsub : sub64 sp (arg.length + 1) = sp - (arg ++ [0]).length := by
      have hlen := hargs arg mem_cons_self
      have hpos := hstack.pos
      rw [length_append, length_singleton]
      change v < 67108862 at htop
      change arg.length < 4096 at hlen
      change v * 4096 ≤ sp at hbase
      change sp ≤ (v + 1) * 4096 at hsp
      exact sub64_eq (by omega) (by omega)
    have hplus : arg.length + 1 = (arg ++ [0]).length := by simp
    unfold Kernel.pushArgs
    rw [Space.pushArgs]
    dsimp only
    rw [hsub, hplus]
    by_cases hmax : MAXARG ≤ ustack.length
    · exact ⟨none, k, s, if_pos hmax, hB, if_pos hmax, by simp⟩
    rw [if_neg hmax, if_neg hmax]
    by_cases hlow : sp - (arg ++ [0]).length - (sp - (arg ++ [0]).length) % 16 < v * PGSIZE
    · exact ⟨none, k, s, if_pos hlow, hB, if_pos hlow, by simp⟩
    rw [if_neg hlow, if_neg hlow]
    obtain ⟨k1, hcopy, hB1, hres1⟩ :=
      hB.push (p := p) hres hr hstack hsp (by simp) (Nat.le_of_not_lt hlow)
    rw [bind_of_ok hcopy]
    refine ih hB1 hres1 hstack.write (by omega) (by omega) ?_
      fun arg' harg' => hargs arg' (mem_cons_of_mem _ harg')
    rw [length_append, length_singleton]
    omega

/-- Only the number of pages of an image matters. -/
theorem Building.congr_sz {sz : ℕ} (hB : Building D k0 r k a)
    (hsz : pageCount sz = pageCount a.sz) :
    Building D k0 r k ⟨sz, a.page⟩ :=
  ⟨hB.inv, hB.same, hB.page, hsz.trans_le hB.top, fun v hv => hB.above v (hsz.symm.trans_le hv)⟩

section Build

variable (howner : k0.owner r = some p) (hframed : k0.Framed r) (hun : k0.Unattached r)
  (ha : k0.Attached)

include howner hframed hun ha

/-- The stack is built as `AddressSpace.buildStack` says, or `kexec` fails because the arguments do
not fit, or `uvmalloc` fails, whatever the arguments are. -/
theorem buildStack_spec (argv : List (List UInt8)) (hB : Building D k0 r k a) (hres : k.Resident r)
    (hargs : ∀ arg ∈ argv, arg.length < PGSIZE) :
    (∃ o k' a', k.buildStack D p r a.sz argv = .ok ((o, a'.sz), k') ∧ Building D k0 r k' a' ∧
      (∀ w, o = some w → a.buildStack D.seen argv = some a' ∧
        w = (argv.length, a'.sz - argBytes argv)) ∧
      (o = none → a.buildStack D.seen argv = none ∨
        ∀ argv', k.buildStack D p r a.sz argv' = .ok ((none, a'.sz), k'))) ∨
    ∃ msg, ∀ argv', k.buildStack D p r a.sz argv' = .error msg := by
  have hr : (k0.owner r).isSome := by simp [howner]
  have hB0 : Building D k0 r k ⟨pgroundup a.sz, a.page⟩ :=
    hB.congr_sz (by rw [pgroundup_eq, pageCount_mul])
  have hstart argv' := Kernel.buildStack.eq_1 D k p r a.sz argv'
  cases halloc : k.uvmalloc D p r (pgroundup a.sz) (pgroundup a.sz + (USERSTACK + 1) * PGSIZE)
    { w := true } with
  | error msg => exact .inr ⟨msg, fun argv' => (hstart argv').trans (bind_of_error halloc _)⟩
  | ok res =>
  left
  obtain ⟨sz1, k1⟩ := res
  rcases hB0.uvmalloc howner hframed hun ha hres rfl halloc with ⟨hsz1, hres1, hB1⟩ | ⟨hsz1, hB1⟩
  · have hsz1' : sz1 = pgroundup a.sz + (USERSTACK + 1) * PGSIZE := by
      rw [hsz1]
      exact max_eq_right (le_add_right _ _)
    subst hsz1'
    rw [hstart]
    unfold AddressSpace.buildStack
    dsimp only
    rw [bind_of_ok halloc]
    dsimp only
    rw [if_neg (by simp [USERSTACK, PGSIZE])]
    -- the stack is the page above the guard page `n`
    obtain ⟨n, hn⟩ : ∃ n, n = pageCount a.sz := ⟨_, rfl⟩
    have hsz : pgroundup a.sz + (USERSTACK + 1) * PGSIZE = (n + 1 + 1) * PGSIZE := by
      rw [pgroundup_eq, ← hn, ← Nat.add_mul]
      rfl
    have hguard : (n + 1 + 1) * PGSIZE - (USERSTACK + 1) * PGSIZE = n * PGSIZE := by
      rw [← Nat.sub_mul]
      rfl
    have hbase : (n + 1 + 1) * PGSIZE - USERSTACK * PGSIZE = (n + 1) * PGSIZE := by
      rw [← Nat.sub_mul]
      rfl
    dsimp only at hB1
    change Building D k0 r k1 ⟨_, a.page.alloc _ _ lazyPerm⟩ at hB1
    rw [hsz, hguard, ← hn, hbase]
    rw [hsz] at hB1
    have halloc' : ∀ v, n ≤ v → v < n + 2 →
        a.page.alloc (pgroundup a.sz) ((n + 1 + 1) * PGSIZE) lazyPerm v =
          some (.zeros lazyPerm) := by
      intro v h1 h2
      refine if_pos ?_
      rw [pgroundup_eq, pageCount_mul, pageCount_mul, ← hn]
      omega
    generalize a.page.alloc (pgroundup a.sz) ((n + 1 + 1) * PGSIZE) lazyPerm = s1 at *
    obtain ⟨k2, hclear, hB2, hres2⟩ := hB1.uvmclear hres1 hr (halloc' n le_rfl (by omega))
    have htop : n + 1 < USER_TOP := by
      have := hB1.top
      rw [pageCount_mul] at this
      omega
    have hstack : StackPage (s1.clearU n) (n + 1) := by
      refine ⟨by omega, .zeros lazyPerm, ?_, rfl, rfl⟩
      change update s1 n _ (n + 1) = _
      rw [update_of_ne (by omega)]
      exact halloc' (n + 1) (by omega) (by omega)
    have hempty : ([] : List ℕ).length ≤ MAXARG := zero_le _
    obtain ⟨o1, k3, s3, hpush, hB3, hargs3, hok⟩ := pushArgs_spec (p := p) hr htop argv hB2 hres2
      hstack (by rw [Nat.add_mul (n + 1)]; omega) le_rfl hempty hargs
    rw [bind_of_ok hclear, bind_of_ok hpush, hargs3]
    cases o1 with
    | none => exact ⟨none, k3, _, rfl, hB3, nofun, fun _ => .inl rfl⟩
    | some w =>
      obtain ⟨sp, ustack⟩ := w
      obtain ⟨hres3, hstack3, hbase3, hsp3, hlen3⟩ := hok _ rfl
      obtain ⟨hargc, hsp, hmod⟩ := pushArgs_result D.seen (by unfold PGSIZE; omega)
        (by unfold PGSIZE; omega) (by unfold PGSIZE; omega) hargs3
      have hlen := length_flatMap_toBytes 8 (ustack ++ [0])
      rw [length_append, length_singleton, Nat.mul_comm] at hlen
      have hsub : sub64 sp ((ustack.length + 1) * 8) = sp - (ustack.length + 1) * 8 := by
        change n + 1 < 67108862 at htop
        change ustack.length ≤ 32 at hlen3
        change (n + 1) * 4096 ≤ sp at hbase3
        change sp ≤ (n + 1 + 1) * 4096 at hsp3
        exact sub64_eq (by omega) (by omega)
      change ∃ o k' a', (if sub64 sp ((ustack.length + 1) * 8) -
        sub64 sp ((ustack.length + 1) * 8) % 16 < (n + 1) * PGSIZE then _ else _) = _ ∧ _ ∧
        (∀ w, _ → (if _ < _ then _ else _) = some a' ∧ _) ∧
        (_ → (if _ < _ then _ else _) = none ∨ _)
      rw [hsub, ← hlen]
      generalize hsrc : (ustack ++ [0]).flatMap (toBytes 8) = src at *
      have hne : src ≠ [] := by
        rintro rfl
        simp at hlen
      by_cases hlow : sp - src.length - (sp - src.length) % 16 < (n + 1) * PGSIZE
      · rw [if_pos hlow, if_pos hlow]
        exact ⟨none, k3, _, rfl, hB3, nofun, fun _ => .inl rfl⟩
      rw [if_neg hlow, if_neg hlow]
      obtain ⟨k4, hcopy, hB4, -⟩ :=
        hB3.push (p := p) hres3 hr hstack3 hsp3 hne (Nat.le_of_not_lt hlow)
      rw [bind_of_ok hcopy]
      refine ⟨some _, k4, _, rfl, hB4, fun w hw => ⟨rfl, ?_⟩, nofun⟩
      cases hw
      refine Prod.ext hargc ?_
      change sp - src.length - (sp - src.length) % 16 = _
      rw [push_eq hmod (by change ustack.length ≤ 32 at hlen3; unfold PGSIZE at *; omega), hlen,
        hargc, hsp, Nat.sub_sub]
      rfl
  · refine ⟨none, k1, _, ?_, hB1, nofun, fun _ => .inr fun argv' => ?_⟩
    all_goals exact (hstart _).trans ((bind_of_ok halloc _).trans (if_pos hsz1))

/-- The image is built as `AddressSpace.exec` says, or `kexec` fails because the arguments do not
fit, or it fails whatever the arguments are. -/
theorem buildImage_spec (ip : File) (elf : ElfHdr) (argv : List (List UInt8))
    (hB : Building D k0 r k ⟨0, fun _ => none⟩) (hres : k.Resident r)
    (hargs : ∀ arg ∈ argv, arg.length < PGSIZE) :
    (∃ o k' a', k.buildImage D p ip elf r argv = .ok ((o, a'.sz), k') ∧ Building D k0 r k' a' ∧
      (∀ w, o = some w → ((AddressSpace.loadHeaders D.seen ip elf.phnum (elf.phoff % 2 ^ 32)
        ⟨0, fun _ => none⟩).bind fun a => a.buildStack D.seen argv) = some a' ∧
        w = (argv.length, a'.sz - argBytes argv)) ∧
      (o = none → (∃ a : AddressSpace, a.buildStack D.seen argv = none) ∨
        ∀ argv', k.buildImage D p ip elf r argv' = .ok ((none, a'.sz), k'))) ∨
    ∃ msg, ∀ argv', k.buildImage D p ip elf r argv' = .error msg := by
  have hstart argv' := buildImage.eq_1 D k p ip elf r argv'
  cases hload : loadHeaders D p ip r elf.phnum (elf.phoff % 2 ^ 32) 0 k with
  | error msg => exact .inr ⟨msg, fun argv' => (hstart argv').trans (bind_of_error hload _)⟩
  | ok res =>
  obtain ⟨⟨b, sz1⟩, k1⟩ := res
  obtain ⟨a1, rfl, hB1, hok⟩ := loadHeaders_spec howner hframed hun ha _ hB hres hload
  have hloaded argv' := (hstart argv').trans (bind_of_ok hload _)
  cases b with
  | false => exact .inl ⟨none, k1, a1, hloaded _, hB1, nofun, fun _ => .inr hloaded⟩
  | true =>
    obtain ⟨hres1, hload'⟩ := hok rfl
    refine (buildStack_spec howner hframed hun ha argv hB1 hres1 hargs).imp ?_
      fun ⟨msg, hmsg⟩ => ⟨msg, fun argv' => (hloaded argv').trans (hmsg argv')⟩
    rintro ⟨o, k2, a2, hrun, hB2, hsome, hnone⟩
    refine ⟨o, k2, a2, (hloaded _).trans hrun, hB2, fun w hw => ?_, fun ho => ?_⟩
    · rw [hload']
      exact hsome w hw
    · exact (hnone ho).imp (⟨a1, ·⟩) fun hno argv' => (hloaded argv').trans (hno argv')

end Build

/-! ## `kexec` -/

/-- A table with the trapframe and the trampoline mapped. -/
theorem framed_of_upper (hupper : k.rest.upper r = framedUpper) : k.Framed r := by
  intro v htop hva
  have hbits : k.rest.upper r v = upperBits (k.core.leaf r v) := if_pos htop
  rw [← hbits, hupper]
  refine if_pos ?_
  have hmax : MAXVA = (USER_TOP + 2) * PGSIZE := by decide
  rw [hmax] at hva
  have := Nat.lt_of_mul_lt_mul_right hva
  omega

namespace NewTable

variable (hnew : NewTable D k p r k')

include hnew

lemma owner : k'.owner r = some p := by
  have := congrFun (congrArg Rest.owner hnew.rest) r
  exact this.trans (update_self _ _ _)

lemma proc : k'.proc = k.proc := congrArg Rest.proc hnew.rest

lemma framed : k'.Framed r := by
  refine framed_of_upper ?_
  rw [hnew.rest]
  exact update_self _ _ _

lemma attached (ha : k.Attached) : k'.Attached := by
  intro p' hp'
  rw [hnew.proc] at hp' ⊢
  have howner : k'.owner = update k.owner r (some p) := congrArg Rest.owner hnew.rest
  have hne : (k.proc p').pagetable ≠ r := by
    rintro heq
    have := ha p' hp'
    rw [heq, hnew.fresh] at this
    cases this
  rw [howner, update_of_ne hne]
  exact ha p' hp'

lemma unattached (ha : k.Attached) : k'.Unattached r := by
  intro p' heq
  rw [hnew.proc] at heq
  have := ha p' (by rw [heq]; exact hnew.ne_zero)
  rw [heq, hnew.fresh] at this
  cases this

lemma resident : k'.Resident r := by
  intro v
  by_contra hs
  obtain ⟨-, hlt, -⟩ := hnew.inv.slots.swapped (r, v) _ ⟨(Bool.not_eq_false _).mp hs, rfl⟩
  rw [hnew.leaf v hlt] at hs
  exact hs rfl

lemma building : Building D k' r k' ⟨0, fun _ => none⟩ := by
  refine ⟨hnew.inv, rfl, ?_, by decide, fun _ _ => rfl⟩
  refine (update_eq_self_iff.mpr ?_).symm
  funext v
  rw [hnew.page, page_of_unowned hnew.fresh]

/-- What has been built in a new table. -/
theorem image {ip : File} {elf : ElfHdr} {argv : List (List UInt8)} {o : Option (ℕ × ℕ)} {sz : ℕ}
    {k1 : Kernel σ} (ha : k.Attached) (hargs : ∀ arg ∈ argv, arg.length < PGSIZE)
    (hrun : k'.buildImage D p ip elf r argv = .ok ((o, sz), k1)) :
    ∃ a', a'.sz = sz ∧ Building D k' r k1 a' ∧
      (∀ w, o = some w → ((AddressSpace.loadHeaders D.seen ip elf.phnum (elf.phoff % 2 ^ 32)
        ⟨0, fun _ => none⟩).bind fun a => a.buildStack D.seen argv) = some a' ∧
        w = (argv.length, a'.sz - argBytes argv)) ∧
      (o = none → (∃ a : AddressSpace, a.buildStack D.seen argv = none) ∨
        ∀ argv', k'.buildImage D p ip elf r argv' = .ok ((none, sz), k1)) := by
  rcases buildImage_spec hnew.owner hnew.framed (hnew.unattached ha) (hnew.attached ha) ip elf argv
    hnew.building hnew.resident hargs with ⟨o, k2, a, hrun', hspec⟩ | ⟨msg, hmsg⟩
  · rw [hrun'] at hrun
    cases hrun
    exact ⟨a, rfl, hspec⟩
  · rw [hmsg] at hrun
    cases hrun

/-- A new table is given back with what has been built in it. -/
theorem discard {k1 k2 : Kernel σ} (hB : Building D k' r k1 a)
    (hrun : k1.procFreepagetable r a.sz = .ok k2) :
    k2.core.Inv {} ∧ k2.page D = k.page D ∧ k.Same k2 := by
  obtain ⟨hI, hpage, hrest⟩ := procFreepagetable_spec (D := D) hB.inv
    (by rw [hB.same.owner, hnew.owner]; rfl) (by rw [pgroundup_div]; exact hB.top)
    (fun v hs => by
      rw [pgroundup_div]
      exact lt_of_swapped (D := D) hB.inv (by rw [hB.page_self]; exact hB.above) hs) hrun
  refine ⟨hI, ?_, ?_⟩
  · rw [hpage, hB.page, dropTable_eq, update_idem, hnew.page]
    refine update_eq_self_iff.mpr ?_
    funext v
    rw [page_of_unowned hnew.fresh]
  · unfold Same
    rw [hrest, show k1.rest = k'.rest from hB.same, hnew.rest]
    refine Rest.drop_eq hnew.fresh (fun v => ?_) rfl (fun r' hr' => ?_) fun r' hr' => ?_
    · simp [Kernel.rest, leaf_of_unowned hnew.fresh, upperBits]
    · exact update_of_ne hr' _ _
    · exact update_of_ne hr' _ _

end NewTable

/-- `kexec` replaces the address space of `p` by the one that `AddressSpace.exec` describes, or
fails and changes no abstract page. -/
theorem kexec_spec {trampoline : ℕ} {ip : File} {argv : List (List UInt8)} {b : Bool}
    (hI : k.core.Inv {}) (ha : k.Attached)
    (hr : k.owner (k.proc p).pagetable = some p) (hsz : pageCount (k.proc p).sz ≤ USER_TOP)
    (habove : ∀ v, pageCount (k.proc p).sz ≤ v → k.page D (k.proc p).pagetable v = none)
    (hargs : ∀ arg ∈ argv, arg.length < PGSIZE)
    (hrun : k.kexec D trampoline p ip argv = .ok (b, k')) :
    k'.core.Inv {} ∧
      ((b = false ∧ k'.page D = k.page D ∧ k.Same k' ∧
          ((∃ a : AddressSpace, a.buildStack D.seen argv = none) ∨
            ∀ argv', k.kexec D trampoline p ip argv' = .ok (false, k'))) ∨
        (b = true ∧ ∃ a r regs, AddressSpace.exec D.seen ip argv = some a ∧
          (regs.a0 = argv.length ∧ regs.a1 = a.sz - argBytes argv ∧ regs.sp = regs.a1) ∧
          k.owner r = none ∧ r ≠ 0 ∧ pageCount a.sz ≤ USER_TOP ∧
            (∀ v, pageCount a.sz ≤ v → a.page v = none) ∧
          k'.page D =
            dropTable (update (k.page D) r a.page) (k.proc p).pagetable none ∧
          k'.rest = { (k.rest.add r p).drop (k.proc p).pagetable with
            proc := update k.proc p
              { k.proc p with pagetable := r, sz := a.sz, regs := regs } })) := by
  have hsame argv' := kexec.eq_1 D trampoline k p ip argv'
  rw [hsame] at hrun
  unfold AddressSpace.exec
  dsimp only at hrun hsame ⊢
  generalize ip.readi 0 ELFHDR_SIZE = header at hrun hsame ⊢
  by_cases hlen : header.length ≠ ELFHDR_SIZE
  · rw [if_pos hlen] at hrun
    cases hrun
    exact ⟨hI, .inl ⟨rfl, rfl, rfl, .inr fun argv' => (hsame argv').trans (if_pos hlen)⟩⟩
  rw [if_neg hlen] at hrun ⊢
  by_cases hmagic : (ElfHdr.ofBytes header).magic ≠ ELF_MAGIC
  · rw [if_pos hmagic] at hrun
    cases hrun
    exact ⟨hI, .inl ⟨rfl, rfl, rfl, .inr fun argv' =>
      (hsame argv').trans ((if_neg hlen).trans (if_pos hmagic))⟩⟩
  rw [if_neg hmagic] at hrun ⊢
  obtain ⟨⟨o, k1⟩, htable, hrun⟩ := bind_eq_ok.mp hrun
  have hsame' argv' := (hsame argv').trans ((if_neg hlen).trans ((if_neg hmagic).trans
    (bind_of_ok htable _)))
  rcases procPagetable_spec (D := D) hI htable with ⟨rfl, hI1, hpage1, hsame1⟩ | ⟨r, rfl, hnew⟩
  · cases hrun
    exact ⟨hI1, .inl ⟨rfl, hpage1, hsame1, .inr hsame'⟩⟩
  · obtain ⟨⟨⟨osp, sz⟩, k2⟩, hbuild, hrun⟩ := bind_eq_ok.mp hrun
    obtain ⟨a, rfl, hB, hok, hno⟩ := hnew.image ha hargs hbuild
    cases osp with
    | none =>
      obtain ⟨k3, hfree, hrun⟩ := bind_eq_ok.mp hrun
      cases hrun
      obtain ⟨hI3, hpage3, hsame3⟩ := hnew.discard hB hfree
      refine ⟨hI3, .inl ⟨rfl, hpage3, hsame3, (hno rfl).imp_right fun hno argv' => ?_⟩⟩
      exact (hsame' argv').trans ((bind_of_ok (hno argv') _).trans (bind_of_ok hfree _))
    | some w =>
      obtain ⟨argc, sp⟩ := w
      obtain ⟨hexec, hw⟩ := hok _ rfl
      cases hw
      obtain ⟨k3, hfree, hrun⟩ := bind_eq_ok.mp hrun
      cases hrun
      have hproc2 : k2.proc = k.proc := hB.same.proc.trans hnew.proc
      have hne : (k.proc p).pagetable ≠ r := by
        rintro heq
        rw [heq, hnew.fresh] at hr
        cases hr
      have howner2 : k2.owner (k.proc p).pagetable = some p := by
        rw [hB.same.owner, show k1.owner = update k.owner r (some p) from
          congrArg Rest.owner hnew.rest, update_of_ne hne, hr]
      have hpage2 : k2.page D = update (k.page D) r a.page := by
        rw [hB.page, hnew.page]
      rw [hproc2] at hfree
      generalize hregs : ({ (k.proc p).regs with
        a0 := argv.length, a1 := a.sz - argBytes argv, epc := (ElfHdr.ofBytes header).entry,
        sp := a.sz - argBytes argv } : Trapframe) = regs at hfree
      have hI2 : (k2.setProc p { k.proc p with
          pagetable := r, sz := a.sz, regs := regs }).core.Inv {} :=
        inv_setProc hB.inv (by rw [hproc2])
      obtain ⟨hI3, hpage3, hrest3⟩ := procFreepagetable_spec (D := D) hI2
        (by rw [show (k2.setProc p _).owner = k2.owner from rfl, howner2]; rfl)
        (by rw [pgroundup_div]; exact hsz)
        (fun v hs => by
          rw [pgroundup_div]
          refine lt_of_swapped (D := D) (k := k2) hB.inv (fun v hv => ?_) hs
          rw [hpage2, update_of_ne hne]
          exact habove v hv) hfree
      refine ⟨hI3, .inr ⟨rfl, a, r, regs, hexec, by simp [← hregs], hnew.fresh, hnew.ne_zero,
        hB.top, hB.above, ?_, ?_⟩⟩
      · rw [hpage3, ← hpage2]
        rfl
      · rw [hrest3, ← hproc2, ← hnew.rest, ← show k2.rest = k1.rest from hB.same]
        rfl

end Xv6.VM.Kernel
