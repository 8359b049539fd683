import Xv6.Foundations.Fallible
import Xv6.VM.Proc

/-!
# Invariants through the memory system

The functions of the memory system change the frame table, the counters of resident pages and the
spinlocks held only through `kalloc_user`, `kfree_user` and the swap device. `Stable D E I` says
that these keep an invariant `I` of that part of the state and panic only with messages that `E`
allows; then every function that is built from them does so too (`Stable.vmfault`, `Stable.kexec`
and so on). `stable_noff` is the case of the number of spinlocks held.

The messages come in three groups: those of the page-table and free-list code (`tableMessages`),
those of `freewalk` (`freewalkMessages`) and those of an eviction that fails (`evictMessages`).
-/

namespace Xv6.VM

open Fallible

/-- The panics of the page-table and free-list code, of `swap_in` and of `exec`. -/
def tableMessages : List String :=
  ["walk", "kfree", "mappages: va not aligned", "mappages: size not aligned", "mappages: size",
    "mappages: remap", "uvmunmap: not aligned", "uvmclear", "swap_in_page: no pte",
    "swap_in_page: invalid index", "copyout: no pte", "loadseg: address should exist"]

/-- The panics of `freewalk`, with the bound on its depth. -/
def freewalkMessages : List String := ["freewalk: leaf", "freewalk: too deep"]

/-- The panics of an eviction, with the bound on its rounds. -/
def evictMessages : List String :=
  ["get_victim: no valid frames to evict", "get_victim: no victim found", "swap space full",
    "kalloc_user: no victim"]

/-- The device does not panic with a message. -/
structure SwapDev.Avoids {σ : Type} (D : SwapDev σ) (msg : String) : Prop where
  write : ∀ noff slot pg s, Fallible.Avoids msg (D.write noff slot pg s)
  read : ∀ noff slot pg s, Fallible.Avoids msg (D.read noff slot pg s)

namespace Kernel

variable {σ : Type} {D : SwapDev σ} {E : String → Prop} {I : Kernel σ → Prop} {k k' : Kernel σ}
  {p np : ProcId} {r va pa slot i : ℕ} {perm : Flags}

/-- A device that does nothing, for the functions that do not use it. -/
def idleDev : SwapDev σ := ⟨fun _ _ _ s => .ok s, fun _ _ pg s => .ok (pg, s), fun _ _ => 0⟩

/-- Two states have the same frames, the same counters of resident pages and the same locks. -/
structure Alike (k k' : Kernel σ) : Prop where
  frametable : k'.frametable = k.frametable
  counter : ∀ p, (k'.stats p).residentPages = (k.stats p).residentPages
  noff : k'.noff = k.noff

/-- From `k` to `k'` at most page-table pages have been allocated, changed and freed. -/
def OnlyTables (k k' : Kernel σ) : Prop :=
  ∃ ptes freelist mem, k' = { k with ptes := ptes, freelist := freelist, mem := mem }

/-- Changes of page tables keep `I`, and `E` allows the panics of the functions that make them. -/
structure TableStable (E : String → Prop) (I : Kernel σ → Prop) : Prop where
  table : ∀ msg ∈ tableMessages, E msg
  only : ∀ {k k'}, k.OnlyTables k' → I k → I k'

/-- `kalloc_user`, `kfree_user` and the device keep `I`, which is about frames, counters of resident
pages and locks, and panic with messages in `E`. -/
structure Stable (D : SwapDev σ) (E : String → Prop) (I : Kernel σ → Prop) : Prop
    extends TableStable E I where
  alike : ∀ {k k'}, k.Alike k' → I k → I k'
  kallocUser : ∀ {k} va p, I k → Within E (k.kallocUser D va p) (I ·.2)
  kfreeUser : ∀ {k} pa, I k → Within E (k.kfreeUser pa) I
  raidRead : ∀ {k} slot pa, I k → Within E (k.raidRead D slot pa) I
  raidWrite : ∀ {k} slot pa, I k → Within E (k.raidWrite D slot pa) I

/-! ## Elementary changes -/

lemma OnlyTables.alike (h : k.OnlyTables k') : k.Alike k' := by
  obtain ⟨_, _, _, rfl⟩ := h
  exact ⟨rfl, fun _ => rfl, rfl⟩

lemma onlyTables_kalloc (k : Kernel σ) : k.OnlyTables k.kalloc.2 := by
  unfold kalloc
  split <;> exact ⟨_, _, _, rfl⟩

lemma onlyTables_walkLevel (k : Kernel σ) (pg i : ℕ) : k.OnlyTables (k.walkLevel pg i).2 := by
  have hkalloc := onlyTables_kalloc k
  unfold walkLevel
  split
  · exact ⟨_, _, _, rfl⟩
  · split <;>
      · rename_i heq
        rw [heq] at hkalloc
        obtain ⟨_, _, _, rfl⟩ := hkalloc
        exact ⟨_, _, _, rfl⟩

lemma alike_freeSwapSlot (k : Kernel σ) (j : ℕ) : k.Alike (k.freeSwapSlot j) := by
  unfold freeSwapSlot
  split_ifs <;> exact ⟨rfl, fun _ => rfl, rfl⟩

/-- A change of the other statistics of a process. -/
theorem alike_count {f : VmStats → VmStats} (hf : ∀ s, (f s).residentPages = s.residentPages) :
    k.Alike (k.count p f) := by
  refine ⟨rfl, fun q => ?_, rfl⟩
  by_cases hq : q = p
  · subst hq
    simp [count, hf]
  · simp [count, hq]

/-! ## Page tables -/

namespace TableStable

variable (hS : TableStable E I)

include hS

lemma panic {α : Type} {P : α → Prop} {msg : String} (h : msg ∈ tableMessages) :
    Within E (.error msg) P :=
  .error (hS.table msg h)

lemma walk (k : Kernel σ) (r va : ℕ) : Within E (k.walk r va) fun _ => True := by
  unfold Kernel.walk
  split_ifs
  · exact hS.panic (by decide)
  · exact .ok trivial

lemma walkaddr (k : Kernel σ) (r va : ℕ) : Within E (k.walkaddr r va) fun _ => True := by
  unfold Kernel.walkaddr
  split_ifs
  · exact .ok trivial
  · refine (hS.walk k r va).bind fun o _ => ?_
    cases o with
    | none => exact .ok trivial
    | some pte =>
      dsimp only
      split_ifs
      · exact .ok trivial
      · exact .ok trivial

lemma ismapped (k : Kernel σ) (r va : ℕ) : Within E (k.ismapped r va) fun _ => True := by
  unfold Kernel.ismapped
  refine (hS.walk k r va).bind fun o _ => ?_
  cases o with
  | none | some => exact .ok trivial

lemma walkAlloc (hk : I k) : Within E (k.walkAlloc r va) (I ·.2) := by
  unfold Kernel.walkAlloc
  split_ifs
  · exact hS.panic (by decide)
  · refine .ok ?_
    have h1 := hS.only (onlyTables_walkLevel k r (px 2 va)) hk
    split
    · rename_i heq
      rw [heq] at h1
      exact h1
    · rename_i l1 k1 heq
      rw [heq] at h1
      have h2 := hS.only (onlyTables_walkLevel k1 l1 (px 1 va)) h1
      split <;>
        · rename_i heq2
          rw [heq2] at h2
          exact h2

lemma kfree (hk : I k) : Within E (k.kfree pa) I := by
  unfold Kernel.kfree
  split_ifs
  · exact hS.panic (by decide)
  · exact .ok (hS.only (k := k) ⟨_, _, _, rfl⟩ hk)

lemma mapLoop (n : ℕ) : ∀ {k : Kernel σ} {a pa : ℕ}, I k →
    Within E (mapLoop r perm n a pa k) (I ·.2) := by
  induction n with
  | zero => exact fun hk => .ok hk
  | succ n ih =>
    intro k a pa hk
    unfold Kernel.mapLoop
    refine (hS.walkAlloc hk).bind fun res hres => ?_
    obtain ⟨o, k1⟩ := res
    cases o with
    | none => exact .ok hres
    | some pte =>
      dsimp only
      split_ifs
      · exact hS.panic (by decide)
      · exact ih (hS.only ⟨_, _, _, rfl⟩ hres)

lemma mappages {size : ℕ} (hk : I k) : Within E (k.mappages r va size pa perm) (I ·.2) := by
  unfold Kernel.mappages
  split_ifs
  · exact hS.panic (by decide)
  · exact hS.panic (by decide)
  · exact hS.panic (by decide)
  · exact hS.mapLoop _ hk

end TableStable

namespace Stable

variable (hS : Stable D E I)

include hS

/-- The store of anything else than frames, counters and locks. -/
theorem store (hk : I k) (hframes : k'.frametable = k.frametable) (hstats : k'.stats = k.stats)
    (hnoff : k'.noff = k.noff) : I k' :=
  hS.alike ⟨hframes, fun p => by rw [hstats], hnoff⟩ hk

lemma unmapPage {doFree : Bool} (hk : I k) : Within E (k.unmapPage r doFree va) I := by
  unfold Kernel.unmapPage
  refine (hS.walk k r va).bind fun o _ => ?_
  cases o with
  | none => exact .ok hk
  | some pte =>
    have hk' : I (k.setPte pte {}) := hS.store hk rfl rfl rfl
    dsimp only
    split_ifs
    · exact .ok hk
    · exact .ok hk'
    · exact .ok (hS.alike (alike_freeSwapSlot _ _) hk')
    · exact hS.kfreeUser _ hk'

lemma unmapLoop {doFree : Bool} (n : ℕ) : ∀ {k : Kernel σ} {a : ℕ}, I k →
    Within E (unmapLoop r doFree n a k) I := by
  induction n with
  | zero => exact fun hk => .ok hk
  | succ n ih =>
    intro k a hk
    unfold Kernel.unmapLoop
    exact (hS.unmapPage hk).bind fun k1 hk1 => ih hk1

lemma uvmunmap {npages : ℕ} {doFree : Bool} (hk : I k) :
    Within E (k.uvmunmap r va npages doFree) I := by
  unfold Kernel.uvmunmap
  split_ifs
  · exact hS.panic (by decide)
  · exact hS.unmapLoop _ hk

lemma uvmdealloc {oldsz newsz : ℕ} (hk : I k) :
    Within E (k.uvmdealloc r oldsz newsz) (I ·.2) := by
  unfold Kernel.uvmdealloc
  split_ifs
  · exact .ok hk
  · exact (hS.uvmunmap hk).bind fun _ hk1 => .ok hk1
  · exact .ok hk

lemma uvmclear (hk : I k) : Within E (k.uvmclear r va) I := by
  unfold Kernel.uvmclear
  refine (hS.walk k r va).bind fun o _ => ?_
  cases o with
  | none => exact hS.panic (by decide)
  | some pte => exact .ok (hS.store hk rfl rfl rfl)

/-! ## Growing -/

lemma uvmallocLoop {oldsz : ℕ} (n : ℕ) : ∀ {k : Kernel σ} {a : ℕ}, I k →
    Within E (uvmallocLoop D p r oldsz perm n a k) (I ·.2) := by
  induction n with
  | zero => exact fun hk => .ok hk
  | succ n ih =>
    intro k a hk
    unfold Kernel.uvmallocLoop
    refine (hS.kallocUser _ _ hk).bind fun res hres => ?_
    dsimp only
    split_ifs
    · exact (hS.uvmdealloc hres).bind fun _ hk2 => .ok hk2
    · have hzero : I (res.2.setMem res.1 0) := hS.store hres rfl rfl rfl
      refine (hS.mappages hzero).bind fun res2 hres2 => ?_
      obtain ⟨b, k2⟩ := res2
      cases b with
      | true => exact ih hres2
      | false =>
        exact (hS.kfreeUser _ hres2).bind fun _ hk3 => (hS.uvmdealloc hk3).bind fun _ hk4 =>
          .ok hk4

lemma uvmalloc {oldsz newsz : ℕ} (hk : I k) :
    Within E (k.uvmalloc D p r oldsz newsz perm) (I ·.2) := by
  unfold Kernel.uvmalloc
  split_ifs
  · exact .ok hk
  · refine (hS.uvmallocLoop _ hk).bind fun res hres => ?_
    obtain ⟨b, k1⟩ := res
    cases b with
    | true | false => exact .ok hres

/-! ## Copying an address space -/

lemma copySwapped {pteVal : Pte} (hk : I k) :
    Within E (k.copySwapped D r i np pteVal) (I ·.2) := by
  unfold Kernel.copySwapped
  split
  · exact .ok hk
  · rename_i childIdx k1 htake
    have hk1 : I k1 := by
      obtain ⟨slot, -, hslot⟩ := Option.map_eq_some_iff.mp htake
      cases hslot
      exact hS.store hk rfl rfl rfl
    have hkalloc := hS.only (onlyTables_kalloc k1) hk1
    split
    · rename_i heq
      rw [heq] at hkalloc
      exact .ok (hS.alike (alike_freeSwapSlot _ _) hkalloc)
    · rename_i heq
      rw [heq] at hkalloc
      refine (hS.raidRead _ _ hkalloc).bind fun k2 hk2 => ?_
      refine (hS.raidWrite _ _ hk2).bind fun k3 hk3 => ?_
      refine (hS.kfree hk3).bind fun k4 hk4 => ?_
      refine (hS.walkAlloc hk4).bind fun res hres => ?_
      obtain ⟨o, k5⟩ := res
      cases o with
      | none => exact .ok (hS.alike (alike_freeSwapSlot _ _) hres)
      | some q =>
        have hentry : I (k5.setPte q (.toSwap childIdx pteVal.flags)) := hS.store hres rfl rfl rfl
        refine .ok ?_
        dsimp only
        exact hS.alike (alike_count fun _ => rfl) hentry

lemma fillFrame {pteVal : Pte} (hk : I k) : Within E (k.fillFrame D pteVal pa) (I ·.2) := by
  unfold Kernel.fillFrame
  split_ifs
  · exact .ok (hS.store hk rfl rfl rfl)
  · exact (hS.raidRead _ _ hk).bind fun _ hk1 => .ok hk1
  · exact .ok hk

lemma copyResident {q : ℕ × ℕ} (hk : I k) : Within E (k.copyResident D q r i np) (I ·.2) := by
  unfold Kernel.copyResident
  refine (hS.kallocUser _ _ hk).bind fun res hres => ?_
  dsimp only
  split_ifs
  · exact .ok hres
  · refine (hS.fillFrame hres).bind fun res2 hres2 => ?_
    refine (hS.mappages hres2).bind fun res3 hres3 => ?_
    obtain ⟨b, k3⟩ := res3
    cases b with
    | true => exact .ok hres3
    | false => exact (hS.kfreeUser _ hres3).bind fun _ hk4 => .ok hk4

lemma copyLoop {old : ℕ} (n : ℕ) : ∀ {k : Kernel σ} {i : ℕ}, I k →
    Within E (copyLoop D old r np n i k) (I ·.2) := by
  induction n with
  | zero => exact fun hk => .ok hk
  | succ n ih =>
    intro k i hk
    have hpage : Within E (k.copyPage D old r i np) (I ·.2) := by
      unfold copyPage
      refine (hS.walk k old i).bind fun o _ => ?_
      cases o with
      | none => exact .ok hk
      | some pte =>
        dsimp only
        split_ifs
        · exact .ok hk
        · exact hS.copySwapped hk
        · exact hS.copyResident hk
    unfold Kernel.copyLoop
    refine hpage.bind fun res hres => ?_
    obtain ⟨b, k1⟩ := res
    cases b with
    | true => exact ih hres
    | false => exact (hS.uvmunmap hres).bind fun _ hk2 => .ok hk2

lemma uvmcopy {old sz : ℕ} (hk : I k) : Within E (k.uvmcopy D old r sz np) (I ·.2) :=
  hS.copyLoop _ hk

/-! ## Page faults and copies -/

lemma swapIn (hk : I k) : Within E (k.swapIn D p va pa) I := by
  unfold Kernel.swapIn
  refine (hS.walk k _ va).bind fun o _ => ?_
  cases o with
  | none => exact hS.panic (by decide)
  | some pte =>
    dsimp only
    split_ifs
    · exact hS.panic (by decide)
    · refine (hS.raidRead _ _ hk).bind fun k1 hk1 => .ok ?_
      have hentry : I ((k1.freeSwapSlot (k.pte pte).num).setPte pte
          (.toFrame pa ((k1.freeSwapSlot (k.pte pte).num).pte pte).flags)) :=
        hS.store (hS.alike (alike_freeSwapSlot _ _) hk1) rfl rfl rfl
      exact hS.alike (alike_count fun _ => rfl) hentry

lemma countFault (hk : I k) : I (k.countFault p) := hS.alike (alike_count fun _ => rfl) hk

lemma mapZeros (hk : I k) : Within E (k.mapZeros p va pa) (I ·.2) := by
  have hzero : I (k.setMem pa 0) := hS.store hk rfl rfl rfl
  unfold Kernel.mapZeros
  refine (hS.mappages hzero).bind fun res hres => ?_
  obtain ⟨b, k1⟩ := res
  cases b with
  | true => exact .ok (hS.countFault hres)
  | false => exact (hS.kfreeUser _ hres).bind fun _ hk2 => .ok hk2

lemma vmfault (hk : I k) : Within E (k.vmfault D p r va) (I ·.2) := by
  unfold Kernel.vmfault
  split_ifs
  · exact .ok hk
  · refine (hS.ismapped k r _).bind fun b _ => ?_
    split_ifs
    · exact .ok (hS.countFault hk)
    · refine (hS.walk k r _).bind fun o _ => ?_
      refine (hS.kallocUser _ _ hk).bind fun res hres => ?_
      dsimp only
      split_ifs
      · exact .ok hres
      · cases o with
        | none => exact hS.mapZeros hres
        | some q =>
          dsimp only
          split_ifs
          · exact (hS.swapIn hres).bind fun _ hk2 => .ok (hS.countFault hk2)
          · exact hS.mapZeros hres

lemma copyoutLoop (fuel : ℕ) : ∀ {dstva : ℕ} {src : List UInt8} {k : Kernel σ}, I k →
    Within E (copyoutLoop D p r fuel dstva src k) (I ·.2) := by
  induction fuel with
  | zero => exact fun hk => .ok hk
  | succ fuel ih =>
    intro dstva src k hk
    have hpa : Within E (k.userPa D p r (pgrounddown dstva)) (I ·.2) := by
      unfold userPa
      refine (hS.walkaddr k r _).bind fun pa0 _ => ?_
      split_ifs
      · exact hS.vmfault hk
      · exact .ok hk
    unfold Kernel.copyoutLoop
    dsimp only
    split_ifs
    · exact .ok hk
    · exact .ok hk
    · refine hpa.bind fun res hres => ?_
      split_ifs
      · exact .ok hres
      · refine (hS.walk _ r _).bind fun o _ => ?_
        cases o with
        | none => exact hS.panic (by decide)
        | some pte =>
          dsimp only
          split_ifs
          · exact .ok hres
          · exact ih (hS.store hres rfl rfl rfl)

lemma copyout {src : List UInt8} (hk : I k) : Within E (k.copyout D p r va src) (I ·.2) :=
  hS.copyoutLoop _ hk

/-! ## `sbrk` and the image of `exec` -/

lemma sysSbrk {n : ℤ} {lazy : Bool} (hk : I k) : Within E (k.sysSbrk D p n lazy) (I ·.2) := by
  have hset : ∀ {k' : Kernel σ} (pr : Proc), I k' → I (k'.setProc p pr) :=
    fun pr hk' => hS.store hk' rfl rfl rfl
  unfold Kernel.sysSbrk growproc
  dsimp only
  split_ifs
  · exact .ok hk
  · refine (hS.uvmalloc hk).bind fun res hres => ?_
    split_ifs
    · exact .ok hres
    · exact .ok (hset _ hres)
  · exact (hS.uvmdealloc hk).bind fun _ hk2 => .ok (hset _ hk2)
  · exact .ok hk
  · exact .ok hk
  · exact .ok hk
  · exact .ok (hset _ hk)

lemma loadsegLoop {ip : File} (n : ℕ) : ∀ {va offset sz : ℕ} {k : Kernel σ}, I k →
    Within E (loadsegLoop r ip n va offset sz k) (I ·.2) := by
  induction n with
  | zero => exact fun hk => .ok hk
  | succ n ih =>
    intro va offset sz k hk
    unfold Kernel.loadsegLoop
    refine (hS.walkaddr k r va).bind fun pa0 _ => ?_
    generalize (if sz < PGSIZE then sz else PGSIZE) = n
    split_ifs
    · exact hS.panic (by decide)
    · have hstore : I (k.setMem pa0 ((k.mem pa0).write 0 (ip.readi (offset % 2 ^ 32) n))) :=
        hS.store hk rfl rfl rfl
      dsimp only
      split_ifs
      · exact .ok hstore
      · exact ih hstore

lemma loadHeaders {ip : File} (n : ℕ) : ∀ {off sz : ℕ} {k : Kernel σ}, I k →
    Within E (loadHeaders D p ip r n off sz k) (I ·.2) := by
  induction n with
  | zero => exact fun hk => .ok hk
  | succ n ih =>
    intro off sz k hk
    have hheader : Within E (k.loadHeader D p ip r off sz) (I ·.2) := by
      unfold loadHeader
      dsimp only
      split_ifs
      · exact .ok hk
      · exact .ok hk
      · exact .ok hk
      · exact .ok hk
      · exact .ok hk
      · refine (hS.uvmalloc hk).bind fun res hres => ?_
        split_ifs
        · exact .ok hres
        · exact (hS.loadsegLoop _ hres).bind fun _ hk2 => .ok hk2
    unfold Kernel.loadHeaders
    refine hheader.bind fun res hres => ?_
    obtain ⟨⟨b, sz1⟩, k1⟩ := res
    cases b with
    | true => exact ih hres
    | false => exact .ok hres

lemma pushArgs {stackbase : ℕ} (argv : List (List UInt8)) :
    ∀ {sp : ℕ} {ustack : List ℕ} {k : Kernel σ}, I k →
      Within E (pushArgs D p r stackbase argv sp ustack k) (I ·.2) := by
  induction argv with
  | nil => exact fun hk => .ok hk
  | cons arg argv ih =>
    intro sp ustack k hk
    unfold Kernel.pushArgs
    dsimp only
    split_ifs
    · exact .ok hk
    · exact .ok hk
    · refine (hS.copyout hk).bind fun res hres => ?_
      obtain ⟨b, k1⟩ := res
      cases b with
      | true => exact ih hres
      | false => exact .ok hres

lemma buildStack {sz : ℕ} {argv : List (List UInt8)} (hk : I k) :
    Within E (k.buildStack D p r sz argv) (I ·.2) := by
  unfold Kernel.buildStack
  refine (hS.uvmalloc hk).bind fun res hres => ?_
  dsimp only
  split_ifs
  · exact .ok hres
  · refine (hS.uvmclear hres).bind fun k2 hk2 => ?_
    refine (hS.pushArgs _ hk2).bind fun res3 hres3 => ?_
    obtain ⟨o, k3⟩ := res3
    cases o with
    | none => exact .ok hres3
    | some x =>
      dsimp only
      split_ifs
      · exact .ok hres3
      · refine (hS.copyout hres3).bind fun res4 hres4 => ?_
        obtain ⟨b, k4⟩ := res4
        cases b with
        | true | false => exact .ok hres4

lemma buildImage {ip : File} {elf : ElfHdr} {argv : List (List UInt8)} (hk : I k) :
    Within E (k.buildImage D p ip elf r argv) (I ·.2) := by
  unfold Kernel.buildImage
  refine (hS.loadHeaders _ hk).bind fun res hres => ?_
  obtain ⟨⟨b, sz⟩, k1⟩ := res
  cases b with
  | true => exact hS.buildStack hres
  | false => exact .ok hres

/-! ## Releasing and making page tables -/

variable (hF : ∀ msg ∈ freewalkMessages, E msg)

include hF

lemma freewalk (depth : ℕ) : ∀ {k : Kernel σ} {pg : ℕ}, I k →
    Within E (freewalk depth k pg) I := by
  induction depth with
  | zero => exact fun _ => .error (hF _ (by decide))
  | succ depth ih =>
    intro k pg hk
    unfold Kernel.freewalk
    refine (Within.foldlM (fun t i ht => ?_) _ k hk).bind fun k1 hk1 => hS.kfree hk1
    dsimp only
    split_ifs
    · exact (ih ht).bind fun _ hk1 => .ok (hS.store hk1 rfl rfl rfl)
    · exact .error (hF _ (by decide))
    · exact .ok ht

lemma uvmfree {sz : ℕ} (hk : I k) : Within E (k.uvmfree r sz) I := by
  have hunmap : Within E (if 0 < sz then k.uvmunmap r 0 (pgroundup sz / PGSIZE) true else pure k)
      I := by
    split_ifs
    · exact hS.uvmunmap hk
    · exact .ok hk
  unfold Kernel.uvmfree
  refine hunmap.bind fun k1 hk1 => ?_
  exact (hS.freewalk hF 3 hk1).bind fun _ hk2 => .ok (hS.store hk2 rfl rfl rfl)

lemma procFreepagetable {sz : ℕ} (hk : I k) : Within E (k.procFreepagetable r sz) I := by
  unfold Kernel.procFreepagetable
  exact (hS.uvmunmap hk).bind fun _ hk1 => (hS.uvmunmap hk1).bind fun _ hk2 => hS.uvmfree hF hk2

lemma procPagetable {trampoline : ℕ} (hk : I k) :
    Within E (k.procPagetable trampoline p) (I ·.2) := by
  unfold Kernel.procPagetable uvmcreate
  have hkalloc := hS.only (onlyTables_kalloc k) hk
  cases hcreate : k.kalloc with
  | mk o k1 =>
    rw [hcreate] at hkalloc
    cases o with
    | none => exact .ok hkalloc
    | some pg =>
      have htable : I ((k1.zeroTable pg).setOwner pg (some p)) := hS.store hkalloc rfl rfl rfl
      refine (hS.mappages htable).bind fun res hres => ?_
      obtain ⟨b, k2⟩ := res
      cases b with
      | false => exact (hS.uvmfree hF hres).bind fun _ hk3 => .ok hk3
      | true =>
        refine (hS.mappages hres).bind fun res hres => ?_
        obtain ⟨b, k3⟩ := res
        cases b with
        | false =>
          exact (hS.uvmunmap hres).bind fun _ hk4 => (hS.uvmfree hF hk4).bind fun _ hk5 => .ok hk5
        | true => exact .ok hres

lemma kexec {trampoline : ℕ} {ip : File} {argv : List (List UInt8)} (hk : I k) :
    Within E (k.kexec D trampoline p ip argv) (I ·.2) := by
  unfold Kernel.kexec
  dsimp only
  split_ifs
  · exact .ok hk
  · exact .ok hk
  · refine (hS.procPagetable hF hk).bind fun res hres => ?_
    obtain ⟨o, k1⟩ := res
    cases o with
    | none => exact .ok hres
    | some r =>
      refine (hS.buildImage hres).bind fun res2 hres2 => ?_
      obtain ⟨⟨osp, sz⟩, k2⟩ := res2
      cases osp with
      | none => exact (hS.procFreepagetable hF hres2).bind fun _ hk3 => .ok hk3
      | some sp =>
        have hset : ∀ pr, I (k2.setProc p pr) := fun pr => hS.store hres2 rfl rfl rfl
        exact (hS.procFreepagetable hF (hset _)).bind fun _ hk3 => .ok hk3

end Stable

/-! ## Locks and eviction -/

/-- What a round of `kalloc_user` or `get_victim` under the lock of the frame table may panic
with. -/
def ScanError (msg : String) : Prop := msg ∈ tableMessages ∨ msg ∈ evictMessages

lemma walk_scans (k : Kernel σ) (r va : ℕ) : Within ScanError (k.walk r va) fun _ => True := by
  unfold walk
  split_ifs
  · exact .error (.inl (by decide))
  · exact .ok trivial

lemma secondChance_noff (k : Kernel σ) (i : Fin NUM_FRAMES) (pte : ℕ × ℕ) :
    (k.secondChance i pte).2.noff = k.noff := by
  unfold secondChance
  dsimp only
  split_ifs <;> rfl

lemma inspect_scans (level : Option ℤ) (i : Fin NUM_FRAMES) :
    Within ScanError (k.inspect level i) (·.2.noff = k.noff) := by
  unfold inspect
  dsimp only
  split
  · exact .ok rfl
  · split_ifs
    · refine (walk_scans k _ _).bind fun o _ => ?_
      cases o with
      | none => exact .ok rfl
      | some pte =>
        dsimp only
        split_ifs
        · exact .ok (secondChance_noff _ _ _)
        · exact .ok rfl
    · exact .ok rfl

lemma clockLoop_scans {level : Option ℤ} {m : ℕ} (n : ℕ) : ∀ {k : Kernel σ}, k.noff = m →
    Within ScanError (clockLoop level n k) (·.2.noff = m) := by
  induction n with
  | zero => exact fun hk => .ok hk
  | succ n ih =>
    intro k hk
    unfold clockLoop
    refine (inspect_scans level k.clockHand).bind fun res hres => ?_
    dsimp only
    split_ifs
    · exact .ok (hres.trans hk)
    · exact ih (hres.trans hk)

lemma getVictim_scans (k : Kernel σ) : Within ScanError k.getVictim (·.2.noff = k.noff) := by
  unfold getVictim
  split_ifs
  · exact .error (.inr (by decide))
  · refine (clockLoop_scans _ rfl).bind fun res hres => ?_
    obtain ⟨o, k1⟩ := res
    cases o with
    | some idx => exact .ok hres
    | none =>
      refine (clockLoop_scans _ hres).bind fun res hres => ?_
      obtain ⟨o, k2⟩ := res
      cases o with
      | some idx => exact .ok hres
      | none => exact .error (.inr (by decide))

lemma pickVictim_scans {m : ℕ} (fuel : ℕ) : ∀ {k : Kernel σ}, k.noff = m →
    Within ScanError (pickVictim fuel k) (·.2.noff = m) := by
  induction fuel with
  | zero => exact fun _ => .error (.inr (by decide))
  | succ fuel ih =>
    intro k hk
    unfold pickVictim
    refine (getVictim_scans k).bind fun res hres => ?_
    have hres := hres.trans hk
    dsimp only
    split
    · exact ih hres
    · split_ifs
      · exact ih hres
      · refine (walk_scans _ _ _).bind fun o _ => ?_
        cases o with
        | none => exact ih hres
        | some pte =>
          dsimp only
          split_ifs
          · exact ih hres
          · exact .ok hres

section Noff

variable {n : ℕ} (hT : ∀ msg ∈ tableMessages, E msg) (hE : ∀ msg ∈ evictMessages, E msg)
  (hwrite : ∀ slot pg s, Within E (D.write n slot pg s) fun _ => True)
  (hread : ∀ slot pg s, Within E (D.read n slot pg s) fun _ => True)

lemma raidWrite_noff (hk : k.noff = n)
    (hwrite : ∀ slot pg s, Within E (D.write n slot pg s) fun _ => True) (slot pa : ℕ) :
    Within E (k.raidWrite D slot pa) (·.noff = n) := by
  unfold raidWrite
  rw [hk]
  exact (hwrite _ _ _).bind fun _ _ => .ok rfl

include hT hE hwrite in
/-- The lock of the frame table is released before the victim is written. -/
theorem evictFor_noff (hk : k.noff = n) : Within E (k.evictFor D va p) (·.2.noff = n) := by
  have hacquired : k.acquire.noff = n + 1 := congrArg (· + 1) hk
  have hpick := pickVictim_scans 1 hacquired
  have hpick : Within E (k.acquire.pickVictim 1) (·.2.noff = n + 1) :=
    ⟨fun msg hmsg => (hpick.errors msg hmsg).elim (hT msg) (hE msg), hpick.result⟩
  unfold evictFor
  refine hpick.bind fun res hres => ?_
  have hrelease : res.2.release.noff = n := by
    change res.2.noff - 1 = n
    omega
  have hout : Within E (res.2.release.swapOut D res.1.2.1 res.1.2.2
      (res.2.frametable res.1.1).pa) (·.noff = n) := by
    unfold swapOut
    split
    · exact .error (hE _ (by decide))
    · rename_i slot k1 htake
      obtain ⟨j, -, hslot⟩ := Option.map_eq_some_iff.mp htake
      cases hslot
      refine raidWrite_noff ?_ hwrite _ _
      exact hrelease
  refine hout.bind fun k1 hk1 => .ok ?_
  change k1.noff + 1 - 1 = n
  omega

include hT hE hwrite hread in
/-- Every function returns with the spinlocks with which it was called, and transfers pages with
them and no others. -/
theorem stable_noff : Stable D E fun k => k.noff = n where
  table := hT
  only h hk := h.alike.noff.trans hk
  alike h hk := h.noff.trans hk
  kallocUser := by
    intro k va p hk
    unfold kallocUser
    split
    · exact evictFor_noff hT hE hwrite hk
    · have hkalloc := (onlyTables_kalloc k).alike.noff.trans hk
      split
      · rename_i heq
        rw [heq] at hkalloc
        exact evictFor_noff hT hE hwrite hkalloc
      · rename_i heq
        rw [heq] at hkalloc
        exact .ok hkalloc
  kfreeUser := by
    intro k pa hk
    have hfree : ∀ {k' : Kernel σ}, k'.noff = n → Within E (k'.kfree pa) (·.noff = n) := by
      intro k' hk'
      unfold kfree
      split_ifs
      · exact .error (hT _ (by decide))
      · exact .ok hk'
    unfold kfreeUser
    split
    · exact hfree hk
    · split_ifs
      · exact .ok hk
      · dsimp only
        split
        · exact hfree hk
        · exact hfree hk
  raidRead := by
    intro k slot pa hk
    unfold raidRead
    rw [hk]
    exact (hread _ _ _).bind fun _ _ => .ok rfl
  raidWrite slot pa hk := raidWrite_noff hk hwrite slot pa

end Noff

/-! ## A message that does not occur -/

lemma kfree_avoids {msg : String} (hT : msg ∉ tableMessages) : Avoids msg (k.kfree pa) := by
  unfold kfree
  split_ifs
  · exact .error fun heq => hT (heq ▸ by decide)
  · exact .ok _

lemma raidWrite_avoids {msg : String} (hD : D.Avoids msg) : Avoids msg (k.raidWrite D slot pa) := by
  unfold raidWrite
  exact (hD.write _ _ _ _).bind fun dev _ => .ok _

lemma raidRead_avoids {msg : String} (hD : D.Avoids msg) : Avoids msg (k.raidRead D slot pa) := by
  unfold raidRead
  exact (hD.read _ _ _ _).bind fun res _ => .ok _

/-- No function panics with a message that neither the page-table code, nor an eviction, nor the
device has. -/
theorem stable_of_avoids {msg : String} (hT : msg ∉ tableMessages) (hE : msg ∉ evictMessages)
    (hD : D.Avoids msg) (n : ℕ) : Stable D (· ≠ msg) fun k => k.noff = n :=
  stable_noff (fun _ hmem heq => hT (heq ▸ hmem)) (fun _ hmem heq => hE (heq ▸ hmem))
    (fun _ _ _ => .of_avoids (hD.write _ _ _ _)) fun _ _ _ => .of_avoids (hD.read _ _ _ _)

end Kernel

end Xv6.VM
