import Xv6.File.Model

/-!
# References to open files and inodes

Every reference to an entry of the two tables is a token (`Token`): it is held by the descriptor,
current directory or open file that refers to the entry, or by a process that is in a call. The
tables determine how many tokens the calls in progress hold (`Tables.balance`), and each section is
specified by the tokens it needs and gives (`FileSpec`).

## Main results

* `act_settles`: every section meets its specification.
* `act_not_panic`: a section that has its tokens does not find a reference count too low.
-/

namespace Xv6.Files

open Function Multiset Tables Inode

open VM (ProcId)

/-! ## Tokens -/

/-- What can be held. -/
inductive Token where
  /-- A reference to an open file. -/
  | file (f : FileId)
  /-- A file that was allocated and not yet filled in. -/
  | new (f : FileId)
  /-- A reference to an inode. -/
  | inode (ip : InodeId)
  /-- An end of a pipe. -/
  | pipe (pi : ℕ) (writable : Bool)
  /-- What the file has been given still has to be released. -/
  | duty (f : FileId)
  /-- The sleep-lock of an inode. -/
  | locked (p : ProcId) (ip : InodeId)
  /-- A process that is being created. -/
  | child (np : ProcId)
  /-- The process is in a call. -/
  | self (p : ProcId)
  deriving DecidableEq

open Token

/-- What a descriptor holds. -/
def slotTokens : Option FileId → Multiset Token
  | none => 0
  | some f => {file f}

@[simp]
lemma slotTokens_none : slotTokens none = 0 := rfl

@[simp]
lemma slotTokens_some (f : FileId) : slotTokens (some f) = {file f} := rfl

/-- What the descriptors and the current directory hold. -/
def Own.tokens (own : Own) : Multiset Token := ∑ fd, slotTokens (own.ofile fd) + {inode own.cwd}

/-- What an entry of the file table holds. -/
def File.tokens (f : FileId) (x : File) : Multiset Token :=
  match x.type with
  | .none => 0
  | .pipe pi => {pipe pi x.writable} + {duty f}
  | .inode ip | .device ip => {inode ip} + {duty f}

namespace Tables

/-- The number of tokens that the tables account for. -/
def supply (s : Tables) : Token → ℤ
  | .file f => if (s.file f).type = .none then 0 else (s.file f).ref
  | .new f => if (s.file f).type = .none then (s.file f).ref else 0
  | .inode i => (s.inode i).ref
  | .pipe pi w => if (if w then (s.pipe pi).writeopen else (s.pipe pi).readopen) then 1 else 0
  | .duty f => s.gained f - s.released f
  | .locked p i => if (s.inode i).lock = some p then 1 else 0
  | .child np => if s.life np = .used then 1 else 0
  | .self p => if s.busy p then 1 else 0

/-- What a process holds that is in no call. -/
def restTokens (s : Tables) (p : ProcId) : Multiset Token :=
  if s.life p = .live ∧ s.busy p = false then (s.own p).tokens else 0

/-- The number of tokens that are held by open files and by processes that are in no call. -/
def stored (s : Tables) (t : Token) : ℤ :=
  ∑ f, (((s.file f).tokens f).count t : ℤ) + ∑ p, ((s.restTokens p).count t : ℤ)

/-- The number of tokens that are held by calls in progress. -/
def balance (s : Tables) (t : Token) : ℤ := s.supply t - s.stored t

end Tables

/-! ## What an entry contributes to the balance -/

/-- What an entry of the inode table contributes to the balance. -/
def Inode.worth (i : InodeId) (x : Inode) (t : Token) : ℤ :=
  (if t = inode i then x.ref else 0) +
    (x.lock.elim 0 fun p => {locked p i} : Multiset Token).count t

@[simp]
lemma Inode.worth_inode (i : InodeId) (x : Inode) : x.worth i (inode i) = x.ref := by
  cases hx : x.lock <;> simp [worth, hx]

@[simp]
lemma Inode.worth_locked (i : InodeId) (x : Inode) (p : ProcId) :
    x.worth i (locked p i) = if x.lock = some p then 1 else 0 := by
  cases hx : x.lock <;> simp [worth, hx, count_singleton, eq_comm]

lemma Inode.worth_of_ne {i : InodeId} {x : Inode} {t : Token} (h : t ≠ inode i)
    (hlock : ∀ p, t ≠ locked p i) : x.worth i t = 0 := by
  cases hx : x.lock <;> simp [worth, hx, h, hlock]

/-- What an entry of the file table contributes to the balance. -/
def File.worth (f : FileId) (x : File) (t : Token) : ℤ :=
  (if t = (if x.type = .none then new f else file f) then x.ref else 0) - (x.tokens f).count t

/-- The step from `s` to `s'` is accounted for if it takes the tokens `need` and leaves `give`. -/
def Settles (s : Tables) (need : Multiset Token) (s' : Tables) (give : Multiset Token) : Prop :=
  ∀ t, s'.balance t + need.count t = s.balance t + give.count t

namespace Tables

variable (s : Tables)

lemma balance_setInode (i : InodeId) (x : Inode) (t : Token) :
    (s.setInode i x).balance t + (s.inode i).worth i t = s.balance t + x.worth i t := by
  have hstored : (s.setInode i x).stored t = s.stored t := rfl
  suffices hsupply : (s.setInode i x).supply t + (s.inode i).worth i t =
      s.supply t + x.worth i t by
    simp only [balance, hstored]
    omega
  cases t with
  | inode j =>
    by_cases hj : j = i
    · subst hj
      simp only [supply, setInode_self, worth_inode]
      omega
    · simp only [supply, setInode_of_ne s x hj]
      rw [worth_of_ne (by simp [hj]) (by simp), worth_of_ne (by simp [hj]) (by simp)]
  | locked p j =>
    by_cases hj : j = i
    · subst hj
      simp only [supply, setInode_self, worth_locked]
      omega
    · simp only [supply, setInode_of_ne s x hj]
      rw [worth_of_ne (by simp) (by simp [hj]), worth_of_ne (by simp) (by simp [hj])]
  | _ =>
    rw [worth_of_ne (by simp) (by simp), worth_of_ne (by simp) (by simp)]
    rfl

lemma stored_setFile (f : FileId) (x : File) (t : Token) :
    (s.setFile f x).stored t + ((s.file f).tokens f).count t =
      s.stored t + (x.tokens f).count t := by
  have hsum := Finset.sum_add_eq_of_forall_ne (f := fun g => (((s.file g).tokens g).count t : ℤ))
    (g := fun g => ((((s.setFile f x).file g).tokens g).count t : ℤ)) f fun g hg => by
      rw [setFile_of_ne s x hg]
  have hrest : ∀ p, (s.setFile f x).restTokens p = s.restTokens p := fun _ => rfl
  simp only [setFile_self] at hsum
  simp only [stored, hrest]
  omega

lemma balance_setFile (f : FileId) (x : File) (t : Token) :
    (s.setFile f x).balance t + (s.file f).worth f t = s.balance t + x.worth f t := by
  have hstored := s.stored_setFile f x t
  simp only [balance, File.worth]
  cases t with
  | file g | new g =>
    by_cases hg : g = f
    · subst hg
      simp only [supply, setFile_self]
      grind
    · simp only [supply, setFile_of_ne s x hg]
      grind
  | _ =>
    simp only [supply, setFile] at hstored ⊢
    grind

lemma stored_rest {s s' : Tables} (p : ProcId) (t : Token) (hfile : s'.file = s.file)
    (hrest : ∀ q, q ≠ p → s'.restTokens q = s.restTokens q) :
    s'.stored t + (s.restTokens p).count t = s.stored t + (s'.restTokens p).count t := by
  have hsum := Finset.sum_add_eq_of_forall_ne (f := fun q => ((s.restTokens q).count t : ℤ))
    (g := fun q => ((s'.restTokens q).count t : ℤ)) p fun q hq => by rw [hrest q hq]
  simp only [stored, hfile]
  omega

end Tables

/-! ## The sections -/

/-- The tokens that a section of the process `p` needs and gives. -/
inductive FileSpec (p : ProcId) : (s : Sec) → Multiset Token → (s.Res → Multiset Token) → Prop
  | choose : FileSpec p .choose 0 fun _ => 0
  | lookup : FileSpec p .lookup 0 fun _ => 0
  | iget (dev inum : ℕ) : FileSpec p (.iget dev inum) 0 fun i => {inode i}
  | idup (i : InodeId) : FileSpec p (.idup i) {inode i} fun _ => {inode i} + {inode i}
  | ilock (i : InodeId) : FileSpec p (.ilock i) {inode i} fun _ => {inode i} + {locked p i}
  | iunlock (i : InodeId) : FileSpec p (.iunlock i) ({inode i} + {locked p i}) fun _ => {inode i}
  | iput (i : InodeId) : FileSpec p (.iput i) {inode i} fun free =>
      if free then {inode i} + {locked p i} else 0
  | iputRelease (i : InodeId) :
      FileSpec p (.iputRelease i) ({inode i} + {locked p i}) fun _ => {inode i}
  | iputDrop (i : InodeId) : FileSpec p (.iputDrop i) {inode i} fun _ => 0
  | filealloc : FileSpec p .filealloc 0 fun r => r.elim 0 fun f => {new f}
  | filedup (f : FileId) : FileSpec p (.filedup f) {file f} fun _ => {file f} + {file f}
  | fileclose (f : FileId) :
      FileSpec p (.fileclose f) {file f} fun r => r.elim 0 fun ff => ff.tokens f
  /-- A file that was not filled in is given up. -/
  | abandon (f : FileId) :
      FileSpec p (.fileclose f) {new f} fun r => r.elim 0 fun ff => ff.tokens f
  | noteReleased (f : FileId) : FileSpec p (.noteReleased f) {duty f} fun _ => 0
  | newPipe : FileSpec p .newPipe 0 fun r => r.elim 0 fun pi => {pipe pi false} + {pipe pi true}
  | setPipe (f : FileId) (pi : ℕ) (w : Bool) :
      FileSpec p (.setPipe f pi w) ({new f} + {pipe pi w}) fun _ => {file f}
  | setInode (f : FileId) (i : InodeId) (device readable writable : Bool) :
      FileSpec p (.setInode f i device readable writable) ({new f} + {inode i} + {locked p i})
        fun _ => {file f}
  | pipeclose (pi : ℕ) (w : Bool) : FileSpec p (.pipeclose pi w) {pipe pi w} fun _ => 0
  | allocproc : FileSpec p .allocproc 0 fun r => r.elim 0 fun np => {child np}
  | freeproc (np : ProcId) : FileSpec p (.freeproc np) {child np} fun _ => 0
  | publish (np : ProcId) (own : Own) :
      FileSpec p (.publish np own) ({child np} + own.tokens) fun _ => 0
  | finish (own : Own) : FileSpec p (.finish own) ({self p} + own.tokens) fun _ => 0
  | exit : FileSpec p .exit {self p} fun _ => 0

/-! ## The invariant of the tables -/

/-- What holds of the tables apart from the balance. -/
structure TablesInv (s : Tables) : Prop where
  /-- An entry that has an inode or a pipe end is in use. -/
  inUse : ∀ {f}, (s.file f).type ≠ .none → 0 < (s.file f).ref
  /-- An entry that was not filled in has at most one reference. -/
  fresh : ∀ {f}, (s.file f).type = .none → (s.file f).ref = 0 ∨ (s.file f).ref = 1
  unique : ∀ {i j}, 0 < (s.inode i).ref → 0 < (s.inode j).ref →
    (s.inode i).dev = (s.inode j).dev → (s.inode i).inum = (s.inode j).inum → i = j
  busy : ∀ {p}, s.busy p = true → s.life p = .live
  page : ∀ pi, (s.pipe pi).allocated = ((s.pipe pi).readopen || (s.pipe pi).writeopen)

section Sections

variable {s s' : Tables} {p : ProcId} {i : InodeId} {f : FileId} {need give : Multiset Token}

lemma Settles.setInode {x : Inode}
    (h : ∀ t, x.worth i t + need.count t = (s.inode i).worth i t + give.count t) :
    Settles s need (s.setInode i x) give := by
  intro t
  have hb := s.balance_setInode i x t
  have ht := h t
  omega

lemma Settles.setFile {x : File}
    (h : ∀ t, x.worth f t + need.count t = (s.file f).worth f t + give.count t) :
    Settles s need (s.setFile f x) give := by
  intro t
  have hb := s.balance_setFile f x t
  have ht := h t
  omega

/-- Of one more reference to an inode, or one less, the balance knows. -/
theorem Inode.worth_ref (x : Inode) (n : ℤ) (t : Token) :
    ({ x with ref := n } : Inode).worth i t =
      x.worth i t + if t = inode i then n - x.ref else 0 := by
  simp only [worth]
  split_ifs <;> omega

lemma Inode.worth_lock {x : Inode} (h : x.lock = none) (t : Token) :
    ({ x with lock := some p } : Inode).worth i t =
      x.worth i t + ({locked p i} : Multiset Token).count t := by
  simp [worth, h]

lemma Inode.worth_unlock {x : Inode} (h : x.lock = some p) (t : Token) :
    ({ x with lock := none } : Inode).worth i t + ({locked p i} : Multiset Token).count t =
      x.worth i t := by
  simp [worth, h]

namespace TablesInv

/-- An entry of the inode table changes, but not the inode that it holds. -/
theorem setInode {x : Inode} (h : TablesInv s) (hdev : x.dev = (s.inode i).dev)
    (hinum : x.inum = (s.inode i).inum) (href : 0 < x.ref → 0 < (s.inode i).ref) :
    TablesInv (s.setInode i x) := by
  refine ⟨h.inUse, h.fresh, fun {j k} hj hk hd hn => ?_, h.busy, h.page⟩
  have hinode := (forall_update_iff s.inode fun j y => 0 < y.ref →
    0 < (s.inode j).ref ∧ y.dev = (s.inode j).dev ∧ y.inum = (s.inode j).inum).mpr
      ⟨fun hx => ⟨href hx, hdev, hinum⟩, fun _ _ hj => ⟨hj, rfl, rfl⟩⟩
  obtain ⟨hj, hdj, hnj⟩ := hinode j hj
  obtain ⟨hk, hdk, hnk⟩ := hinode k hk
  exact h.unique hj hk (hdj.symm.trans (hd.trans hdk)) (hnj.symm.trans (hn.trans hnk))

/-- A free entry of the inode table is used for an inode that has none. -/
theorem recycle {dev inum : ℕ} (h : TablesInv s)
    (hnone : ∀ j, 0 < (s.inode j).ref → (s.inode j).dev = dev → (s.inode j).inum ≠ inum) :
    TablesInv (s.setInode i { s.inode i with dev := dev, inum := inum, ref := 1 }) := by
  refine ⟨h.inUse, h.fresh, fun {j k} hj hk hd hn => ?_, h.busy, h.page⟩
  by_cases hji : j = i <;> by_cases hki : k = i
  · rw [hji, hki]
  · subst hji
    rw [setInode_self, setInode_of_ne _ _ hki] at hd hn
    rw [setInode_of_ne _ _ hki] at hk
    exact absurd hn.symm (hnone k hk hd.symm)
  · subst hki
    rw [setInode_self, setInode_of_ne _ _ hji] at hd hn
    rw [setInode_of_ne _ _ hji] at hj
    exact absurd hn (hnone j hj hd)
  · rw [setInode_of_ne _ _ hji, setInode_of_ne _ _ hki] at hd hn
    rw [setInode_of_ne _ _ hji] at hj
    rw [setInode_of_ne _ _ hki] at hk
    exact h.unique hj hk hd hn

lemma setFile {x : File} (h : TablesInv s) (huse : x.type ≠ .none → 0 < x.ref)
    (hfresh : x.type = .none → x.ref = 0 ∨ x.ref = 1) : TablesInv (s.setFile f x) := by
  refine ⟨fun {g} => ?_, fun {g} => ?_, h.unique, h.busy, h.page⟩
  · exact (forall_update_iff s.file fun _ y => y.type ≠ .none → 0 < y.ref).mpr
      ⟨huse, fun _ _ => h.inUse⟩ g
  · exact (forall_update_iff s.file fun _ y => y.type = .none → y.ref = 0 ∨ y.ref = 1).mpr
      ⟨hfresh, fun _ _ => h.fresh⟩ g

end TablesInv

section

variable (hneed : ∀ t, (need.count t : ℤ) ≤ s.balance t)

include hneed

lemma one_le_supply {t : Token} (ht : t ∈ need) : 1 ≤ s.supply t := by
  have hcount : 1 ≤ need.count t := one_le_count_iff_mem.mpr ht
  have hle := hneed t
  have hstored : 0 ≤ s.stored t := by
    unfold stored
    exact add_nonneg (Finset.sum_nonneg fun _ _ => Int.natCast_nonneg _)
      (Finset.sum_nonneg fun _ _ => Int.natCast_nonneg _)
  unfold balance at hle
  omega

lemma ref_pos (hi : inode i ∈ need) : 0 < (s.inode i).ref :=
  one_le_supply hneed hi

/-- A token that is held shows the condition under which the tables account for it. -/
theorem of_mem_need {t : Token} {P : Prop} [Decidable P] (ht : t ∈ need)
    (h : s.supply t = if P then 1 else 0) : P := by
  by_contra hP
  have hone := one_le_supply hneed ht
  rw [h, if_neg hP] at hone
  omega

lemma lock_eq (hi : locked p i ∈ need) : (s.inode i).lock = some p :=
  of_mem_need hneed hi rfl

lemma life_eq {np : ProcId} (hnp : child np ∈ need) : s.life np = .used :=
  of_mem_need hneed hnp rfl

lemma busy_eq (hp : self p ∈ need) : s.busy p = true :=
  of_mem_need hneed hp rfl

lemma type_ne_none (hf : file f ∈ need) : (s.file f).type ≠ .none ∧ 0 < (s.file f).ref := by
  have h := one_le_supply hneed hf
  simp only [supply] at h
  split_ifs at h with htype
  · omega
  · exact ⟨htype, by omega⟩

end

lemma type_eq_none (hinv : TablesInv s) (hneed : ∀ t, (need.count t : ℤ) ≤ s.balance t)
    (hf : new f ∈ need) : (s.file f).type = .none ∧ (s.file f).ref = 1 := by
  have h := one_le_supply hneed hf
  simp only [supply] at h
  split_ifs at h with htype
  · have hfresh := hinv.fresh htype
    exact ⟨htype, by omega⟩
  · omega

lemma TablesInv.not_busy (hinv : TablesInv s) (h : s.life p ≠ .live) : s.busy p = false := by
  by_contra hbusy
  exact h (hinv.busy (by simpa using hbusy))

lemma iget_settles {dev inum : ℕ} (hinv : TablesInv s) (h : s.iget dev inum = .ok (i, s')) :
    TablesInv s' ∧ Settles s 0 s' {inode i} := by
  unfold iget at h
  split at h
  next j hfind =>
    cases h
    have hj := List.find?_some hfind
    simp only [decide_eq_true_eq] at hj
    refine ⟨hinv.setInode rfl rfl fun _ => hj.1, .setInode fun t => ?_⟩
    rw [worth_ref, count_singleton, count_zero]
    split_ifs <;> omega
  next hnone =>
    split at h
    next j hempty =>
      cases h
      have hj := List.find?_some hempty
      simp only [decide_eq_true_eq] at hj
      refine ⟨hinv.recycle fun k hk hd hn => ?_, .setInode fun t => ?_⟩
      · have := List.find?_eq_none.mp hnone k (List.mem_finRange k)
        simp [hk, hd, hn] at this
      · simp only [worth, hj, count_singleton, count_zero]
        split_ifs <;> omega
    next => cases h

lemma iunlock_settles {u : Unit} (hinv : TablesInv s)
    (h : s.iunlock p i = .ok (u, s')) :
    TablesInv s' ∧ Settles s ({inode i} + {locked p i}) s' {inode i} := by
  unfold iunlock at h
  split_ifs at h with hpanic
  cases h
  obtain ⟨hlock, -⟩ := not_or.mp hpanic
  refine ⟨hinv.setInode rfl rfl id, .setInode fun t => ?_⟩
  have hw := worth_unlock (i := i) (not_not.mp hlock) t
  rw [count_add]
  push_cast
  omega

lemma File.worth_of_type {x : File} (h : x.type ≠ .none) (t : Token) :
    x.worth f t = (if t = file f then x.ref else 0) - (x.tokens f).count t := by
  rw [worth, if_neg h]

lemma File.worth_of_none {x : File} (h : x.type = .none) (t : Token) :
    x.worth f t = if t = new f then x.ref else 0 := by
  simp [worth, tokens, h]

section

variable (hinv : TablesInv s)

include hinv

lemma setFile_ref_settles {n : ℤ} (htype : (s.file f).type ≠ .none) (hn : 0 < n)
    (hcount : ∀ t, (if t = file f then n - (s.file f).ref else 0) + need.count t = give.count t) :
    TablesInv (s.setFile f { s.file f with ref := n }) ∧
      Settles s need (s.setFile f { s.file f with ref := n }) give := by
  refine ⟨hinv.setFile (fun _ => hn) fun h => absurd h htype, .setFile fun t => ?_⟩
  have ht := hcount t
  have htokens : ({ s.file f with ref := n } : File).tokens f = (s.file f).tokens f := rfl
  rw [File.worth_of_type htype, File.worth_of_type (x := { s.file f with ref := n }) htype, htokens]
  dsimp only
  split_ifs at ht ⊢ <;> omega

lemma fileclose_settles {r : Option File} (hneed : ∀ t, (need.count t : ℤ) ≤ s.balance t)
    (hf : need = {file f} ∨ need = {new f}) (h : s.fileclose f = .ok (r, s')) :
    TablesInv s' ∧ Settles s need s' (r.elim 0 fun ff => ff.tokens f) := by
  unfold Tables.fileclose at h
  split_ifs at h with hpanic hmore
  · -- other references are left, so that the file has been filled in
    cases h
    rcases hf with rfl | rfl
    · refine setFile_ref_settles hinv (type_ne_none hneed (by simp)).1 hmore fun t => ?_
      rw [count_singleton, Option.elim_none, count_zero]
      split_ifs <;> omega
    · have hone := (type_eq_none hinv hneed (f := f) (by simp)).2
      omega
  · cases h
    have href : (s.file f).ref = 1 := by omega
    refine ⟨hinv.setFile (fun h => absurd rfl h) fun _ => .inl rfl, .setFile fun t => ?_⟩
    rw [File.worth_of_none (x := { s.file f with ref := 0, type := .none }) rfl, Option.elim_some]
    rcases hf with rfl | rfl
    · rw [File.worth_of_type (type_ne_none hneed (by simp)).1, count_singleton, href]
      dsimp only
      split_ifs <;> omega
    · have htype := (type_eq_none hinv hneed (f := f) (by simp)).1
      rw [File.worth_of_none htype, count_singleton, href]
      simp only [File.tokens, htype, count_zero]
      split_ifs <;> rfl

/-- A new file is filled in with something that has one token. -/
theorem gain_settles {x : File} {u : Token} (hnew : (s.file f).type = .none ∧ (s.file f).ref = 1)
    (htype : x.type ≠ .none) (href : x.ref = (s.file f).ref)
    (htokens : x.tokens f = {u} + {duty f}) :
    TablesInv (s.gain f x) ∧ Settles s ({new f} + {u}) (s.gain f x) {file f} := by
  obtain ⟨hnone, hone⟩ := hnew
  have hinv' : TablesInv (s.setFile f x) :=
    hinv.setFile (fun _ => by omega) fun h => absurd h htype
  refine ⟨⟨hinv'.inUse, hinv'.fresh, hinv'.unique, hinv'.busy, hinv'.page⟩, fun t => ?_⟩
  have hb := s.balance_setFile f x t
  -- the duty to release it is new as well
  have hgain : (s.gain f x).balance t =
      (s.setFile f x).balance t + ({duty f} : Multiset Token).count t := by
    have hstored : (s.gain f x).stored t = (s.setFile f x).stored t := rfl
    simp only [balance, hstored]
    cases t with
    | duty g =>
      by_cases hg : g = f
      · subst hg
        simp only [supply, gain, setFile, update_self, count_singleton_self]
        push_cast
        omega
      · simp [supply, gain, setFile, hg]
    | _ =>
      rw [count_singleton, if_neg (by simp)]
      simp only [Nat.cast_zero, add_zero]
      rfl
  rw [File.worth_of_none hnone, File.worth_of_type htype, htokens, href, hone] at hb
  rw [hgain]
  simp only [count_add, count_singleton] at hb ⊢
  push_cast at hb ⊢
  split_ifs at hb ⊢ <;> simp_all <;> omega

/-! ### Pipes and processes -/

lemma setPipe_settles {pi : ℕ} {x : PipeEnds} (hpage : x.allocated = (x.readopen || x.writeopen))
    (hread : (if x.readopen then 1 else 0) + (need.count (pipe pi false) : ℤ) =
      (if (s.pipe pi).readopen then 1 else 0) + give.count (pipe pi false))
    (hwrite : (if x.writeopen then 1 else 0) + (need.count (pipe pi true) : ℤ) =
      (if (s.pipe pi).writeopen then 1 else 0) + give.count (pipe pi true))
    (hother : ∀ t, (∀ w, t ≠ pipe pi w) → need.count t = give.count t) :
    TablesInv (s.setPipe pi x) ∧ Settles s need (s.setPipe pi x) give := by
  refine ⟨⟨hinv.inUse, hinv.fresh, hinv.unique, hinv.busy, fun pi' => ?_⟩, fun t => ?_⟩
  · exact (forall_update_iff s.pipe fun _ y => y.allocated = (y.readopen || y.writeopen)).mpr
      ⟨hpage, fun pi' _ => hinv.page pi'⟩ pi'
  have hstored : (s.setPipe pi x).stored t = s.stored t := rfl
  suffices hsupply : (s.setPipe pi x).supply t + need.count t = s.supply t + give.count t by
    simp only [balance, hstored]
    omega
  cases t with
  | pipe pi' w =>
    by_cases h : pi' = pi
    · subst h
      cases w with
      | false => simpa [supply, setPipe] using hread
      | true => simpa [supply, setPipe] using hwrite
    · rw [hother _ (by simp [h])]
      simp [supply, setPipe, h]
  | _ =>
    rw [hother _ (by simp)]
    rfl

lemma pipeclose_settles {pi : ℕ} {w : Bool}
    (hneed : ∀ t, ((({pipe pi w} : Multiset Token).count t : ℕ) : ℤ) ≤ s.balance t) :
    TablesInv (s.pipeclose pi w) ∧ Settles s {pipe pi w} (s.pipeclose pi w) 0 := by
  have hopen := one_le_supply hneed (t := pipe pi w) (by simp)
  refine setPipe_settles hinv rfl ?_ ?_ ?_
  · cases w <;> cases hr : (s.pipe pi).readopen <;>
      simp_all [supply, count_singleton]
  · cases w <;> cases hw : (s.pipe pi).writeopen <;>
      simp_all [supply, count_singleton]
  · intro t ht
    rw [count_singleton, if_neg (ht w), count_zero]

lemma newPipe_settles {pi : ℕ} (hfree : (s.pipe pi).allocated = false) :
    TablesInv (s.setPipe pi ⟨true, true, true⟩) ∧
      Settles s 0 (s.setPipe pi ⟨true, true, true⟩) ({pipe pi false} + {pipe pi true}) := by
  have hclosed := hinv.page pi
  rw [hfree, eq_comm, Bool.or_eq_false_iff] at hclosed
  refine setPipe_settles hinv rfl ?_ ?_ ?_
  · simp [hclosed.1]
  · simp [hclosed.2]
  · intro t ht
    simp [ht]

end

/-- What an entry of the process table contributes to the balance. -/
def Tables.procWorth (s : Tables) (p : ProcId) (t : Token) : ℤ :=
  (if t = child p ∧ s.life p = .used then 1 else 0) + (if t = self p ∧ s.busy p then 1 else 0) -
    (s.restTokens p).count t

/-- Only one process changes its life, its descriptors or whether it is in a call. -/
structure ChangesProc (s s' : Tables) (p : ProcId) : Prop where
  file : s'.file = s.file
  inode : s'.inode = s.inode
  pipe : s'.pipe = s.pipe
  gained : s'.gained = s.gained
  released : s'.released = s.released
  other : ∀ q, q ≠ p → s'.life q = s.life q ∧ s'.busy q = s.busy q ∧ s'.own q = s.own q

lemma ChangesProc.settles (h : ChangesProc s s' p) (hinv : TablesInv s)
    (hbusy : s'.busy p = true → s'.life p = .live)
    (hworth : ∀ t, s'.procWorth p t + need.count t = s.procWorth p t + give.count t) :
    TablesInv s' ∧ Settles s need s' give := by
  refine ⟨⟨?_, ?_, ?_, fun {q} hq => ?_, ?_⟩, fun t => ?_⟩
  · rw [h.file]
    exact hinv.inUse
  · rw [h.file]
    exact hinv.fresh
  · rw [h.inode]
    exact hinv.unique
  · by_cases hqp : q = p
    · subst hqp
      exact hbusy hq
    · rw [(h.other q hqp).1]
      rw [(h.other q hqp).2.1] at hq
      exact hinv.busy hq
  · rw [h.pipe]
    exact hinv.page
  have hstored := stored_rest p t h.file fun q hq => by
    simp only [restTokens, h.other q hq]
  have ht := hworth t
  suffices hsupply : s'.supply t + (if t = child p ∧ s.life p = .used then 1 else 0) +
      (if t = self p ∧ s.busy p then 1 else 0) = s.supply t +
      (if t = child p ∧ s'.life p = .used then 1 else 0) +
      (if t = self p ∧ s'.busy p then 1 else 0) by
    simp only [balance, procWorth] at ht ⊢
    omega
  cases t with
  | child q | self q =>
    by_cases hq : q = p
    · subst hq
      simp only [supply]
      simp
      omega
    · simp [supply, h.other q hq, hq]
  | _ => simp [supply, h.file, h.inode, h.pipe, h.gained, h.released]

/-- `publish`, `finish` and the other sections in which a process changes its state. -/
theorem Tables.procWorth_eq (s : Tables) (p : ProcId) (t : Token) :
    s.procWorth p t = ((if s.life p = .used then {child p} else 0 : Multiset Token).count t : ℤ) +
      (if s.busy p then {self p} else 0 : Multiset Token).count t - (s.restTokens p).count t := by
  unfold procWorth
  split_ifs <;> simp_all

lemma act_settles {a : Answer} {sec : Sec} {r : sec.Res} {give : sec.Res → Multiset Token}
    (hinv : TablesInv s) (hspec : FileSpec p sec need give)
    (hneed : ∀ t, (need.count t : ℤ) ≤ s.balance t)
    (hact : s.act p a sec = some (.ok (r, s'))) : TablesInv s' ∧ Settles s need s' (give r) := by
  cases hspec with
  | choose | lookup =>
    dsimp only [act] at hact
    split at hact <;> cases hact
    exact ⟨hinv, fun _ => rfl⟩
  | iget dev inum => exact iget_settles hinv (Option.some.inj hact)
  | idup i =>
    cases hact
    refine ⟨hinv.setInode rfl rfl fun _ => ref_pos hneed (by simp), .setInode fun t => ?_⟩
    rw [worth_ref, count_add, count_singleton]
    split_ifs <;> push_cast <;> omega
  | ilock i =>
    dsimp only [act] at hact
    split_ifs at hact with hpanic hlock
    · cases hact
    · split at hact <;> cases hact
      refine ⟨hinv.setInode rfl rfl id, .setInode fun t => ?_⟩
      rw [worth_lock hlock, count_add]
      push_cast
      omega
  | iunlock i => exact iunlock_settles hinv (Option.some.inj hact)
  | iput i =>
    dsimp only [act] at hact
    split at hact
    · split_ifs at hact with hlast hlock <;> cases hact
      · refine ⟨hinv.setInode rfl rfl id, .setInode fun t => ?_⟩
        simp only [worth_lock hlock, if_true, count_add]
        push_cast
        omega
      · refine ⟨hinv.setInode rfl rfl fun _ => ref_pos hneed (by simp), .setInode fun t => ?_⟩
        simp only [worth_ref, count_singleton, Bool.false_eq_true, if_false, count_zero]
        split_ifs <;> push_cast <;> omega
    · cases hact
  | iputRelease i =>
    cases hact
    refine ⟨hinv.setInode rfl rfl id, .setInode fun t => ?_⟩
    have hlock : (s.inode i).lock = some p := lock_eq hneed (by simp)
    have hw := worth_unlock (i := i) hlock t
    rw [count_add]
    push_cast
    omega
  | iputDrop i =>
    cases hact
    refine ⟨hinv.setInode rfl rfl fun _ => ref_pos hneed (by simp), .setInode fun t => ?_⟩
    rw [worth_ref, count_singleton, count_zero]
    split_ifs <;> push_cast <;> omega
  | filealloc =>
    dsimp only [act] at hact
    split at hact
    next f hempty =>
      cases hact
      have hf := List.find?_some hempty
      simp only [decide_eq_true_eq] at hf
      have htype : (s.file f).type = .none := by
        by_contra htype
        have := hinv.inUse htype
        omega
      refine ⟨hinv.setFile (fun h => absurd htype h) fun _ => .inr rfl, .setFile fun t => ?_⟩
      rw [File.worth_of_none htype, File.worth_of_none (x := { s.file f with ref := 1 }) htype, hf]
      simp only [Option.elim_some, count_singleton, count_zero]
      split_ifs <;> rfl
    next =>
      cases hact
      exact ⟨hinv, fun _ => rfl⟩
  | filedup f =>
    dsimp only [act] at hact
    split_ifs at hact with hpanic
    · cases hact
    · cases hact
      have htype : (s.file f).type ≠ .none := (type_ne_none hneed (by simp)).1
      refine setFile_ref_settles hinv htype (by omega) fun t => ?_
      rw [count_add, count_singleton]
      push_cast
      split_ifs <;> omega
  | fileclose f => exact fileclose_settles hinv hneed (.inl rfl) (Option.some.inj hact)
  | abandon f => exact fileclose_settles hinv hneed (.inr rfl) (Option.some.inj hact)
  | noteReleased f =>
    cases hact
    refine ⟨⟨hinv.inUse, hinv.fresh, hinv.unique, hinv.busy, hinv.page⟩, fun t => ?_⟩
    have hstored : ({ s with released := update s.released f (s.released f + 1) } :
        Tables).stored t = s.stored t := rfl
    simp only [balance, hstored]
    cases t with
    | duty g =>
      by_cases hg : g = f
      · subst hg
        simp only [supply, update_self, count_singleton_self, count_zero]
        push_cast
        omega
      · simp [supply, hg]
    | _ =>
      rw [count_singleton, if_neg (by simp), count_zero]
      rfl
  | newPipe =>
    dsimp only [act] at hact
    split at hact
    · cases hact
      exact ⟨hinv, fun _ => rfl⟩
    · split_ifs at hact with halloc
      cases hact
      exact newPipe_settles hinv (by simpa using halloc)
    · cases hact
  | setPipe f pi w =>
    cases hact
    exact gain_settles hinv (type_eq_none hinv hneed (by simp)) (by simp) rfl rfl
  | setInode f i device readable writable =>
    have hgain := gain_settles (u := inode i) (x := { s.file f with
      type := if device then .device i else .inode i, readable := readable, writable := writable })
      hinv (type_eq_none hinv hneed (by simp)) (by cases device <;> simp) rfl
      (by cases device <;> rfl)
    obtain ⟨hinv', hunlock⟩ := iunlock_settles hgain.1 (Option.some.inj hact)
    refine ⟨hinv', fun t => ?_⟩
    have h1 := hgain.2 t
    have h2 := hunlock t
    simp only [count_add] at h1 h2 ⊢
    push_cast at h1 h2 ⊢
    omega
  | pipeclose pi w =>
    cases hact
    exact pipeclose_settles hinv hneed
  | allocproc =>
    dsimp only [act] at hact
    split at hact
    next np hunused =>
      cases hact
      have hnp := List.find?_some hunused
      simp only [decide_eq_true_eq] at hnp
      have hidle := hinv.not_busy (p := np) (by rw [hnp]; simp)
      refine ChangesProc.settles (p := np) ⟨rfl, rfl, rfl, rfl, rfl, fun q hq => by simp [hq]⟩
        hinv (fun h => ?_) fun t => ?_
      · simp [hidle] at h
      · simp [procWorth_eq, restTokens, hnp, hidle]
    next =>
      cases hact
      exact ⟨hinv, fun _ => rfl⟩
    next => cases hact
  | freeproc np =>
    cases hact
    have hused : s.life np = .used := life_eq hneed (by simp)
    have hidle := hinv.not_busy (p := np) (by rw [hused]; simp)
    refine ChangesProc.settles (p := np) ⟨rfl, rfl, rfl, rfl, rfl, fun q hq => by simp [hq]⟩
      hinv (fun h => ?_) fun t => ?_
    · simp [hidle] at h
    · simp [procWorth_eq, restTokens, hused, hidle]
  | publish np own =>
    cases hact
    have hused : s.life np = .used := life_eq hneed (by simp)
    have hidle := hinv.not_busy (p := np) (by rw [hused]; simp)
    refine ChangesProc.settles (p := np) ⟨rfl, rfl, rfl, rfl, rfl, fun q hq => by simp [hq]⟩
      hinv (fun h => ?_) fun t => ?_
    · simp [hidle] at h
    · rw [count_add]
      simp [procWorth_eq, restTokens, hused, hidle]
  | finish own =>
    cases hact
    have hbusy := busy_eq hneed (p := p) (by simp)
    have hlive := hinv.busy hbusy
    refine ChangesProc.settles (p := p) ⟨rfl, rfl, rfl, rfl, rfl, fun q hq => by simp [hq]⟩
      hinv (fun h => ?_) fun t => ?_
    · simp at h
    · rw [count_add]
      simp [procWorth_eq, restTokens, hbusy, hlive]
  | exit =>
    cases hact
    have hbusy := busy_eq hneed (p := p) (by simp)
    have hlive := hinv.busy hbusy
    refine ChangesProc.settles (p := p) ⟨rfl, rfl, rfl, rfl, rfl, fun q hq => by simp [hq]⟩
      hinv (fun h => ?_) fun t => ?_
    · simp at h
    · simp [procWorth_eq, restTokens, hbusy, hlive]

/-- The panics that a wrong reference count would lead to. -/
def RefPanic (msg : String) : Prop := msg = "filedup" ∨ msg = "fileclose" ∨ msg = "iunlock"

/-- A section that has its tokens does not find a reference count that is too low. -/
theorem act_not_panic {a : Answer} {sec : Sec} {msg : String} {give : sec.Res → Multiset Token}
    (hinv : TablesInv s) (hspec : FileSpec p sec need give)
    (hneed : ∀ t, (need.count t : ℤ) ≤ s.balance t)
    (hact : s.act p a sec = some (.error msg)) : ¬RefPanic msg := by
  have hunlock : ∀ {s : Tables} {i : InodeId}, (s.inode i).lock = some p → 0 < (s.inode i).ref →
      s.iunlock p i ≠ .error msg := by
    intro s i hlock href
    rw [iunlock, if_neg (by rw [hlock]; simp; omega)]
    simp
  have hclose : ∀ {f : FileId}, 0 < (s.file f).ref → s.fileclose f ≠ .error msg := by
    intro f href
    rw [Tables.fileclose, if_neg (by omega)]
    split_ifs <;> simp
  cases hspec with
  | iget dev inum =>
    have hget := Option.some.inj hact
    unfold iget at hget
    split at hget
    · cases hget
    · split at hget
      · cases hget
      · cases hget
        simp [RefPanic]
  | ilock i =>
    dsimp only [act] at hact
    split_ifs at hact with hpanic hlock
    · cases hact
      simp [RefPanic]
    · split at hact <;> cases hact
      simp [RefPanic]
  | iunlock i =>
    exact absurd (Option.some.inj hact)
      (hunlock (lock_eq hneed (by simp)) (ref_pos hneed (by simp)))
  | filedup f =>
    have href : 0 < (s.file f).ref := (type_ne_none hneed (by simp)).2
    dsimp only [act] at hact
    rw [if_neg (by omega)] at hact
    cases hact
  | fileclose f =>
    have href : 0 < (s.file f).ref := (type_ne_none hneed (by simp)).2
    exact absurd (Option.some.inj hact) (hclose href)
  | abandon f =>
    have href : (s.file f).ref = 1 := (type_eq_none hinv hneed (by simp)).2
    exact absurd (Option.some.inj hact) (hclose (by omega))
  | setInode f i device readable writable =>
    have hlock : (s.inode i).lock = some p := lock_eq hneed (by simp)
    have href : 0 < (s.inode i).ref := ref_pos hneed (by simp)
    exact absurd (Option.some.inj hact) (hunlock hlock href)
  | choose | lookup | iput i | newPipe | allocproc =>
    dsimp only [act] at hact
    split at hact <;> first | cases hact | (split_ifs at hact <;> cases hact)
  | filealloc =>
    dsimp only [act] at hact
    split at hact <;> cases hact
  | idup i | iputRelease i | iputDrop i | noteReleased f | setPipe f pi w | pipeclose pi w
  | freeproc np | publish np own | finish own | exit => cases hact

end Sections

end Xv6.Files
