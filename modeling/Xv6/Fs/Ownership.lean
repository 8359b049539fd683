import Xv6.Foundations.AllocationMap
import Xv6.Fs.Model

/-!
# Who owns which block

The places of an inode that refer to blocks are its data blocks, direct or through the indirect
block, and the indirect block itself. `owner` is the block that each place of each inode refers to.
The bitmap is exact (`Owned`) if it marks the metadata blocks and exactly the blocks referred to,
and no block is referred to twice.

While a function works on an inode, the copy in memory is ahead of the disk, so the invariant is
about `State.view`, the inodes on disk with the one in question taken from memory.
-/

namespace Xv6.Fs

open Function

open Log (getWord setWord)

/-- A place of an inode that refers to a block. -/
inductive BlockPlace where
  /-- The `n`-th data block. -/
  | data (n : ℕ)
  /-- The indirect block. -/
  | indirect
  deriving DecidableEq

/-- The block that a place refers to, `0` if there is none. -/
def Dinode.addrOf (d : Dinode) (block : ℕ → Block) : BlockPlace → ℕ
  | .data n =>
    if n < NDIRECT then d.addrs n
    else if n < MAXFILE ∧ d.addrs NDIRECT ≠ 0 then
      (getWord (block (d.addrs NDIRECT)) (n - NDIRECT)).toNat
    else 0
  | .indirect => d.addrs NDIRECT

/-- The block that a place of an allocated inode refers to, `0` if there is none. -/
def owner (D : ℕ → Dinode) (block : ℕ → Block) (k : ℕ × BlockPlace) : ℕ :=
  if (D k.1).type = .free then 0 else (D k.1).addrOf block k.2

/-- The bitmap is exact. -/
abbrev Owned (sb : Superblock) (D : ℕ → Dinode) (block : ℕ → Block) (bit : ℕ → Bool) : Prop :=
  AllocationMap.Exact sb.datastart sb.size (owner D block) bit

/-! ## Changes of the inodes and blocks -/

section Owner

variable {D : ℕ → Dinode} {block : ℕ → Block} {i b : ℕ}

lemma owner_of_alloc (h : (D i).type ≠ .free) (p : BlockPlace) :
    owner D block (i, p) = (D i).addrOf block p := if_neg h

lemma owner_congr {D' : ℕ → Dinode} {block' : ℕ → Block} {j : ℕ} (hD : D' j = D j)
    (hblock : owner D block (j, .indirect) ≠ 0 →
      block' (owner D block (j, .indirect)) = block (owner D block (j, .indirect)))
    (p : BlockPlace) : owner D' block' (j, p) = owner D block (j, p) := by
  unfold owner at *
  simp only [hD] at *
  split_ifs with hfree
  · rfl
  · rw [if_neg hfree] at hblock
    cases p with
    | indirect => rfl
    | data n =>
      simp only [Dinode.addrOf] at hblock ⊢
      split_ifs with hdirect hmax
      · rfl
      · rw [hblock hmax.2]
      · rfl

lemma owner_update_block (hb : ∀ j, owner D block (j, .indirect) ≠ b) (x : Block) :
    owner D (update block b x) = owner D block := by
  funext ⟨j, p⟩
  refine owner_congr rfl (fun _ => ?_) p
  exact update_of_ne (hb j) ..

lemma owner_setDirect (hi : (D i).type ≠ .free) {n : ℕ} (hn : n < NDIRECT) :
    owner (update D i { D i with addrs := update (D i).addrs n b }) block =
      update (owner D block) (i, .data n) b := by
  funext ⟨j, p⟩
  by_cases hj : j = i
  · subst hj
    have hne : NDIRECT ≠ n := by omega
    cases p with
    | indirect =>
      rw [update_of_ne (by simp)]
      simp [owner, hi, Dinode.addrOf, update_of_ne hne]
    | data m =>
      by_cases hm : m = n
      · subst hm
        simp [owner, hi, Dinode.addrOf, hn]
      · rw [update_of_ne (by simp [hm])]
        simp [owner, hi, Dinode.addrOf, update_of_ne hm, update_of_ne hne]
  · rw [update_of_ne (by simp [hj])]
    exact owner_congr (update_of_ne hj ..) (fun _ => rfl) p

lemma getWord_zero (k : ℕ) : getWord (0 : Block) k = 0 := by
  simp [getWord]

lemma owner_setIndirect (hi : (D i).type ≠ .free) (hnone : (D i).addrs NDIRECT = 0)
    (hb : ∀ j, owner D block (j, .indirect) ≠ b) :
    owner (update D i { D i with addrs := update (D i).addrs NDIRECT b })
        (update block b 0) =
      update (owner D block) (i, .indirect) b := by
  funext ⟨j, p⟩
  by_cases hj : j = i
  · subst hj
    cases p with
    | indirect => simp [owner, hi, Dinode.addrOf]
    | data m =>
      rw [update_of_ne (by simp)]
      by_cases hm : m < NDIRECT
      · simp [owner, hi, Dinode.addrOf, hm, update_of_ne (show m ≠ NDIRECT by omega)]
      · -- an indirect block of zeros refers to nothing
        simp [owner, hi, Dinode.addrOf, hm, hnone, getWord_zero]
  · rw [update_of_ne (by simp [hj])]
    exact owner_congr (update_of_ne hj ..) (fun _ => update_of_ne (hb j) ..) p

lemma owner_setEntry {a k : ℕ} (ha : owner D block (i, .indirect) = a) (hne : a ≠ 0)
    (hother : ∀ j, j ≠ i → owner D block (j, .indirect) ≠ a) (hk : k < NINDIRECT)
    (hb : b < 2 ^ 32) :
    owner D (update block a (setWord (block a) k (BitVec.ofNat 32 b))) =
      update (owner D block) (i, .data (NDIRECT + k)) b := by
  have hi : (D i).type ≠ .free := by
    intro hfree
    rw [owner, if_pos hfree] at ha
    exact hne ha.symm
  have haddr : (D i).addrs NDIRECT = a := by
    rwa [owner_of_alloc hi] at ha
  funext ⟨j, p⟩
  by_cases hj : j = i
  · subst hj
    rw [owner_of_alloc hi]
    cases p with
    | indirect =>
      rw [update_of_ne (by simp), owner_of_alloc hi]
      rfl
    | data m =>
      by_cases hm : m = NDIRECT + k
      · subst hm
        have hlt : NDIRECT + k < MAXFILE := by
          unfold MAXFILE
          omega
        have hword : getWord (setWord (block a) k (BitVec.ofNat 32 b)) k = BitVec.ofNat 32 b :=
          Log.getWord_setWord_self _ hk _
        have hindirect : ¬NDIRECT + k < NDIRECT := by omega
        have hnat : (BitVec.ofNat 32 b).toNat = b := by
          rw [BitVec.toNat_ofNat]
          exact Nat.mod_eq_of_lt hb
        simp only [Dinode.addrOf, haddr, if_neg hindirect, hword, hnat, Nat.add_sub_cancel_left,
          update_self]
        exact if_pos ⟨hlt, hne⟩
      · rw [update_of_ne (by simp [hm]), owner_of_alloc hi]
        by_cases hdirect : m < NDIRECT
        · simp [Dinode.addrOf, hdirect]
        · have hword : getWord (setWord (block a) k (BitVec.ofNat 32 b)) (m - NDIRECT) =
              getWord (block a) (m - NDIRECT) :=
            Log.getWord_setWord_of_ne _ (by omega) _
          simp [Dinode.addrOf, hdirect, haddr, hword]
  · rw [update_of_ne (by simp [hj])]
    exact owner_congr rfl (fun _ => update_of_ne (hother j hj) ..) p

end Owner

/-! ## Working on an inode -/

/-- The inodes on disk, with one taken from memory. -/
def State.view (s : State) (ip : ℕ) : ℕ → Dinode := update s.dinode ip (s.inode ip).din

/-- The blocks that the places of these inodes refer to. -/
def State.own (s : State) (ip : ℕ) : ℕ × BlockPlace → ℕ := owner (s.view ip) s.block

@[simp]
lemma State.view_self (s : State) (ip : ℕ) : s.view ip ip = (s.inode ip).din :=
  update_self ..

lemma State.view_of_ne (s : State) {ip j : ℕ} (h : j ≠ ip) : s.view ip j = s.dinode j :=
  update_of_ne h ..

/-- A function works on an allocated inode. -/
structure Working (sb : Superblock) (ip : ℕ) (s : State) : Prop where
  owned : Owned sb (s.view ip) s.block s.bit
  alloc : (s.inode ip).din.type ≠ .free

/-- An entry of the inode table with other block addresses. -/
def Inode.setAddrs (e : Inode) (addrs : ℕ → ℕ) : Inode :=
  { e with din := { e.din with addrs := addrs } }

@[simp]
lemma Inode.setAddrs_setAddrs (e : Inode) (a a' : ℕ → ℕ) :
    (e.setAddrs a).setAddrs a' = e.setAddrs a' := rfl

/-- The blocks that allocated inodes had before are still there, with their content, and only `ip`
has got new ones. -/
structure Grown (ip : ℕ) (s s' : State) : Prop where
  dinode : s'.dinode = s.dinode
  other : ∀ j, j ≠ ip → s'.inode j = s.inode j
  same : ∃ addrs, s'.inode ip = (s.inode ip).setAddrs addrs
  keeps : ∀ k, s.own ip k ≠ 0 → s'.own ip k = s.own ip k
  only : ∀ k, k.1 ≠ ip → s'.own ip k = s.own ip k
  content : ∀ i n, s.own ip (i, .data n) ≠ 0 →
    s'.block (s.own ip (i, .data n)) = s.block (s.own ip (i, .data n))

section Working

variable {sb : Superblock} {ip : ℕ} {s s' s'' : State} {E : Fault → Prop}

lemma Grown.refl (ip : ℕ) (s : State) : Grown ip s s :=
  ⟨rfl, fun _ _ => rfl, ⟨_, rfl⟩, fun _ _ => rfl, fun _ _ => rfl, fun _ _ _ => rfl⟩

lemma Grown.trans (h : Grown ip s s') (h' : Grown ip s' s'') : Grown ip s s'' := by
  refine ⟨h'.dinode.trans h.dinode, fun j hj => (h'.other j hj).trans (h.other j hj), ?_,
    fun k hk => ?_, fun k hk => (h'.only k hk).trans (h.only k hk), fun i n hn => ?_⟩
  · obtain ⟨a, ha⟩ := h.same
    obtain ⟨a', ha'⟩ := h'.same
    exact ⟨a', by rw [ha', ha, Inode.setAddrs_setAddrs]⟩
  · have hkeep := h.keeps k hk
    rw [h'.keeps k (by rwa [hkeep]), hkeep]
  · have hkeep := h.keeps (i, .data n) hn
    have hcontent := h'.content i n (by rwa [hkeep])
    rw [hkeep] at hcontent
    rw [hcontent, h.content i n hn]

lemma Working.range (h : Working sb ip s) {k : ℕ × BlockPlace} (hk : s.own ip k ≠ 0) :
    sb.datastart ≤ s.own ip k ∧ s.own ip k < sb.size := h.owned.range k hk

lemma Working.inj (h : Working sb ip s) {k l : ℕ × BlockPlace} (hk : s.own ip k ≠ 0)
    (heq : s.own ip k = s.own ip l) : k = l := h.owned.inj hk heq

/-- A place of the inode gets a block that was free. -/
theorem Working.claim (h : Working sb ip s) {b : ℕ} {p : BlockPlace} (hb : s.bit b = false)
    (hlt : b < sb.size) (hp : s.own ip (ip, p) = 0) (hdinode : s'.dinode = s.dinode)
    (hother : ∀ j, j ≠ ip → s'.inode j = s.inode j)
    (hsame : ∃ addrs, s'.inode ip = (s.inode ip).setAddrs addrs)
    (hbit : s'.bit = update s.bit b true)
    (hown : s'.own ip = update (s.own ip) (ip, p) b)
    (hblock : ∀ c, c ≠ b → (∀ j, s.own ip (j, .indirect) ≠ c) → s'.block c = s.block c) :
    Working sb ip s' ∧ Grown ip s s' := by
  have howned : Owned sb (s'.view ip) s'.block s'.bit := by
    change AllocationMap.Exact _ _ (s'.own ip) _
    rw [hown, hbit]
    exact h.owned.claim hb hlt hp
  refine ⟨⟨howned, ?_⟩, hdinode, hother, hsame, fun k hk => ?_, fun k hk => ?_, fun i n hn => ?_⟩
  · obtain ⟨a, ha⟩ := hsame
    rw [ha]
    exact h.alloc
  · rw [hown, update_of_ne]
    rintro rfl
    exact hk hp
  · rw [hown, update_of_ne]
    rintro rfl
    exact hk rfl
  · refine hblock _ (h.owned.own_ne hb _) fun j hj => ?_
    -- a data block is not an indirect block
    have hplace := h.inj hn hj.symm
    cases hplace

/-! ## `balloc` -/

lemma bread_spec {b : ℕ} {Q : Block → State → Prop} (hlo : sb.datastart ≤ b) (hhi : b < sb.size)
    (h : Q (s.block b) s) : Wp (bread sb b) E s Q := by
  unfold bread
  exact .ite (fun _ => .bind (.get (.pure h))) fun hn => absurd ⟨hlo, hhi⟩ hn

lemma logWrite_spec {b : ℕ} {x : Block} {Q : Unit → State → Prop} (hlo : sb.datastart ≤ b)
    (hhi : b < sb.size) (h : Q () { s with block := update s.block b x }) :
    Wp (logWrite sb b x) E s Q := by
  unfold logWrite
  exact .ite (fun _ => .modify h) fun hn => absurd ⟨hlo, hhi⟩ hn

/-- `balloc` returns a block that was free, filled with zeros, or `0`. -/
theorem balloc_spec {own : ℕ × BlockPlace → ℕ}
    (h : AllocationMap.Exact sb.datastart sb.size own s.bit) :
    Wp (balloc sb) E s fun b s' => (b = 0 ∧ s' = s) ∨
      (b ≠ 0 ∧ b < sb.size ∧ s.bit b = false ∧
        s' = { s with
          bit := update s.bit b true, block := update s.block b 0 }) := by
  unfold balloc
  refine .bind (.get ?_)
  cases hfind : (List.range sb.size).find? fun b => !s.bit b with
  | none => exact .pure (.inl ⟨rfl, rfl⟩)
  | some b =>
    have hfree : s.bit b = false := by simpa using List.find?_some hfind
    have hlt : b < sb.size := by simpa using List.mem_of_find?_eq_some hfind
    have hlo := h.le_of_unused hfree
    have hpos := h.pos
    refine .bind (.set (.bind (logWrite_spec hlo hlt (.pure (.inr ⟨?_, hlt, hfree, rfl⟩)))))
    omega

/-! ## `bmap` -/

/-- The place that `ip->addrs[n]` is. -/
def addrPlace (n : ℕ) : BlockPlace := if n < NDIRECT then .data n else .indirect

section

variable (h : Working sb ip s)

include h

lemma Working.view_alloc : (s.view ip ip).type ≠ .free := by simpa using h.alloc

lemma Working.own_addrPlace {n : ℕ} (hn : n ≤ NDIRECT) :
    s.own ip (ip, addrPlace n) = (s.inode ip).din.addrs n := by
  rw [State.own, owner_of_alloc h.view_alloc, State.view_self, addrPlace]
  split_ifs with hlt
  · exact if_pos hlt
  · rw [show n = NDIRECT by omega]
    rfl

/-- The state after a free block has been allocated for `ip->addrs[n]`. -/
def State.setAddr (s : State) (ip n b : ℕ) : State where
  dinode := s.dinode
  bit := update s.bit b true
  block := update s.block b 0
  inode := update s.inode ip
    ((s.inode ip).setAddrs (update (s.inode ip).din.addrs n b))

lemma Working.own_setAddr {n b : ℕ} (hn : n ≤ NDIRECT) (hnone : (s.inode ip).din.addrs n = 0)
    (hb : s.bit b = false) : (s.setAddr ip n b).own ip = update (s.own ip) (ip, addrPlace n) b := by
  have hview : (s.setAddr ip n b).view ip = update (s.view ip) ip { s.view ip ip with
      addrs := update (s.view ip ip).addrs n b } := by
    simp [State.setAddr, State.view, Inode.setAddrs]
  have hne : ∀ j, owner (s.view ip) s.block (j, .indirect) ≠ b := fun j => h.owned.own_ne hb _
  rw [State.own, hview, addrPlace]
  split_ifs with hlt
  · rw [owner_setDirect h.view_alloc hlt]
    change update (owner _ (update s.block b 0)) _ _ = _
    rw [owner_update_block hne, State.own]
  · obtain rfl : n = NDIRECT := by omega
    exact owner_setIndirect h.view_alloc (by simpa using hnone) hne

/-- `ip->addrs[n]` is returned, or a free block is recorded there and returned. -/
theorem loadAddr_spec {n : ℕ} (hn : n ≤ NDIRECT) :
    Wp (loadAddr sb ip n) E s fun addr s' => Working sb ip s' ∧ Grown ip s s' ∧
      s'.own ip (ip, addrPlace n) = addr ∧ (s.own ip (ip, addrPlace n) ≠ 0 → s' = s) := by
  unfold loadAddr
  refine .bind (.get ?_)
  have hown := h.own_addrPlace hn
  refine .ite (fun hne => .pure ⟨h, .refl ip s, hown, fun _ => rfl⟩) fun heq => ?_
  have hzero : (s.inode ip).din.addrs n = 0 := by simpa using heq
  refine .bind ((balloc_spec h.owned).mono ?_)
  rintro b s₁ (⟨rfl, rfl⟩ | ⟨hb0, hlt, hb, rfl⟩)
  · exact .ite (fun _ => .pure ⟨h, .refl ip s₁, by rw [hown, hzero], fun _ => rfl⟩)
      fun hn => absurd rfl hn
  refine .ite (fun hb => absurd hb hb0) fun _ => .bind (.modify (.pure ?_))
  change Working sb ip (s.setAddr ip n b) ∧ Grown ip s (s.setAddr ip n b) ∧ _ ∧ _
  have hsetown := h.own_setAddr hn hzero hb
  have hclaim : Working sb ip (s.setAddr ip n b) ∧ Grown ip s (s.setAddr ip n b) :=
    h.claim hb hlt (hown.trans hzero) rfl (fun j hj => by simp [State.setAddr, hj])
      ⟨_, update_self ..⟩ rfl hsetown fun c hc _ => by simp [State.setAddr, hc]
  refine ⟨hclaim.1, hclaim.2, ?_, fun hne => absurd (hown.trans hzero) hne⟩
  change (s.setAddr ip n b).own ip (ip, addrPlace n) = b
  rw [hsetown, update_self]

/-- The state after a free block has been allocated for entry `k` of the indirect block `a`. -/
def State.setEntry (s : State) (a k b : ℕ) : State := { s with
  bit := update s.bit b true
  block := update (update s.block b 0) a
    (setWord (s.block a) k (BitVec.ofNat 32 b)) }

lemma Working.own_setEntry {a k b : ℕ} (ha : s.own ip (ip, .indirect) = a) (hne : a ≠ 0)
    (hk : k < NINDIRECT) (hb : s.bit b = false) (hlt : b < sb.size) :
    (s.setEntry a k b).own ip = update (s.own ip) (ip, .data (NDIRECT + k)) b := by
  have hunused : ∀ j, owner (s.view ip) s.block (j, .indirect) ≠ b :=
    fun j => h.owned.own_ne hb _
  have hother : ∀ j, j ≠ ip → owner (s.view ip) s.block (j, .indirect) ≠ a := by
    rintro j hj rfl
    have hplace := h.owned.inj hne ha.symm
    exact hj (congrArg Prod.fst hplace)
  have hblock : update (update s.block b 0) a
      (setWord (s.block a) k (BitVec.ofNat 32 b)) =
      update (update s.block a (setWord (s.block a) k (BitVec.ofNat 32 b))) b 0 := by
    refine update_comm ?_ ..
    rintro rfl
    exact hunused ip ha
  have hentry := owner_setEntry ha hne hother hk (hlt.trans sb.size_lt)
  change owner (s.view ip) (update (update s.block b 0) a _) = _
  rw [hblock, owner_update_block, hentry, State.own]
  intro j
  rw [hentry, update_of_ne (by simp)]
  exact hunused j

lemma Working.own_entry {k : ℕ} (hk : k < NINDIRECT) :
    s.own ip (ip, .data (NDIRECT + k)) = if s.own ip (ip, .indirect) = 0 then 0
      else (getWord (s.block (s.own ip (ip, .indirect))) k).toNat := by
  have hlt : NDIRECT + k < MAXFILE := by
    simp only [MAXFILE]
    omega
  rw [State.own, owner_of_alloc h.view_alloc, owner_of_alloc h.view_alloc]
  simp [Dinode.addrOf, hlt, ite_not]

/-- `bmap` returns the block of the file, after it has added a free block if there was none and the
disk is not full. -/
theorem bmap_spec {bn : ℕ} (hbn : bn < MAXFILE) :
    Wp (bmap sb ip bn) E s fun addr s' => Working sb ip s' ∧ Grown ip s s' ∧
      s'.own ip (ip, .data bn) = addr ∧ (s.own ip (ip, .data bn) ≠ 0 → s' = s) := by
  unfold bmap
  refine .ite (fun hdirect => ?_) fun hindirect => ?_
  · have hspec := loadAddr_spec (E := E) h (show bn ≤ NDIRECT by omega)
    rwa [show addrPlace bn = .data bn from if_pos hdirect] at hspec
  obtain ⟨k, rfl⟩ := Nat.exists_eq_add_of_le (show NDIRECT ≤ bn by omega)
  have hk : k < NINDIRECT := by
    simp only [MAXFILE] at hbn
    omega
  rw [Nat.add_sub_cancel_left]
  refine .ite (fun _ => .bind ((loadAddr_spec h le_rfl).mono ?_)) fun hge => absurd hk hge
  rw [show addrPlace NDIRECT = .indirect from if_neg (lt_irrefl _)]
  rintro addr s₁ ⟨hwork, hgrown, haddr, hload⟩
  -- a block that is there already has been found without a change
  have hsame : s.own ip (ip, .data (NDIRECT + k)) ≠ 0 → s₁ = s := fun hne => hload fun hzero =>
    hne (by rw [h.own_entry hk, if_pos hzero])
  have hentry := hwork.own_entry hk
  rw [haddr] at hentry
  refine .ite (fun hzero => .pure ⟨hwork, hgrown, ?_, hsame⟩) fun hne => ?_
  · rw [hentry, if_pos hzero]
  rw [if_neg hne] at hentry
  have hrange := hwork.range (show s₁.own ip (ip, .indirect) ≠ 0 by rwa [haddr])
  rw [haddr] at hrange
  refine .bind (bread_spec hrange.1 hrange.2 ?_)
  refine .ite (fun _ => .pure ⟨hwork, hgrown, hentry, hsame⟩) fun hword => ?_
  have hnone : s₁.own ip (ip, .data (NDIRECT + k)) = 0 := by
    rw [hentry]
    simpa using hword
  refine .bind ((balloc_spec hwork.owned).mono ?_)
  rintro b s₂ (⟨rfl, rfl⟩ | ⟨hb0, hlt, hb, rfl⟩)
  · exact .ite (fun _ => .pure ⟨hwork, hgrown, hnone, hsame⟩) fun hn => absurd rfl hn
  refine .ite (fun hb => absurd hb hb0) fun _ => .bind (logWrite_spec hrange.1 hrange.2 (.pure ?_))
  change Working sb ip (s₁.setEntry addr k b) ∧ Grown ip s (s₁.setEntry addr k b) ∧ _ ∧ _
  have hsetown := hwork.own_setEntry haddr hne hk hb hlt
  have hclaim : Working sb ip (s₁.setEntry addr k b) ∧ Grown ip s₁ (s₁.setEntry addr k b) := by
    refine hwork.claim hb hlt hnone rfl (fun _ _ => rfl) ⟨_, rfl⟩ rfl hsetown fun c hc hind => ?_
    have hca : c ≠ addr := fun heq => hind ip (haddr.trans heq.symm)
    simp [State.setEntry, hc, hca]
  refine ⟨hclaim.1, hgrown.trans hclaim.2, ?_, fun hne => ?_⟩
  · change (s₁.setEntry addr k b).own ip _ = b
    rw [hsetown, update_self]
  · rw [← hsame hne] at hne
    exact absurd hnone hne

end

end Working

end Xv6.Fs
