import Xv6.Fs.Ownership

/-!
# Truncation

`itrunc` gives back all blocks of an inode, each of them once, and touches no other inode.
-/

namespace Xv6.Fs

open Function State

open Log (getWord)

/-- Only the block addresses of `ip` in memory and the bitmap have changed. -/
structure Trimmed (ip : ℕ) (s s' : State) : Prop where
  dinode : s'.dinode = s.dinode
  block : s'.block = s.block
  other : ∀ j, j ≠ ip → s'.inode j = s.inode j
  same : ∃ addrs, s'.inode ip = (s.inode ip).setAddrs addrs

section Truncate

variable {sb : Superblock} {ip : ℕ} {s s' : State} {E : Fault → Prop}

lemma Trimmed.own_of_ne (h : Trimmed ip s s') {j : ℕ} (hj : j ≠ ip) (p : BlockPlace) :
    s'.own ip (j, p) = s.own ip (j, p) := by
  refine owner_congr ?_ (fun _ => by rw [h.block]) p
  rw [view_of_ne _ hj, view_of_ne _ hj, h.dinode]

lemma bfree_spec {b : ℕ} {Q : Unit → State → Prop} (hb : s.bit b = true)
    (h : Q () { s with bit := update s.bit b false }) : Wp (bfree b) E s Q := by
  unfold bfree
  exact .bind (.get (.ite (fun _ => .set h) fun hn => absurd hb hn))

/-- The state after a direct block has been freed. -/
def State.dropDirect (s : State) (ip n : ℕ) : State := { s with
  bit := update s.bit ((s.inode ip).din.addrs n) false
  inode := update s.inode ip
    ((s.inode ip).setAddrs (update (s.inode ip).din.addrs n 0)) }

lemma State.dropDirect_inode_self (s : State) (ip n : ℕ) : (s.dropDirect ip n).inode ip =
    (s.inode ip).setAddrs (update (s.inode ip).din.addrs n 0) :=
  update_self ..

lemma Working.own_data (h : Working sb ip s) {n : ℕ} (hn : n < NDIRECT) :
    s.own ip (ip, .data n) = (s.inode ip).din.addrs n := by
  have hplace := h.own_addrPlace hn.le
  rwa [show addrPlace n = .data n from if_pos hn] at hplace

lemma Working.dropDirect (h : Working sb ip s) {n : ℕ} (hn : n < NDIRECT)
    (hne : (s.inode ip).din.addrs n ≠ 0) : Working sb ip (s.dropDirect ip n) := by
  have hview : (s.dropDirect ip n).view ip = update (s.view ip) ip { s.view ip ip with
      addrs := update (s.view ip ip).addrs n 0 } := by
    simp [State.dropDirect, State.view, Inode.setAddrs]
  have hown := h.own_data hn
  refine ⟨?_, by simpa [State.dropDirect, Inode.setAddrs] using h.alloc⟩
  rw [hview, Owned, owner_setDirect h.view_alloc hn]
  have hrelease := h.owned.release (k := (ip, .data n)) (by
    change s.own ip (ip, .data n) ≠ 0
    rwa [hown])
  change AllocationMap.Exact _ _ _ (update s.bit (s.own ip (ip, .data n)) false) at hrelease
  rwa [hown] at hrelease

lemma freeDirect_spec (h : Working sb ip s) :
    Wp (freeDirect ip) E s fun _ s' => Working sb ip s' ∧ Trimmed ip s s' ∧
      ∀ n, (s'.inode ip).din.addrs n = if n < NDIRECT then 0 else (s.inode ip).din.addrs n := by
  refine Wp.forM_range (I := fun i s' => Working sb ip s' ∧ Trimmed ip s s' ∧
    ∀ n, (s'.inode ip).din.addrs n = if n < i then 0 else (s.inode ip).din.addrs n) ?_ ?_
  · exact ⟨h, ⟨rfl, rfl, fun _ _ => rfl, ⟨_, rfl⟩⟩, fun n => by simp⟩
  rintro i s₁ hi ⟨hwork, htrim, haddrs⟩
  refine .bind (.get (.ite (fun hne => ?_) fun heq => ?_))
  · have hbit : s₁.bit ((s₁.inode ip).din.addrs i) = true := by
      have hown := hwork.own_data hi
      rw [← hown] at hne ⊢
      exact hwork.owned.used_own hne
    refine .bind (bfree_spec hbit (.modify ?_))
    change Working sb ip (s₁.dropDirect ip i) ∧ Trimmed ip s (s₁.dropDirect ip i) ∧ _
    refine ⟨hwork.dropDirect hi hne, ⟨htrim.dinode, htrim.block, fun j hj => ?_, ?_⟩, fun n => ?_⟩
    · simpa [State.dropDirect, hj] using htrim.other j hj
    · obtain ⟨a, ha⟩ := htrim.same
      exact ⟨_, by rw [dropDirect_inode_self, ha, Inode.setAddrs_setAddrs]⟩
    · by_cases hn : n = i
      · simp [hn]
      · have : n < i + 1 ↔ n < i := by omega
        simp [hn, haddrs n, this]
  · -- there is no block
    refine .pure ⟨hwork, htrim, fun n => ?_⟩
    by_cases hn : n = i
    · simpa [hn] using heq
    · have : n < i + 1 ↔ n < i := by omega
      simp [haddrs n, this]

/-! ## The indirect block -/

/-- The places that refer to a block after the first `i` entries of the indirect block of `ip` have
been freed. -/
def dropEntries (own : ℕ × BlockPlace → ℕ) (ip i : ℕ) (k : ℕ × BlockPlace) : ℕ :=
  if k.1 = ip ∧ ∃ j < i, k.2 = .data (NDIRECT + j) then 0 else own k

lemma dropEntries_succ (own : ℕ × BlockPlace → ℕ) (ip i : ℕ) :
    dropEntries own ip (i + 1) =
      update (dropEntries own ip i) (ip, .data (NDIRECT + i)) 0 := by
  funext ⟨j, p⟩
  by_cases hp : (j, p) = (ip, .data (NDIRECT + i))
  · rw [hp, update_self]
    exact if_pos ⟨rfl, i, by omega, rfl⟩
  · rw [update_of_ne hp, dropEntries, dropEntries]
    congr 1
    refine propext (and_congr_right fun hj => ⟨?_, ?_⟩)
    · rintro ⟨m, hm, hpm⟩
      refine ⟨m, ?_, hpm⟩
      have hne : m ≠ i := by
        rintro rfl
        exact hp (Prod.ext hj hpm)
      omega
    · rintro ⟨m, hm, hpm⟩
      exact ⟨m, by omega, hpm⟩

lemma freeEntries_spec (ip : ℕ) {own : ℕ × BlockPlace → ℕ} {a : Block}
    (h : AllocationMap.Exact sb.datastart sb.size own s.bit)
    (ha : ∀ j < NINDIRECT, own (ip, .data (NDIRECT + j)) = (getWord a j).toNat) :
    Wp (freeEntries a) E s fun _ s' =>
      AllocationMap.Exact sb.datastart sb.size (dropEntries own ip NINDIRECT) s'.bit ∧
        ∃ bit, s' = { s with bit := bit } := by
  refine Wp.forM_range (I := fun i s' =>
    AllocationMap.Exact sb.datastart sb.size (dropEntries own ip i) s'.bit ∧
      ∃ bit, s' = { s with bit := bit }) ?_ ?_
  · have hzero : dropEntries own ip 0 = own := by
      funext k
      simp [dropEntries]
    exact ⟨by rwa [hzero], s.bit, rfl⟩
  rintro i s₁ hi ⟨hexact, bit, rfl⟩
  have hentry : dropEntries own ip i (ip, .data (NDIRECT + i)) = (getWord a i).toNat := by
    rw [dropEntries, if_neg, ha i hi]
    rintro ⟨-, j, hj, hne⟩
    simp only [BlockPlace.data.injEq] at hne
    omega
  rw [dropEntries_succ]
  refine .ite (fun hne => ?_) fun heq => ?_
  · rw [← hentry] at hne ⊢
    exact bfree_spec (hexact.used_own hne) ⟨hexact.release hne, _, rfl⟩
  · have hzero : dropEntries own ip i (ip, .data (NDIRECT + i)) = 0 := by
      rw [hentry]
      simpa using heq
    refine .pure ⟨?_, bit, rfl⟩
    rwa [← hzero, update_eq_self]

lemma Working.own_dropIndirect (h : Working sb ip s) (htrim : Trimmed ip s s')
    (haddrs : (s'.inode ip).din.addrs = update (s.inode ip).din.addrs NDIRECT 0) :
    s'.own ip = update (dropEntries (s.own ip) ip NINDIRECT) (ip, .indirect) 0 := by
  have halloc' : (s'.view ip ip).type ≠ .free := by
    obtain ⟨a, ha⟩ := htrim.same
    rw [view_self, ha]
    exact h.alloc
  funext ⟨j, p⟩
  by_cases hj : j = ip
  · subst hj
    rw [own, owner_of_alloc halloc', view_self]
    cases p with
    | indirect => simp [Dinode.addrOf, haddrs]
    | data n =>
      rw [update_of_ne (by simp), dropEntries]
      by_cases hn : n < NDIRECT
      · have hother : ¬ ∃ m < NINDIRECT, BlockPlace.data n = .data (NDIRECT + m) := by
          rintro ⟨m, -, hm⟩
          simp only [BlockPlace.data.injEq] at hm
          omega
        rw [if_neg fun hentry => hother hentry.2, own, owner_of_alloc h.view_alloc, view_self]
        simp [Dinode.addrOf, hn, haddrs, update_of_ne (show n ≠ NDIRECT by omega)]
      · simp only [Dinode.addrOf, hn, haddrs, update_self, ne_eq, not_true_eq_false,
          and_false, if_false]
        -- an entry that was freed, or a number that no block has
        split_ifs with hentry
        · rfl
        · have hmax : ¬ n < MAXFILE := by
            intro hlt
            refine hentry ⟨trivial, n - NDIRECT, ?_, ?_⟩
            · simp only [MAXFILE] at hlt
              omega
            · rw [Nat.add_sub_cancel' (by omega)]
          rw [own, owner_of_alloc h.view_alloc]
          simp [Dinode.addrOf, hn, hmax]
  · rw [htrim.own_of_ne hj, update_of_ne (by simp [hj]), dropEntries, if_neg (by simp [hj])]

/-- The state after the indirect block has been freed. -/
def State.dropIndirect (s : State) (ip : ℕ) (bit : ℕ → Bool) : State := { s with
  bit := bit
  inode := update s.inode ip
    ((s.inode ip).setAddrs (update (s.inode ip).din.addrs NDIRECT 0)) }

lemma trimmed_dropIndirect (s : State) (ip : ℕ) (bit : ℕ → Bool) :
    Trimmed ip s (s.dropIndirect ip bit) :=
  ⟨rfl, rfl, fun _ hj => update_of_ne hj .., ⟨_, update_self ..⟩⟩

lemma freeIndirect_spec (h : Working sb ip s) :
    Wp (freeIndirect sb ip) E s fun _ s' => Working sb ip s' ∧ Trimmed ip s s' ∧
      (s'.inode ip).din.addrs = update (s.inode ip).din.addrs NDIRECT 0 := by
  have hown : s.own ip (ip, .indirect) = (s.inode ip).din.addrs NDIRECT := by
    have hplace := h.own_addrPlace le_rfl
    rwa [show addrPlace NDIRECT = .indirect from if_neg (lt_irrefl _)] at hplace
  unfold freeIndirect
  refine .bind (.get (.ite (fun hne => ?_) fun heq => ?_))
  · rw [← hown] at hne ⊢
    have hrange := h.range hne
    refine .bind (bread_spec hrange.1 hrange.2 (.bind ((freeEntries_spec ip h.owned
      fun j hj => ?_).mono ?_)))
    · change s.own ip _ = _
      rw [h.own_entry hj, if_neg hne]
    rintro _ s₁ ⟨hexact, bit, rfl⟩
    have hsame : dropEntries (s.own ip) ip NINDIRECT (ip, .indirect) = s.own ip (ip, .indirect) :=
      if_neg (by simp)
    have hne' : dropEntries (s.own ip) ip NINDIRECT (ip, .indirect) ≠ 0 := by rwa [hsame]
    have hused := hexact.used_own hne'
    have hrelease := hexact.release hne'
    change bit (dropEntries (s.own ip) ip NINDIRECT (ip, .indirect)) = true at hused
    change AllocationMap.Exact _ _
      (update (dropEntries (s.own ip) ip NINDIRECT) (ip, .indirect) 0)
      (update bit (dropEntries (s.own ip) ip NINDIRECT (ip, .indirect)) false) at hrelease
    rw [hsame] at hused hrelease
    refine .bind (bfree_spec hused (.modify ?_))
    have htrim := trimmed_dropIndirect s ip (update bit (s.own ip (ip, .indirect)) false)
    have haddrs : ((s.dropIndirect ip (update bit (s.own ip (ip, .indirect)) false)).inode
        ip).din.addrs = update (s.inode ip).din.addrs NDIRECT 0 := by
      simp [dropIndirect, Inode.setAddrs]
    rw [← h.own_dropIndirect htrim haddrs] at hrelease
    exact ⟨⟨hrelease, by simpa using h.alloc⟩, htrim, haddrs⟩
  · refine .pure ⟨h, ⟨rfl, rfl, fun _ _ => rfl, ⟨_, rfl⟩⟩, ?_⟩
    have hzero : (s.inode ip).din.addrs NDIRECT = 0 := by simpa using heq
    rw [← hzero, update_eq_self]

/-! ## `itrunc` -/

/-- The inode has lost its blocks, in memory and on disk. -/
structure Truncated (ip : ℕ) (s s' : State) : Prop where
  block : s'.block = s.block
  other : ∀ j, j ≠ ip → s'.inode j = s.inode j
  dinode : s'.dinode = update s.dinode ip (s'.inode ip).din
  same : ∃ addrs, (∀ n ≤ NDIRECT, addrs n = 0) ∧ s'.inode ip = { s.inode ip with
    din := { (s.inode ip).din with size := 0, addrs := addrs } }

/-- The state with another size of the inode in memory. -/
def State.setSize (s : State) (ip size : ℕ) : State := { s with
  inode := update s.inode ip { s.inode ip with
    din := { (s.inode ip).din with size := size } } }

lemma State.own_setSize (s : State) (ip size : ℕ) : (s.setSize ip size).own ip = s.own ip := by
  funext ⟨j, p⟩
  by_cases hj : j = ip
  · subst hj
    simp only [own, owner, view_self, State.setSize, update_self]
    cases p <;> rfl
  · refine owner_congr ?_ (fun _ => rfl) p
    rw [view_of_ne _ hj, view_of_ne _ hj]
    rfl

lemma Working.setSize (h : Working sb ip s) (size : ℕ) : Working sb ip (s.setSize ip size) := by
  refine ⟨?_, by simpa [State.setSize] using h.alloc⟩
  change AllocationMap.Exact _ _ ((s.setSize ip size).own ip) s.bit
  rw [own_setSize]
  exact h.owned

/-- The state after `iupdate`. -/
def State.updated (s : State) (ip : ℕ) : State :=
  { s with dinode := update s.dinode ip (s.inode ip).din }

lemma State.view_updated (s : State) (ip : ℕ) : (s.updated ip).view ip = (s.updated ip).dinode :=
  update_idem ..

lemma State.own_updated (s : State) (ip : ℕ) : (s.updated ip).own ip = s.own ip := by
  rw [own, view_updated]
  rfl

lemma Working.updated (h : Working sb ip s) : Working sb ip (s.updated ip) := by
  refine ⟨?_, h.alloc⟩
  change AllocationMap.Exact _ _ ((s.updated ip).own ip) s.bit
  rw [own_updated]
  exact h.owned

lemma itrunc_spec (h : Working sb ip s) :
    Wp (itrunc sb ip) E s fun _ s' => Working sb ip s' ∧ Truncated ip s s' := by
  unfold itrunc
  refine .bind ((freeDirect_spec h).mono ?_)
  rintro _ s₁ ⟨hwork₁, htrim₁, haddrs₁⟩
  refine .bind ((freeIndirect_spec hwork₁).mono ?_)
  rintro _ s₂ ⟨hwork₂, htrim₂, haddrs₂⟩
  refine .bind (.modify (.modify ⟨(hwork₂.setSize 0).updated, ?_⟩))
  obtain ⟨a₁, ha₁⟩ := htrim₁.same
  obtain ⟨a₂, ha₂⟩ := htrim₂.same
  refine ⟨htrim₂.block.trans htrim₁.block, fun j hj => ?_, ?_, a₂, fun n hn => ?_, ?_⟩
  · change update s₂.inode ip _ j = _
    rw [update_of_ne hj, htrim₂.other j hj, htrim₁.other j hj]
  · change update s₂.dinode ip _ = _
    rw [htrim₂.dinode, htrim₁.dinode]
  · have ha : (s₂.inode ip).din.addrs = a₂ := by rw [ha₂]; rfl
    rw [← ha, haddrs₂]
    by_cases hn' : n = NDIRECT
    · rw [hn', update_self]
    · rw [update_of_ne hn', haddrs₁, if_pos (by omega)]
  · change update s₂.inode ip _ ip = _
    rw [update_self, ha₂, ha₁]
    rfl

end Truncate

end Xv6.Fs
