import Xv6.Fs.Truncate

/-!
# The contents of inodes

`readi` returns the bytes of an inode as its blocks have them, and `writei` replaces the bytes it
reports as written and no others.
-/

namespace Xv6.Fs

open Function List Nat

/-! ## Bytes of a block -/

lemma byteAt_writeBytes (b : Block) {off j : ℕ} (bytes : List UInt8) (hj : j < BSIZE) :
    byteAt (writeBytes b off bytes) j =
      if off ≤ j ∧ j < off + bytes.length then bytes.getD (j - off) 0 else byteAt b j := by
  simp only [byteAt, hj, dif_pos, writeBytes]
  by_cases hoff : off ≤ j
  · by_cases hlen : j < off + bytes.length
    · rw [if_pos hoff, if_pos ⟨hoff, hlen⟩, getD_eq_getElem _ _ (by omega),
        getD_eq_getElem _ _ (by omega)]
    · rw [if_pos hoff, if_neg (fun h => hlen h.2), getD_eq_default _ _ (by omega)]
  · rw [if_neg hoff, if_neg fun h => hoff h.1]

lemma div_mod_of_lt {off i : ℕ} (hi : i < BSIZE - off % BSIZE) :
    (off + i) / BSIZE = off / BSIZE ∧ (off + i) % BSIZE = off % BSIZE + i := by
  have hdiv := div_add_mod off BSIZE
  have heq : off + i = BSIZE * (off / BSIZE) + (off % BSIZE + i) := by omega
  have hlt : off % BSIZE + i < BSIZE := by omega
  constructor
  · rw [heq, Nat.mul_add_div (by decide), Nat.div_eq_of_lt hlt, Nat.add_zero]
  · rw [heq, mul_add_mod, mod_eq_of_lt hlt]

/-- The byte of an inode at an offset, with the inode `ip` taken from memory. -/
def State.byte (s : State) (ip i o : ℕ) : UInt8 :=
  byteAt (s.block (s.own ip (i, .data (o / BSIZE)))) (o % BSIZE)

section Content

variable {sb : Superblock} {ip : ℕ} {s s' : State} {E : Fault → Prop}

lemma Working.lt_maxfile (h : Working sb ip s) {n : ℕ} (hn : s.own ip (ip, .data n) ≠ 0) :
    n < MAXFILE := by
  by_contra hge
  have hdirect : ¬ n < NDIRECT := by
    simp only [MAXFILE] at hge
    omega
  rw [State.own, owner_of_alloc h.view_alloc] at hn
  simp [Dinode.addrOf, hge, hdirect] at hn

/-! ## `readi` -/

lemma readBytes_eq {off m : ℕ} (hm : m ≤ BSIZE - off % BSIZE) :
    readBytes (s.block (s.own ip (ip, .data (off / BSIZE)))) (off % BSIZE) m =
      (List.range m).map fun i => s.byte ip ip (off + i) := by
  refine map_congr_left fun i hi => ?_
  rw [mem_range] at hi
  obtain ⟨hdiv, hmod⟩ := div_mod_of_lt (show i < BSIZE - off % BSIZE by omega)
  rw [State.byte, hdiv, hmod]

lemma readLoop_spec (h : Working sb ip s) {off n : ℕ}
    (hmapped : ∀ k, k * BSIZE < off + n → s.own ip (ip, .data k) ≠ 0) :
    ∀ fuel tot, tot ≤ n → n - tot ≤ fuel →
      Wp (readLoop sb ip n fuel (off + tot) ((List.range tot).map fun i => s.byte ip ip (off + i)))
        E s fun bytes s' => s' = s ∧
          bytes = (List.range n).map fun i => s.byte ip ip (off + i) := by
  intro fuel
  induction fuel with
  | zero =>
    intro tot htot hfuel
    obtain rfl : tot = n := by omega
    exact .pure ⟨rfl, rfl⟩
  | succ fuel ih =>
    intro tot htot hfuel
    unfold readLoop
    refine .ite (fun hlt => ?_) fun hge => ?_
    · have hlen : ((List.range tot).map fun i => s.byte ip ip (off + i)).length = tot := by simp
      rw [hlen] at hlt ⊢
      have hblock := hmapped ((off + tot) / BSIZE) (by
        have := div_mul_le_self (off + tot) BSIZE
        omega)
      refine .bind ((bmap_spec h (h.lt_maxfile hblock)).mono ?_)
      rintro addr s₁ ⟨-, -, haddr, hsame⟩
      obtain rfl := hsame hblock
      have hrange := h.range hblock
      rw [haddr] at hblock hrange
      refine .ite (fun hzero => absurd hzero hblock) fun _ =>
        .bind (bread_spec hrange.1 hrange.2 ?_)
      -- at least one more byte
      have hmod := mod_lt (off + tot) (show 0 < BSIZE by decide)
      dsimp only
      rw [← haddr, readBytes_eq (min_le_right _ _)]
      have hrange : (List.range tot).map (fun i => s₁.byte ip ip (off + i)) ++
          (List.range (min (n - tot) (BSIZE - (off + tot) % BSIZE))).map
            (fun i => s₁.byte ip ip (off + tot + i)) =
          (List.range (tot + min (n - tot) (BSIZE - (off + tot) % BSIZE))).map
            fun i => s₁.byte ip ip (off + i) := by
        rw [range_add, map_append, map_map]
        congr 2
        funext i
        simp [Nat.add_assoc]
      rw [hrange, Nat.add_assoc]
      exact ih _ (by omega) (by omega)
    · obtain rfl : tot = n := by
        simp at hge
        omega
      exact .pure ⟨rfl, rfl⟩

/-! ## `writei` -/

/-- The state `s` in the loop of `writei`, which was at `off₀` in the state `s₀` and is at `off`. -/
structure Writing (sb : Superblock) (ip : ℕ) (src : Source) (n off₀ : ℕ) (s₀ s : State)
    (off : ℕ) : Prop where
  work : Working sb ip s
  dinode : s.dinode = s₀.dinode
  other : ∀ j, j ≠ ip → s.inode j = s₀.inode j
  same : ∃ addrs, s.inode ip = (s₀.inode ip).setAddrs addrs
  only : ∀ k, k.1 ≠ ip → s.own ip k = s₀.own ip k
  /-- The blocks up to the size and up to `off` are there. -/
  mapped : ∀ k, k * BSIZE < max (s₀.inode ip).din.size off → s.own ip (ip, .data k) ≠ 0
  /-- The data blocks of the other inodes are as before. -/
  block : ∀ i k, i ≠ ip → s₀.own ip (i, .data k) ≠ 0 →
    s.block (s₀.own ip (i, .data k)) = s₀.block (s₀.own ip (i, .data k))
  /-- From a kernel address, exactly the bytes from `off₀` to `off` are written. -/
  bytes : ∀ data, src = kernelSource data → data.length = n →
    ∀ o < max (s₀.inode ip).din.size off, s.byte ip ip o =
      if off₀ ≤ o ∧ o < off then data.getD (o - off₀) 0 else s₀.byte ip ip o

variable {src : Source} {n off₀ off : ℕ} {s₀ : State}

lemma Writing.start (h : Working sb ip s) (hoff : off ≤ (s.inode ip).din.size)
    (hmapped : ∀ k, k * BSIZE < (s.inode ip).din.size → s.own ip (ip, .data k) ≠ 0) :
    Writing sb ip src n off s s off := by
  refine ⟨h, rfl, fun _ _ => rfl, ⟨_, rfl⟩, fun _ _ => rfl, fun k hk => ?_, fun _ _ _ _ => rfl,
    fun _ _ _ o _ => ?_⟩
  · rw [max_eq_left hoff] at hk
    exact hmapped k hk
  · rw [if_neg (by omega)]

lemma Writing.grown (h : Writing sb ip src n off₀ s₀ s off) (hwork : Working sb ip s')
    (hgrown : Grown ip s s') : Writing sb ip src n off₀ s₀ s' off := by
  refine ⟨hwork, hgrown.dinode.trans h.dinode, fun j hj => (hgrown.other j hj).trans (h.other j hj),
    ?_, fun k hk => (hgrown.only k hk).trans (h.only k hk), fun k hk => ?_, fun i k hi hk => ?_,
    fun data hsrc hlen o ho => ?_⟩
  · obtain ⟨a, ha⟩ := h.same
    obtain ⟨a', ha'⟩ := hgrown.same
    exact ⟨a', by rw [ha', ha, Inode.setAddrs_setAddrs]⟩
  · have hne := h.mapped k hk
    rwa [hgrown.keeps _ hne]
  · have honly := h.only (i, .data k) hi
    have hcontent := hgrown.content i k (by rwa [honly])
    rw [honly] at hcontent
    rw [hcontent, h.block i k hi hk]
  · have hne := h.mapped (o / BSIZE) (lt_of_le_of_lt (div_mul_le_self o BSIZE) ho)
    rw [← h.bytes data hsrc hlen o ho, State.byte, hgrown.keeps _ hne, hgrown.content _ _ hne,
      State.byte]

lemma Working.own_store (h : Working sb ip s) {k : ℕ} (hk : s.own ip (ip, .data k) ≠ 0)
    (x : Block) :
    State.own { s with block := update s.block (s.own ip (ip, .data k)) x } ip =
      s.own ip := by
  refine owner_update_block (fun j hj => ?_) x
  have hplace := h.inj hk hj.symm
  cases hplace

/-- The state after bytes have been written to the data block that has the offset `off`. -/
def State.store (s : State) (ip off : ℕ) (bytes : List UInt8) : State := { s with
  block := update s.block (s.own ip (ip, .data (off / BSIZE)))
    (writeBytes (s.block (s.own ip (ip, .data (off / BSIZE)))) (off % BSIZE) bytes) }

lemma Working.byte_store (h : Working sb ip s) (hk : s.own ip (ip, .data (off / BSIZE)) ≠ 0)
    {bytes : List UInt8} (hlen : bytes.length ≤ BSIZE - off % BSIZE) (o : ℕ) :
    (s.store ip off bytes).byte ip ip o =
      if off ≤ o ∧ o < off + bytes.length then bytes.getD (o - off) 0 else s.byte ip ip o := by
  have hown : (s.store ip off bytes).own ip = s.own ip := h.own_store hk _
  rw [State.byte, hown]
  by_cases hdiv : o / BSIZE = off / BSIZE
  · -- the block that is written
    have ho := div_add_mod o BSIZE
    have hoff := div_add_mod off BSIZE
    rw [hdiv] at ho ⊢
    simp only [State.store, update_self]
    rw [byteAt_writeBytes _ _ (mod_lt _ (by decide)), State.byte, hdiv]
    have hcond : (off % BSIZE ≤ o % BSIZE ∧ o % BSIZE < off % BSIZE + bytes.length) ↔
        (off ≤ o ∧ o < off + bytes.length) := by omega
    simp only [hcond, show o % BSIZE - off % BSIZE = o - off by omega]
  · have hother : ¬ (off ≤ o ∧ o < off + bytes.length) := by
      rintro ⟨hle, hlt⟩
      obtain ⟨i, rfl⟩ := Nat.exists_eq_add_of_le hle
      exact hdiv (div_mod_of_lt (show i < BSIZE - off % BSIZE by omega)).1
    have hne : s.own ip (ip, .data (o / BSIZE)) ≠ s.own ip (ip, .data (off / BSIZE)) := by
      intro heq
      have hplace := h.inj hk heq.symm
      simp only [Prod.mk.injEq, true_and, BlockPlace.data.injEq] at hplace
      exact hdiv hplace.symm
    rw [if_neg hother, State.byte]
    simp only [State.store, update_of_ne hne]

/-- One turn of the loop: `bytes` have been copied to the block, and the loop is at `off'`. -/
theorem Writing.store (h : Writing sb ip src n off₀ s₀ s off)
    (hk : s.own ip (ip, .data (off / BSIZE)) ≠ 0) {off' : ℕ} {bytes : List UInt8}
    (hoff : off ≤ off') (hoff' : off' - off ≤ BSIZE - off % BSIZE)
    (hbytes : ∀ data, src = kernelSource data → data.length = n →
      off₀ ≤ off ∧ off' ≤ off₀ + n ∧ bytes = (data.drop (off - off₀)).take (off' - off)) :
    Writing sb ip src n off₀ s₀ (s.store ip off bytes) off' := by
  have hown : (s.store ip off bytes).own ip = s.own ip := h.work.own_store hk _
  refine ⟨⟨?_, h.work.alloc⟩, h.dinode, h.other, h.same, fun k hk => ?_, fun k hkm => ?_,
    fun i k hi hne => ?_, fun data hsrc hlen o ho => ?_⟩
  · change AllocationMap.Exact _ _ ((s.store ip off bytes).own ip) s.bit
    rw [hown]
    exact h.work.owned
  · rw [hown]
    exact h.only k hk
  · rw [hown]
    by_cases hlt : k * BSIZE < max (s₀.inode ip).din.size off
    · exact h.mapped k hlt
    · -- the block that was written
      have hkeq : k = off / BSIZE := by
        have hdiv := div_add_mod off BSIZE
        have hpos : 0 < BSIZE := by decide
        refine le_antisymm ?_ ?_
        · by_contra hgt
          have := mul_le_mul_right BSIZE (show off / BSIZE + 1 ≤ k by omega)
          rw [Nat.add_mul, Nat.mul_comm (off / BSIZE)] at this
          omega
        · by_contra hgt
          have := mul_le_mul_right BSIZE (show k + 1 ≤ off / BSIZE by omega)
          rw [Nat.add_mul, Nat.mul_comm (off / BSIZE)] at this
          omega
      rw [hkeq]
      exact hk
  · have honly := h.only (i, .data k) hi
    have hneq : s₀.own ip (i, .data k) ≠ s.own ip (ip, .data (off / BSIZE)) := by
      rw [← honly] at hne ⊢
      intro heq
      have hplace := h.work.inj hne heq
      exact hi (congrArg Prod.fst hplace)
    simp only [State.store, update_of_ne hneq]
    exact h.block i k hi hne
  · obtain ⟨hle, hmax, rfl⟩ := hbytes data hsrc hlen
    have hcount : ((data.drop (off - off₀)).take (off' - off)).length = off' - off := by
      simp only [length_take, length_drop]
      omega
    rw [h.work.byte_store hk (by rw [hcount]; exact hoff'), hcount]
    by_cases hnew : off ≤ o ∧ o < off + (off' - off)
    · rw [if_pos hnew, if_pos (by omega), getD_eq_getElem _ _ (by omega),
        getD_eq_getElem _ _ (by omega), getElem_take, getElem_drop]
      congr 1
      omega
    · rw [if_neg hnew, h.bytes data hsrc hlen o (by omega)]
      congr 1
      simp only [eq_iff_iff]
      omega

lemma writeLoop_spec (hmax : off₀ + n ≤ MAXFILE * BSIZE) :
    ∀ fuel tot s, tot ≤ n → n - tot ≤ fuel → Writing sb ip src n off₀ s₀ s (off₀ + tot) →
      Wp (writeLoop sb ip src n fuel tot (off₀ + tot)) E s fun r s' =>
        r.1 ≤ n ∧ r.2 = off₀ + r.1 ∧ Writing sb ip src n off₀ s₀ s' r.2 := by
  intro fuel
  induction fuel with
  | zero => exact fun tot s htot _ h => .pure ⟨htot, rfl, h⟩
  | succ fuel ih =>
    intro tot s htot hfuel h
    unfold writeLoop
    refine .ite (fun hlt => ?_) fun _ => .pure ⟨htot, rfl, h⟩
    have hbn : (off₀ + tot) / BSIZE < MAXFILE := Nat.div_lt_of_lt_mul (by
      rw [Nat.mul_comm]
      omega)
    refine .bind ((bmap_spec h.work hbn).mono ?_)
    rintro addr s₁ ⟨hwork, hgrown, haddr, -⟩
    have h₁ := h.grown hwork hgrown
    refine .ite (fun _ => .pure ⟨htot, rfl, h₁⟩) fun hne => ?_
    rw [← haddr] at hne ⊢
    have hrange := hwork.range hne
    refine .bind (bread_spec hrange.1 hrange.2 (.bind (logWrite_spec hrange.1 hrange.2 ?_)))
    -- at least one more byte
    have hmod := mod_lt (off₀ + tot) (show 0 < BSIZE by decide)
    generalize hm : min (n - tot) (BSIZE - (off₀ + tot) % BSIZE) = m
    refine .ite (fun _ => ?_) fun hfail => .pure ⟨htot, rfl, ?_⟩
    · rw [Nat.add_assoc]
      refine ih (tot + m) _ (by omega) (by omega) ?_
      rw [← Nat.add_assoc]
      refine h₁.store hne (le_add_right _ _) (by omega) fun data hsrc hlen => ?_
      refine ⟨by omega, by omega, ?_⟩
      rw [hsrc]
      simp only [kernelSource, take_take, Nat.min_self, Nat.add_sub_cancel_left]
    · refine h₁.store hne le_rfl (by omega) fun data hsrc hlen => ?_
      rw [hsrc] at hfail
      exact absurd rfl hfail

end Content

end Xv6.Fs
