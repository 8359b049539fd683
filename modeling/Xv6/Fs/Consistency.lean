import Xv6.Fs.Content

/-!
# Consistent file systems

Between the functions of the inode layer the bitmap is exact, no file has a hole, and the inodes in
memory agree with those on disk (`FsInv`). Each function keeps this, and says what it does to the
contents of the inodes.
-/

namespace Xv6.Fs

open Function List State

/-- The byte of an inode at an offset. -/
def State.fileByte (s : State) (i o : ℕ) : UInt8 :=
  byteAt (s.block (owner s.dinode s.block (i, .data (o / BSIZE)))) (o % BSIZE)

/-- The content of an inode. -/
def State.contents (s : State) (i : ℕ) : List UInt8 :=
  (List.range (s.dinode i).size).map (s.fileByte i)

/-- The caller has a reference to the inode and has locked it. -/
def State.Held (s : State) (ip : ℕ) : Prop := 0 < (s.inode ip).ref ∧ (s.inode ip).valid = true

/-- The file system is consistent. -/
structure FsInv (sb : Superblock) (s : State) : Prop where
  owned : Owned sb s.dinode s.block s.bit
  /-- There are no holes. -/
  mapped : ∀ i, (s.dinode i).type ≠ .free → ∀ k, k * BSIZE < (s.dinode i).size →
    owner s.dinode s.block (i, .data k) ≠ 0
  /-- A valid inode in memory is an allocated one, as it is on disk. -/
  sync : ∀ i, s.Held i → (s.inode i).din = s.dinode i ∧ (s.dinode i).type ≠ .free

section Specs

variable {sb : Superblock} {ip : ℕ} {s s' : State} {E : Fault → Prop}

@[simp]
lemma State.length_contents (s : State) (i : ℕ) : (s.contents i).length = (s.dinode i).size := by
  simp [contents]

namespace FsInv

section

variable (h : FsInv sb s) (hip : s.Held ip)

include h hip

lemma view_eq : s.view ip = s.dinode := by
  rw [view, (h.sync ip hip).1, update_eq_self]

lemma own_eq : s.own ip = owner s.dinode s.block := by
  rw [own, h.view_eq hip]

lemma byte_eq (i o : ℕ) : s.byte ip i o = s.fileByte i o := by
  rw [byte, h.own_eq hip, fileByte]

lemma working : Working sb ip s := by
  obtain ⟨hdin, halloc⟩ := h.sync ip hip
  refine ⟨?_, by rwa [hdin]⟩
  rw [h.view_eq hip]
  exact h.owned

end

lemma size_le (h : FsInv sb s) {i : ℕ} (hi : (s.dinode i).type ≠ .free) :
    (s.dinode i).size ≤ MAXFILE * BSIZE := by
  by_contra hgt
  have hmapped := h.mapped i hi MAXFILE (by omega)
  rw [owner_of_alloc hi] at hmapped
  simp [Dinode.addrOf, MAXFILE] at hmapped

end FsInv

/-! ## `readi` -/

lemma readi_spec (h : FsInv sb s) (hip : s.Held ip) (off n : ℕ) :
    Wp (readi sb ip off n) E s fun bytes s' => s' = s ∧
      bytes = if (s.dinode ip).size < off ∨ (off + n) % 2 ^ 32 < off then []
        else ((s.contents ip).drop off).take n := by
  obtain ⟨hdin, halloc⟩ := h.sync ip hip
  unfold readi
  refine .bind (.get ?_)
  rw [hdin]
  refine .ite (fun hguard => .pure ⟨rfl, (if_pos hguard).symm⟩) fun hguard => ?_
  have hoff : off ≤ (s.dinode ip).size := by omega
  generalize hn' : (if (s.dinode ip).size < off + n then (s.dinode ip).size - off else n) = n'
  have hmin : n' = min n ((s.dinode ip).size - off) := by
    rw [← hn']
    split_ifs <;> omega
  have hmapped : ∀ k, k * BSIZE < off + n' → s.own ip (ip, .data k) ≠ 0 := by
    intro k hk
    rw [h.own_eq hip]
    exact h.mapped ip halloc k (by omega)
  refine (readLoop_spec (h.working hip) hmapped n' 0 (by omega) (by omega)).mono ?_
  rintro bytes s' ⟨rfl, rfl⟩
  refine ⟨rfl, ?_⟩
  rw [if_neg hguard, hmin]
  refine ext_getElem (by simp) fun i h₁ h₂ => ?_
  simp [contents, h.byte_eq hip]

/-! ## `writei` -/

/-- A byte array with some bytes replaced, or appended. -/
def overlay (l : List UInt8) (off : ℕ) (bytes : List UInt8) : List UInt8 :=
  l.take off ++ bytes ++ l.drop (off + bytes.length)

/-- What `writei` does to the inodes if it writes `tot` bytes at `off`. -/
structure Wrote (ip off tot : ℕ) (s s' : State) : Prop where
  inode : ∀ j, j ≠ ip → s'.inode j = s.inode j
  dinode : ∀ j, j ≠ ip → s'.dinode j = s.dinode j
  entry : ∃ addrs, s'.inode ip = { s.inode ip with din := { (s.inode ip).din with
    size := max (s.inode ip).din.size (off + tot), addrs := addrs } }
  contents : ∀ j, j ≠ ip → (s.dinode j).type ≠ .free → s'.contents j = s.contents j

variable {src : Source} {n off tot : ℕ} {s₁ : State}

lemma contents_congr {j : ℕ} (hdinode : s'.dinode j = s.dinode j)
    (hown : ∀ k, owner s'.dinode s'.block (j, .data k) = owner s.dinode s.block (j, .data k))
    (hblock : ∀ k, k * BSIZE < (s.dinode j).size →
      s'.block (owner s.dinode s.block (j, .data k)) =
        s.block (owner s.dinode s.block (j, .data k))) :
    s'.contents j = s.contents j := by
  rw [contents, hdinode]
  refine map_congr_left fun o ho => ?_
  rw [mem_range] at ho
  rw [fileByte, hown, hblock, fileByte]
  exact lt_of_le_of_lt (Nat.div_mul_le_self o BSIZE) ho

/-- The state at the end of `writei`, from the one after its loop. -/
def State.finish (s : State) (ip size : ℕ) : State := (s.setSize ip size).updated ip

lemma State.owner_finish (s : State) (ip size : ℕ) :
    owner (s.finish ip size).dinode (s.finish ip size).block = s.own ip := by
  rw [← own_setSize s ip size, ← own_updated, own, view_updated]
  rfl

lemma Writing.finish (h : FsInv sb s) (hip : s.Held ip)
    (hw : Writing sb ip src n off s s₁ (off + tot)) :
    FsInv sb (s₁.finish ip (max (s.inode ip).din.size (off + tot))) ∧
      Wrote ip off tot s (s₁.finish ip (max (s.inode ip).din.size (off + tot))) := by
  generalize hsize : max (s.inode ip).din.size (off + tot) = size
  obtain ⟨hdin, halloc⟩ := h.sync ip hip
  obtain ⟨a, ha⟩ := hw.same
  have hdinode : ∀ j, j ≠ ip → (s₁.finish ip size).dinode j = s.dinode j := fun j hj => by
    change update s₁.dinode ip _ j = _
    rw [update_of_ne hj, hw.dinode]
  have hinode : ∀ j, j ≠ ip → (s₁.finish ip size).inode j = s.inode j := fun j hj => by
    change update s₁.inode ip _ j = _
    rw [update_of_ne hj, hw.other j hj]
  have hentry : (s₁.finish ip size).inode ip = { s.inode ip with
      din := { (s.inode ip).din with size := size, addrs := a } } := by
    change update s₁.inode ip _ ip = _
    rw [update_self, ha]
    rfl
  have hself : (s₁.finish ip size).dinode ip = ((s₁.finish ip size).inode ip).din :=
    update_self ..
  have hown := s₁.owner_finish ip size
  have hold := h.own_eq hip
  refine ⟨⟨?_, fun i hi k hk => ?_, fun i hi => ?_⟩, hinode, hdinode,
    ⟨a, by rw [hsize]; exact hentry⟩, fun j hj hja => ?_⟩
  · rw [Owned, hown]
    exact hw.work.owned
  · rw [hown]
    by_cases hip' : i = ip
    · subst hip'
      rw [hself, hentry] at hk
      exact hw.mapped k (by rwa [hsize])
    · rw [hdinode i hip'] at hi hk
      rw [hw.only _ hip', hold]
      exact h.mapped i hi k hk
  · by_cases hip' : i = ip
    · subst hip'
      refine ⟨hself.symm, ?_⟩
      rw [hself, hentry]
      simpa [hdin] using halloc
    · rw [Held, hinode i hip'] at hi
      rw [hdinode i hip', hinode i hip']
      exact h.sync i hi
  · refine contents_congr (hdinode j hj) (fun k => ?_) fun k hk => ?_
    · rw [hown, hw.only _ hj, hold]
    · have hblock := hw.block j k hj
      rw [hold] at hblock
      exact hblock (h.mapped j hja k hk)

lemma length_overlay (l : List UInt8) {off : ℕ} (bytes : List UInt8) (hoff : off ≤ l.length) :
    (overlay l off bytes).length = max l.length (off + bytes.length) := by
  simp only [overlay, length_append, length_take, length_drop]
  omega

lemma getElem_overlay (l : List UInt8) {off : ℕ} (bytes : List UInt8) (hoff : off ≤ l.length)
    {o : ℕ} (ho : o < (overlay l off bytes).length) : (overlay l off bytes)[o] =
      if off ≤ o ∧ o < off + bytes.length then bytes.getD (o - off) 0 else l.getD o 0 := by
  have hlen := length_overlay l bytes hoff
  simp only [overlay, getElem_append, length_append, length_take,
    Nat.min_eq_left hoff, getElem_take, getElem_drop]
  by_cases h₁ : o < off
  · rw [dif_pos (by omega), dif_pos h₁, if_neg (by omega), getD_eq_getElem _ _ (by omega)]
  by_cases h₂ : o < off + bytes.length
  · rw [dif_pos (by omega), dif_neg h₁, if_pos (by omega), getD_eq_getElem _ _ (by omega)]
  · rw [dif_neg (by omega), if_neg (by omega), getD_eq_getElem _ _ (by omega)]
    congr 1
    omega

lemma Writing.contents_eq (h : FsInv sb s) (hip : s.Held ip) {data : List UInt8}
    (hw : Writing sb ip (kernelSource data) data.length off s s₁ (off + tot))
    (hoff : off ≤ (s.dinode ip).size) (htot : tot ≤ data.length) :
    (s₁.finish ip (max (s.inode ip).din.size (off + tot))).contents ip =
      overlay (s.contents ip) off (data.take tot) := by
  have hdin := (h.sync ip hip).1
  have hsize : ((s₁.finish ip (max (s.inode ip).din.size (off + tot))).dinode ip).size =
      max (s.inode ip).din.size (off + tot) := by
    change (update s₁.dinode ip (update s₁.inode ip _ ip).din ip).size = _
    rw [update_self, update_self]
  have htake : (data.take tot).length = tot := by simp [htot]
  refine ext_getElem ?_ fun o h₁ h₂ => ?_
  · rw [length_contents, hsize, length_overlay _ _ (by simpa using hoff),
      length_contents, htake, hdin]
  · have ho : o < max (s.inode ip).din.size (off + tot) := by simpa [hsize] using h₁
    rw [getElem_overlay _ _ (by simpa using hoff), htake]
    have hbyte := hw.bytes data rfl rfl o ho
    simp only [contents, getElem_map, getElem_range]
    rw [fileByte, owner_finish]
    change s₁.byte ip ip o = _
    rw [hbyte]
    split_ifs with hnew
    · rw [getD_eq_getElem _ _ (by omega), getD_eq_getElem _ _ (by omega), getElem_take]
    · have hlt : o < (s.dinode ip).size := by
        rw [hdin] at ho
        omega
      rw [h.byte_eq hip, getD_eq_getElem _ _ (by simpa using hlt)]
      simp

lemma State.setSize_self (s : State) (ip : ℕ) : s.setSize ip (s.inode ip).din.size = s := by
  simp [setSize]

/-- `writei` fails without a change, or writes at most `n` bytes. -/
theorem writei_spec (h : FsInv sb s) (hip : s.Held ip) (src : Source) (off : ℕ) {n : ℕ}
    (hn : n < 2 ^ 32) :
    Wp (writei sb ip src off n) E s fun r s' => FsInv sb s' ∧ (r = -1 ∧ s' = s ∨
      ∃ tot ≤ n, r = tot ∧ off ≤ (s.dinode ip).size ∧ Wrote ip off tot s s' ∧
        ∀ data, src = kernelSource data → data.length = n →
          s'.contents ip = overlay (s.contents ip) off (data.take tot)) := by
  obtain ⟨hdin, halloc⟩ := h.sync ip hip
  unfold writei
  refine .bind (.get (.ite (fun _ => .pure ⟨h, .inl ⟨rfl, rfl⟩⟩) fun hguard => ?_))
  refine .ite (fun _ => .pure ⟨h, .inl ⟨rfl, rfl⟩⟩) fun hmax => ?_
  rw [hdin] at hguard
  have hoff : off ≤ (s.dinode ip).size := by omega
  have hsize := h.size_le halloc
  have hlimit : MAXFILE * BSIZE < 2 ^ 32 := by decide
  have hstart : Writing sb ip src n off s s (off + 0) := by
    refine .start (h.working hip) (by rwa [hdin]) fun k hk => ?_
    rw [h.own_eq hip]
    rw [hdin] at hk
    exact h.mapped ip halloc k hk
  refine .bind ((writeLoop_spec (by omega) n 0 s (by omega) (by omega) hstart).mono ?_)
  rintro ⟨tot, off'⟩ s₁ ⟨htot, hoff', hw⟩
  obtain rfl : off' = off + tot := hoff'
  -- the size is updated if it has grown, and the inode is written back in any case
  have hdone : ∀ s', s' = s₁.finish ip (max (s.inode ip).din.size (off + tot)) →
      FsInv sb s' ∧ ((tot : ℤ) = -1 ∧ s' = s ∨ ∃ tot' ≤ n, (tot : ℤ) = tot' ∧
        off ≤ (s.dinode ip).size ∧ Wrote ip off tot' s s' ∧
        ∀ data, src = kernelSource data → data.length = n →
          s'.contents ip = overlay (s.contents ip) off (data.take tot')) := by
    rintro _ rfl
    obtain ⟨hinv, hwrote⟩ := hw.finish h hip
    refine ⟨hinv, .inr ⟨tot, htot, rfl, hoff, hwrote, ?_⟩⟩
    rintro data rfl rfl
    exact hw.contents_eq h hip hoff htot
  obtain ⟨a, ha⟩ := hw.same
  have hsize₁ : (s₁.inode ip).din.size = (s.inode ip).din.size := by rw [ha]; rfl
  refine .bind (.get (.ite (fun hlt => .bind (.modify (.bind (.modify (.pure (hdone _ ?_))))))
    fun hge => .bind (.modify (.pure (hdone _ ?_)))))
  · rw [max_eq_right (by omega)]
    rfl
  · rw [max_eq_left (by omega), ← hsize₁, finish, setSize_self]
    rfl

/-! ## `itrunc` -/

lemma Truncated.owner_of_ne (h : Truncated ip s s') {j : ℕ} (hj : j ≠ ip) (p : BlockPlace) :
    owner s'.dinode s'.block (j, p) = owner s.dinode s.block (j, p) := by
  refine owner_congr ?_ (fun _ => by rw [h.block]) p
  rw [h.dinode, update_of_ne hj]

lemma itrunc_inv (h : FsInv sb s) (hip : s.Held ip) :
    Wp (itrunc sb ip) E s fun _ s' => FsInv sb s' ∧ Truncated ip s s' ∧ s'.contents ip = [] ∧
      ∀ j, j ≠ ip → s'.contents j = s.contents j := by
  refine (itrunc_spec (h.working hip)).mono ?_
  rintro _ s' ⟨hwork, htrunc⟩
  obtain ⟨a, -, ha⟩ := htrunc.same
  have hself : s'.dinode ip = (s'.inode ip).din := by rw [htrunc.dinode, update_self]
  have hview : s'.view ip = s'.dinode := by rw [view, ← hself, update_eq_self]
  have hdinode : ∀ j, j ≠ ip → s'.dinode j = s.dinode j := fun j hj => by
    rw [htrunc.dinode, update_of_ne hj]
  have hsize : (s'.dinode ip).size = 0 := by rw [hself, ha]
  refine ⟨⟨?_, fun i hi k hk => ?_, fun i hi => ?_⟩, htrunc, ?_, fun j hj => ?_⟩
  · rw [← hview]
    exact hwork.owned
  · have hne : i ≠ ip := by
      rintro rfl
      omega
    rw [hdinode i hne] at hi hk
    rw [htrunc.owner_of_ne hne]
    exact h.mapped i hi k hk
  · by_cases hne : i = ip
    · subst hne
      rw [hself]
      exact ⟨rfl, hwork.alloc⟩
    · rw [Held, htrunc.other i hne] at hi
      rw [hdinode i hne, htrunc.other i hne]
      exact h.sync i hi
  · rw [contents, hsize]
    rfl
  · exact contents_congr (hdinode j hj) (fun k => htrunc.owner_of_ne hj _) fun k _ => by
      rw [htrunc.block]

end Specs

end Xv6.Fs
