import Xv6.Foundations.Transition
import Xv6.Fs.Consistency

/-!
# Inodes as independent byte arrays

Runs of `writei`, `readi` and `itrunc` on any inodes refine byte arrays: the content of an inode is
what replaying its own calls gives, with the bytes that each `writei` reported as written, and
`readi` returns a part of it.

## Main results

* `inode_contents`: the refinement.
* `readi_wraps`: a `readi` whose end does not fit in 32 bits returns nothing.
-/

namespace Xv6.Fs

/-- A call on the content of an inode. -/
inductive ContentCall where
  /-- `writei` from a kernel address. -/
  | writei (ip off : ℕ) (data : List UInt8)
  /-- `readi` to a kernel address. -/
  | readi (ip off n : ℕ)
  | itrunc (ip : ℕ)

/-- What a call returns. -/
inductive ContentResult where
  | wrote (r : ℤ)
  | copied (bytes : List UInt8)
  | truncated

namespace ContentCall

/-- The inode that the call is about. -/
def inode : ContentCall → ℕ
  | .writei ip _ _ | .readi ip _ _ | .itrunc ip => ip

/-- The function that is called. -/
def run (sb : Superblock) : ContentCall → M ContentResult
  | .writei ip off data => do
    let r ← Fs.writei sb ip (kernelSource data) off data.length
    return .wrote r
  | .readi ip off n => do
    let bytes ← Fs.readi sb ip off n
    return .copied bytes
  | .itrunc ip => do
    Fs.itrunc sb ip
    return .truncated

/-- The caller has locked the inode, and lengths are of type `uint`. -/
def Valid (s : State) (c : ContentCall) : Prop :=
  s.Held c.inode ∧ match c with
    | .writei _ _ data => data.length < 2 ^ 32
    | .readi _ _ _ | .itrunc _ => True

end ContentCall

/-- The runs of these calls on a consistent file system. -/
def contentSystem (sb : Superblock) : TransitionSystem State (ContentCall × ContentResult) where
  init := FsInv sb
  step s l s' := l.1.Valid s ∧ (l.1.run sb).run s = .ok (l.2, s')

/-- What a call does to the byte array of the inode `i`. -/
def replayStep (i : ℕ) (l : List UInt8) : ContentCall × ContentResult → List UInt8
  | (.writei ip off data, .wrote r) =>
    if ip = i ∧ 0 ≤ r then overlay l off (data.take r.toNat) else l
  | (.itrunc ip, _) => if ip = i then [] else l
  | _ => l

/-- What a sequence of calls does to the byte array of the inode `i`. -/
def replay (i : ℕ) (h : List (ContentCall × ContentResult)) (l : List UInt8) : List UInt8 :=
  h.foldl (replayStep i) l

section Refinement

variable {sb : Superblock} {s s' : State} {ip : ℕ} {E : Fault → Prop}

lemma Wrote.type_eq {off tot : ℕ} (h : Wrote ip off tot s s') (hinv : FsInv sb s)
    (hinv' : FsInv sb s') (hip : s.Held ip) (i : ℕ) : (s'.dinode i).type = (s.dinode i).type := by
  by_cases hi : i = ip
  · subst hi
    obtain ⟨a, ha⟩ := h.entry
    have hheld : s'.Held i := by
      rw [State.Held, ha]
      exact hip
    rw [← (hinv'.sync i hheld).1, ← (hinv.sync i hip).1, ha]
  · rw [h.dinode i hi]

lemma Truncated.type_eq (h : Truncated ip s s') (hinv : FsInv sb s) (hip : s.Held ip) (i : ℕ) :
    (s'.dinode i).type = (s.dinode i).type := by
  rw [h.dinode]
  by_cases hi : i = ip
  · subst hi
    obtain ⟨a, -, ha⟩ := h.same
    rw [Function.update_self, ha, (hinv.sync i hip).1]
  · rw [Function.update_of_ne hi]

/-- A call returns, keeps the file system consistent, and does to the content of each inode what it
does to its byte array. -/
theorem contentCall_spec (h : FsInv sb s) {c : ContentCall} (hc : c.Valid s) :
    Wp (c.run sb) E s fun r s' => FsInv sb s' ∧ ∀ i, (s'.dinode i).type = (s.dinode i).type ∧
      ((s.dinode i).type ≠ .free → s'.contents i = replayStep i (s.contents i) (c, r)) := by
  obtain ⟨hip, hargs⟩ := hc
  cases c with
  | writei ip off data =>
    replace hip : s.Held ip := hip
    refine .bind ((writei_spec h hip (kernelSource data) off hargs).mono ?_)
    rintro r s' ⟨hinv, ⟨rfl, rfl⟩ | ⟨tot, htot, rfl, -, hwrote, hcontents⟩⟩
    · refine .pure ⟨hinv, fun i => ⟨rfl, fun _ => ?_⟩⟩
      exact (if_neg (by omega)).symm
    · refine .pure ⟨hinv, fun i => ⟨hwrote.type_eq h hinv hip i, fun hi => ?_⟩⟩
      by_cases hiip : ip = i
      · subst hiip
        rw [hcontents data rfl rfl]
        exact (if_pos ⟨rfl, by omega⟩).symm
      · rw [hwrote.contents i (Ne.symm hiip) hi]
        exact (if_neg fun hcond => hiip hcond.1).symm
  | readi ip off n =>
    replace hip : s.Held ip := hip
    refine .bind ((readi_spec h hip off n).mono ?_)
    rintro bytes s' ⟨rfl, -⟩
    exact .pure ⟨h, fun i => ⟨rfl, fun _ => rfl⟩⟩
  | itrunc ip =>
    replace hip : s.Held ip := hip
    refine .bind ((itrunc_inv h hip).mono ?_)
    rintro _ s' ⟨hinv, htrunc, hempty, hother⟩
    refine .pure ⟨hinv, fun i => ⟨htrunc.type_eq h hip i, fun _ => ?_⟩⟩
    by_cases hiip : ip = i
    · subst hiip
      rw [hempty]
      exact (if_pos rfl).symm
    · rw [hother i (Ne.symm hiip)]
      exact (if_neg hiip).symm

/-- The invariant of a run. -/
theorem contents_eq_replay {s₀ : State} {h : List (ContentCall × ContentResult)}
    (hinit : FsInv sb s₀) (hrun : (contentSystem sb).Run s₀ h s) :
    FsInv sb s ∧ ∀ i, (s.dinode i).type = (s₀.dinode i).type ∧
      ((s.dinode i).type ≠ .free → s.contents i = replay i h (s₀.contents i)) := by
  induction hrun with
  | nil => exact ⟨hinit, fun i => ⟨rfl, fun _ => rfl⟩⟩
  | snoc hrun hstep ih =>
    obtain ⟨hinv, hprev⟩ := ih
    obtain ⟨hinv', hnext⟩ := (contentCall_spec (E := fun _ => False) hinv hstep.1).of_run hstep.2
    refine ⟨hinv', fun i => ⟨(hnext i).1.trans (hprev i).1, fun hi => ?_⟩⟩
    rw [(hnext i).1] at hi
    rw [(hnext i).2 hi, (hprev i).2 hi, replay, replay, List.foldl_append]
    rfl

end Refinement

/-- After any run, the content of every allocated inode is what its own calls give; it is no larger
than `MAXFILE` blocks and has no hole; `readi` returns the bytes of the content, without a change of
the state and so without an allocation; and every call returns. -/
theorem inode_contents {sb : Superblock} {s₀ s : State} {h : List (ContentCall × ContentResult)}
    (hinit : FsInv sb s₀) (hrun : (contentSystem sb).Run s₀ h s) :
    (∀ i, (s.dinode i).type ≠ .free → s.contents i = replay i h (s₀.contents i) ∧
      (s.dinode i).size ≤ MAXFILE * BSIZE ∧
      ∀ k, k * BSIZE < (s.dinode i).size → owner s.dinode s.block (i, .data k) ≠ 0) ∧
    (∀ ip off n, s.Held ip → off ≤ (s.dinode ip).size → off + n < 2 ^ 32 →
      (readi sb ip off n).run s = .ok (((replay ip h (s₀.contents ip)).drop off).take n, s)) ∧
    ∀ c : ContentCall, c.Valid s → ∃ r s', (c.run sb).run s = .ok (r, s') := by
  obtain ⟨hinv, hcontents⟩ := contents_eq_replay hinit hrun
  refine ⟨fun i hi => ⟨(hcontents i).2 hi, hinv.size_le hi, hinv.mapped i hi⟩,
    fun ip off n hip hoff hn => ?_, fun c hc => ?_⟩
  · obtain ⟨bytes, s', hread, rfl, rfl⟩ :=
      (readi_spec (E := fun _ => False) hinv hip off n).exists_run
    rw [hread, if_neg, (hcontents ip).2 (hinv.sync ip hip).2]
    rw [Nat.mod_eq_of_lt hn]
    omega
  · obtain ⟨r, s', hcall, -⟩ := (contentCall_spec (E := fun _ => False) hinv hc).exists_run
    exact ⟨r, s', hcall⟩

/-! ## A small file system -/

/-- A file system of ten blocks, of which six are data blocks. -/
def smallSb : Superblock := ⟨10, 2, 3, by decide⟩

/-- An empty file. -/
def emptyFile : Dinode := { type := .file, nlink := 1 }

/-- The file system with one empty file, which is open. -/
def smallState : State where
  dinode i := if i = 1 then emptyFile else {}
  bit b := b < 4
  block _ := 0
  inode i := if i = 1 then { ref := 1, valid := true, din := emptyFile } else {}

lemma owner_smallState (k : ℕ × BlockPlace) : owner smallState.dinode smallState.block k = 0 := by
  have haddrs : ∀ i n, (smallState.dinode i).addrs n = 0 := fun i n => by
    simp only [smallState]
    split_ifs <;> rfl
  obtain ⟨i, p⟩ := k
  cases p <;> simp [owner, Dinode.addrOf, haddrs]

lemma fsInv_smallState : FsInv smallSb smallState := by
  have hstart : smallSb.datastart = 4 := by decide
  refine ⟨⟨by decide, fun b hb => ?_, fun k hk => absurd (owner_smallState k) hk,
    fun {k l} hk => absurd (owner_smallState k) hk, fun b hlo hhi => ?_⟩, fun i _ k hk => ?_,
    fun i hi => ?_⟩
  · rw [hstart] at hb
    simpa [smallState] using hb
  · rw [hstart] at hlo
    have hbit : smallState.bit b = false := by simpa [smallState] using hlo
    rw [hbit]
    simp only [Bool.false_eq_true, false_iff, not_exists]
    intro k hk
    rw [owner_smallState] at hk
    omega
  · simp only [smallState] at hk
    split_ifs at hk <;> exact absurd hk (Nat.not_lt_zero _)
  · have hi1 : i = 1 := by
      by_contra hne
      simp [State.Held, smallState, hne] at hi
    subst hi1
    exact ⟨rfl, by decide⟩

/-- Three bytes are written to the file. -/
theorem exists_run_smallState : ∃ s, (contentSystem smallSb).Run smallState
    [(.writei 1 0 [1, 2, 3], .wrote 3)] s ∧ s.Held 1 ∧ (s.dinode 1).size = 3 := by
  have hcall : (match ((ContentCall.writei 1 0 [1, 2, 3]).run smallSb).run smallState with
      | .ok (.wrote r, s) =>
        decide (r = 3 ∧ 0 < (s.inode 1).ref ∧ (s.inode 1).valid = true ∧ (s.dinode 1).size = 3)
      | _ => false) = true := by
    decide +kernel
  split at hcall
  · rename_i r s hs
    obtain ⟨rfl, href, hvalid, hsize⟩ := of_decide_eq_true hcall
    refine ⟨s, .snoc (.nil _) ⟨⟨⟨by decide, rfl⟩, by decide⟩, hs⟩, ⟨href, hvalid⟩, hsize⟩
  · cases hcall

theorem inode_contents_three_bytes : ∃ s, (contentSystem smallSb).Run smallState
    [(.writei 1 0 [1, 2, 3], .wrote 3)] s ∧ (readi smallSb 1 1 5).run s = .ok ([2, 3], s) := by
  obtain ⟨s, hrun, hheld, hsize⟩ := exists_run_smallState
  have hread := (inode_contents fsInv_smallState hrun).2.1 1 1 5 hheld (by omega) (by decide)
  exact ⟨s, hrun, hread⟩

/-- `readi` returns nothing if `off + n` does not fit in 32 bits, although there are bytes after
`off`. -/
theorem readi_wraps : ∃ s, FsInv smallSb smallState ∧
    (contentSystem smallSb).Run smallState [(.writei 1 0 [1, 2, 3], .wrote 3)] s ∧ s.Held 1 ∧
      1 ≤ (s.dinode 1).size ∧ (readi smallSb 1 1 (2 ^ 32 - 1)).run s = .ok ([], s) ∧
      ((replay 1 [(.writei 1 0 [1, 2, 3], .wrote 3)] (smallState.contents 1)).drop 1).take
        (2 ^ 32 - 1) = [2, 3] := by
  obtain ⟨s, hrun, hheld, hsize⟩ := exists_run_smallState
  have hinv := (contents_eq_replay fsInv_smallState hrun).1
  obtain ⟨bytes, s', hread, rfl, rfl⟩ :=
    (readi_spec (E := fun _ => False) hinv hheld 1 (2 ^ 32 - 1)).exists_run
  refine ⟨s', fsInv_smallState, hrun, hheld, by omega, ?_, by decide⟩
  rw [hread, if_pos (.inr (by decide))]

end Xv6.Fs
