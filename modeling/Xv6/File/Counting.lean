import Xv6.File.References

/-!
# The calls keep the reference counts exact

Each kernel function is followed through with the tokens it holds: what it has acquired is put into
a descriptor, the current directory or an open file, or is given up again, on every path. Between
calls the reference counts are therefore the numbers of those who refer to an entry (`Exact`).
-/

namespace Xv6.Files

open Function Option Multiset Own

open VM (ProcId)
open Token SectionProg

variable {p : ProcId}

/-! ## Inodes -/

lemma sec_uses {s : Sec} {need : Multiset Token} {give : s.Res → Multiset Token}
    (h : FileSpec p s need give) : (sec s).Uses (FileSpec p) need give :=
  uses_atomically h

/-- A reference to an inode that a function may return. -/
def inodeTokens (r : Option InodeId) : Multiset Token := r.elim 0 fun ip => {inode ip}

lemma iput_uses (ip : InodeId) : (iput ip).Uses (FileSpec p) {inode ip} fun _ => 0 := by
  refine (sec_uses (.iput ip)).bind 0 (by simp) fun free => ?_
  cases free with
  | false => rfl
  | true =>
    refine (sec_uses (.iputRelease ip)).bind 0 (by simp) fun _ => ?_
    exact (sec_uses (.iputDrop ip)).last 0 (by simp) fun _ => rfl

lemma iunlockput_uses (ip : InodeId) :
    (iunlockput ip).Uses (FileSpec p) ({inode ip} + {locked p ip}) fun _ => 0 := by
  refine (sec_uses (.iunlock ip)).bind 0 (by simp) fun _ => ?_
  exact (iput_uses ip).last 0 (by simp) fun _ => rfl

lemma dirlookup_uses (dev : ℕ) : (dirlookup dev).Uses (FileSpec p) 0 inodeTokens := by
  refine (sec_uses .lookup).bind 0 (by simp) fun inum => ?_
  cases inum with
  | none => rfl
  | some inum =>
    refine (sec_uses (.iget dev inum)).bind 0 (by simp) fun ip => ?_
    exact add_zero _

lemma dirlink_uses (dev : ℕ) : (dirlink dev).Uses (FileSpec p) 0 fun _ => 0 := by
  refine (dirlookup_uses dev).bind 0 (by simp) fun r => ?_
  cases r with
  | none => exact (sec_uses .choose).last 0 rfl fun _ => rfl
  | some ip =>
    refine (iput_uses ip).bind 0 rfl fun _ => ?_
    rfl

lemma walkPath_uses (nameiparent : Bool) (len : ℕ) (ip : InodeId) :
    (walkPath nameiparent len ip).Uses (FileSpec p) {inode ip} inodeTokens := by
  induction len generalizing ip with
  | zero =>
    unfold walkPath
    split_ifs
    · refine (iput_uses ip).bind 0 (by simp) fun _ => ?_
      rfl
    · rfl
  | succ len ih =>
    unfold walkPath
    refine (sec_uses (.ilock ip)).bind 0 (by simp) fun _ => ?_
    refine (sec_uses .choose).bind ({inode ip} + {locked p ip}) (by simp) fun isDir => ?_
    split_ifs
    · refine (iunlockput_uses ip).bind 0 (by simp) fun _ => ?_
      rfl
    · refine (sec_uses (.iunlock ip)).bind 0 (by simp) fun _ => ?_
      exact add_zero _
    · refine (dirlookup_uses ROOTDEV).bind ({inode ip} + {locked p ip}) (by simp) fun next => ?_
      cases next with
      | none =>
        refine (iunlockput_uses ip).bind 0 (by simp [inodeTokens]) fun _ => ?_
        rfl
      | some next =>
        refine (iunlockput_uses ip).bind {inode next} (add_comm ..) fun _ => ?_
        exact (ih next).last 0 (by simp) fun r => by simp

/-- A relative path begins at the current directory, which stays referenced. -/
theorem namex_uses (cwd : InodeId) (absolute : Bool) (len : ℕ) (nameiparent : Bool) :
    (namex cwd absolute len nameiparent).Uses (FileSpec p) {inode cwd}
      fun r => inodeTokens r + {inode cwd} := by
  unfold namex
  split_ifs
  · refine (sec_uses (.iget ROOTDEV ROOTINO)).bind {inode cwd} (by simp) fun ip => ?_
    exact (walkPath_uses nameiparent len ip).last {inode cwd} rfl fun r => rfl
  · refine (sec_uses (.idup cwd)).bind 0 (by simp) fun _ => ?_
    exact (walkPath_uses nameiparent len cwd).last {inode cwd} (by simp) fun r => rfl

/-- A locked inode that a function may return. -/
def lockedTokens (p : ProcId) (r : Option InodeId) : Multiset Token :=
  r.elim 0 fun ip => {inode ip} + {locked p ip}

lemma createFail_uses (ip dp : InodeId) :
    (createFail ip dp).Uses (FileSpec p)
      ({inode ip} + {locked p ip} + ({inode dp} + {locked p dp})) (lockedTokens p) := by
  refine (iunlockput_uses ip).bind _ rfl fun _ => ?_
  refine (iunlockput_uses dp).bind 0 (by simp) fun _ => ?_
  rfl

/-- All paths of `create` drop the parent directory, and the inode unless it is returned. -/
theorem create_uses (cwd : InodeId) (absolute : Bool) (len : ℕ) :
    (create cwd absolute len).Uses (FileSpec p) {inode cwd}
      fun r => lockedTokens p r + {inode cwd} := by
  refine (namex_uses cwd absolute len true).bind 0 (by simp) fun dp => ?_
  cases dp with
  | none => rfl
  | some dp =>
    refine (sec_uses (.ilock dp)).bind {inode cwd} (by simp [inodeTokens]) fun _ => ?_
    refine (dirlookup_uses ROOTDEV).bind ({inode dp} + {locked p dp} + {inode cwd}) (by simp)
      fun ip => ?_
    cases ip with
    | some ip =>
      -- the name exists
      refine (iunlockput_uses dp).bind ({inode ip} + {inode cwd}) ?_ fun _ => ?_
      · simp only [inodeTokens, elim_some]
        abel
      refine (sec_uses (.ilock ip)).bind {inode cwd} (by simp) fun _ => ?_
      refine (sec_uses .choose).bind _ (zero_add _).symm fun isFileOrDevice => ?_
      split_ifs
      · exact zero_add _
      · refine (iunlockput_uses ip).bind {inode cwd} (by simp) fun _ => ?_
        rfl
    | none =>
      refine (sec_uses .lookup).bind ({inode dp} + {locked p dp} + {inode cwd})
        (by simp [inodeTokens]) fun inum => ?_
      cases inum with
      | none =>
        refine (iunlockput_uses dp).bind {inode cwd} (by simp) fun _ => ?_
        rfl
      | some inum =>
        refine (sec_uses (.iget ROOTDEV inum)).bind _ rfl fun ip => ?_
        refine (sec_uses (.ilock ip)).bind ({inode dp} + {locked p dp} + {inode cwd})
          (by simp) fun _ => ?_
        refine (dirlink_uses ROOTDEV).bind _ (zero_add _).symm fun linked => ?_
        split_ifs
        · refine (iunlockput_uses dp).bind ({inode ip} + {locked p ip} + {inode cwd}) ?_
            fun _ => ?_
          · abel
          · exact zero_add _
        · exact (createFail_uses ip dp).last {inode cwd} (by abel) fun r => rfl

/-! ## Files and descriptors -/

lemma release_uses (f : FileId) (ff : File) :
    (match ff.type with
      | .none => return
      | .pipe pi => do
        sec (.pipeclose pi ff.writable)
        sec (.noteReleased f)
      | .inode ip | .device ip => do
        iput ip
        sec (.noteReleased f) : Prog Unit).Uses (FileSpec p) (ff.tokens f) fun _ => 0 := by
  unfold File.tokens
  cases ff.type with
  | none => rfl
  | pipe pi =>
    refine (sec_uses (.pipeclose pi ff.writable)).bind {duty f} rfl fun _ => ?_
    exact (sec_uses (.noteReleased f)).last 0 (by simp) fun _ => rfl
  | inode ip | device ip =>
    refine (iput_uses ip).bind {duty f} rfl fun _ => ?_
    exact (sec_uses (.noteReleased f)).last 0 (by simp) fun _ => rfl

lemma fileclose_uses_of_spec {f : FileId} {t : Token}
    (h : FileSpec p (.fileclose f) {t} fun r => r.elim 0 fun ff => ff.tokens f) :
    (fileclose f).Uses (FileSpec p) {t} fun _ => 0 := by
  refine (sec_uses h).bind 0 (by simp) fun r => ?_
  cases r with
  | none => rfl
  | some ff => exact (release_uses f ff).last 0 rfl fun _ => rfl

lemma fileclose_uses (f : FileId) : (fileclose f).Uses (FileSpec p) {file f} fun _ => 0 :=
  fileclose_uses_of_spec (.fileclose f)

lemma fileclose_new_uses (f : FileId) : (fileclose f).Uses (FileSpec p) {new f} fun _ => 0 :=
  fileclose_uses_of_spec (.abandon f)

lemma Own.tokens_set_some {own : Own} {fd : Fd} {f : FileId} (h : own.ofile fd = none) :
    (own.set fd (some f)).tokens = {file f} + own.tokens := by
  have hsum := Finset.sum_update_add slotTokens own.ofile fd (some f)
  rw [h, slotTokens_none, slotTokens_some, add_zero] at hsum
  simp only [tokens, set, hsum]
  abel

lemma Own.tokens_set_none {own : Own} {fd : Fd} {f : FileId} (h : own.ofile fd = some f) :
    own.tokens = {file f} + (own.set fd none).tokens := by
  have hsum := Finset.sum_update_add slotTokens own.ofile fd none
  rw [h, slotTokens_none, slotTokens_some, add_zero] at hsum
  simp only [tokens, set, ← hsum]
  abel

lemma fdalloc_eq_some {own own' : Own} {f : FileId} {fd : Fd}
    (h : fdalloc own f = some (fd, own')) :
    own.ofile fd = none ∧ own' = own.set fd (some f) := by
  obtain ⟨fd', hfree, heq⟩ := map_eq_some_iff.mp h
  cases heq
  have hfd := List.find?_some hfree
  simp only [decide_eq_true_eq] at hfd
  exact ⟨hfd, rfl⟩

lemma argfd_eq_some {own : Own} {n : ℤ} {fd : Fd} {f : FileId}
    (h : argfd own n = some (fd, f)) : own.ofile fd = some f := by
  unfold argfd at h
  split_ifs at h with hn
  obtain ⟨f', hf, heq⟩ := map_eq_some_iff.mp h
  cases heq
  exact hf

/-! ## The calls -/

/-- `sys_open` once the inode is locked: the inode goes to the new file, or is put. -/
theorem openInode_uses (own : Own) (ip : InodeId) (readable writable : Bool) :
    (openInode own ip readable writable).Uses (FileSpec p)
      ({inode ip} + {locked p ip} + own.tokens) fun r => r.2.tokens := by
  refine (sec_uses .choose).bind _ (zero_add _).symm fun isDevice => ?_
  refine (sec_uses .choose).bind _ (zero_add _).symm fun badMajor => ?_
  split_ifs
  · refine (iunlockput_uses ip).bind own.tokens (by simp) fun _ => ?_
    exact zero_add _
  · refine (sec_uses .filealloc).bind _ rfl fun f => ?_
    cases f with
    | none =>
      refine (iunlockput_uses ip).bind own.tokens (by simp) fun _ => ?_
      exact zero_add _
    | some f =>
      dsimp only
      cases hfd : fdalloc own f with
      | none =>
        -- no descriptor is free
        refine (fileclose_new_uses f).bind ({inode ip} + {locked p ip} + own.tokens) (by simp)
          fun _ => ?_
        refine (iunlockput_uses ip).bind own.tokens (by simp) fun _ => ?_
        exact zero_add _
      | some r =>
        obtain ⟨fd, own'⟩ := r
        obtain ⟨hfree, rfl⟩ := fdalloc_eq_some hfd
        refine (sec_uses (.setInode f ip isDevice readable writable)).bind own.tokens ?_
          fun _ => ?_
        · simp only [elim_some, zero_add]
          abel
        · exact (tokens_set_some hfree).symm

lemma sysOpen_uses (own : Own) (absolute : Bool) (len : ℕ)
    (creates rdonly readable writable : Bool) :
    (sysOpen own absolute len creates rdonly readable writable).Uses (FileSpec p) own.tokens
      fun r => r.2.tokens := by
  -- the current directory is one of the references of the process
  have hcwd : ∀ h : Multiset Token, h + own.tokens =
      h + {inode own.cwd} + ∑ fd, slotTokens (own.ofile fd) := by
    intro h
    rw [tokens]
    abel
  refine (sec_uses .choose).bind _ (zero_add _).symm fun badPath => ?_
  split_ifs
  · exact zero_add _
  · refine (create_uses own.cwd absolute len).bind (∑ fd, slotTokens (own.ofile fd)) ?_
      fun ip => ?_
    · simpa using hcwd 0
    rw [← hcwd]
    cases ip with
    | none => exact zero_add _
    | some ip =>
      exact (openInode_uses own ip readable writable).last 0 (by simp [lockedTokens])
        fun r => add_zero _
  · refine (namex_uses own.cwd absolute len false).bind (∑ fd, slotTokens (own.ofile fd)) ?_
      fun ip => ?_
    · simpa using hcwd 0
    rw [← hcwd]
    cases ip with
    | none => exact zero_add _
    | some ip =>
      refine (sec_uses (.ilock ip)).bind own.tokens rfl fun _ => ?_
      refine (sec_uses .choose).bind _ (zero_add _).symm fun isDir => ?_
      split_ifs
      · refine (iunlockput_uses ip).bind own.tokens (by simp) fun _ => ?_
        exact zero_add _
      · exact (openInode_uses own ip readable writable).last 0 (by simp) fun r => add_zero _

lemma sysDup_uses (own : Own) (fd : ℤ) :
    (sysDup own fd).Uses (FileSpec p) own.tokens fun r => r.2.tokens := by
  unfold sysDup
  cases harg : argfd own fd with
  | none => rfl
  | some r =>
    obtain ⟨fd₀, f⟩ := r
    have hf := tokens_set_none (argfd_eq_some harg)
    dsimp only
    cases hfd : fdalloc own f with
    | none => rfl
    | some r =>
      obtain ⟨fd₁, own'⟩ := r
      obtain ⟨hfree, rfl⟩ := fdalloc_eq_some hfd
      refine (sec_uses (.filedup f)).bind (own.set fd₀ none).tokens hf fun _ => ?_
      change _ = (own.set fd₁ (some f)).tokens
      rw [tokens_set_some hfree, hf]
      abel

lemma sysClose_uses (own : Own) (fd : ℤ) :
    (sysClose own fd).Uses (FileSpec p) own.tokens fun r => r.2.tokens := by
  unfold sysClose
  cases harg : argfd own fd with
  | none => rfl
  | some r =>
    obtain ⟨fd₀, f⟩ := r
    have hf := tokens_set_none (argfd_eq_some harg)
    refine (fileclose_uses f).bind (own.set fd₀ none).tokens hf fun _ => ?_
    exact zero_add _

lemma pipealloc_uses : pipealloc.Uses (FileSpec p) 0 fun r =>
    r.elim 0 fun (f0, f1) => {file f0} + {file f1} := by
  refine (sec_uses .filealloc).bind 0 rfl fun f0 => ?_
  cases f0 with
  | none => rfl
  | some f0 =>
    refine (sec_uses .filealloc).bind {new f0} (by simp) fun f1 => ?_
    cases f1 with
    | none =>
      refine (fileclose_new_uses f0).bind 0 (by simp) fun _ => ?_
      rfl
    | some f1 =>
      refine (sec_uses .newPipe).bind ({new f0} + {new f1}) ?_ fun pi => ?_
      · simp only [elim_some]
        abel
      cases pi with
      | none =>
        refine (fileclose_new_uses f0).bind {new f1} (by simp) fun _ => ?_
        refine (fileclose_new_uses f1).bind 0 (by simp) fun _ => ?_
        rfl
      | some pi =>
        refine (sec_uses (.setPipe f0 pi false)).bind ({new f1} + {pipe pi true}) ?_ fun _ => ?_
        · simp only [elim_some]
          abel
        refine (sec_uses (.setPipe f1 pi true)).bind {file f0} ?_ fun _ => ?_
        · abel
        · exact add_comm ..

lemma sysPipe_uses (own : Own) :
    (sysPipe own).Uses (FileSpec p) own.tokens fun r => r.2.tokens := by
  refine pipealloc_uses.bind own.tokens (zero_add _).symm fun r => ?_
  cases r with
  | none => exact zero_add _
  | some fs =>
    obtain ⟨rf, wf⟩ := fs
    -- both files are closed again on every failing path
    have hclose : ∀ {own' : Own} {held : Multiset Token} {ret : ℤ},
        held = {file rf} + ({file wf} + own'.tokens) →
        (do fileclose rf; fileclose wf; return (ret, own') : Prog (ℤ × Own)).Follows (FileSpec p)
          held fun r held => held = r.2.tokens := by
      intro own' held ret hheld
      refine (fileclose_uses rf).bind ({file wf} + own'.tokens) hheld fun _ => ?_
      refine (fileclose_uses wf).bind own'.tokens (by simp) fun _ => ?_
      exact zero_add _
    dsimp only
    cases hfd0 : fdalloc own rf with
    | none => exact hclose (add_assoc ..)
    | some r0 =>
      obtain ⟨fd0, own0⟩ := r0
      obtain ⟨hfree0, rfl⟩ := fdalloc_eq_some hfd0
      have hundo0 : (own.set fd0 (some rf)).set fd0 none = own := by
        rw [set_set, set_eq_self hfree0]
      dsimp only
      cases hfd1 : fdalloc (own.set fd0 (some rf)) wf with
      | none => exact hclose (hundo0.symm ▸ add_assoc ..)
      | some r1 =>
        obtain ⟨fd1, own1⟩ := r1
        obtain ⟨hfree1, rfl⟩ := fdalloc_eq_some hfd1
        have hheld : {file rf} + {file wf} + own.tokens =
            ((own.set fd0 (some rf)).set fd1 (some wf)).tokens := by
          rw [tokens_set_some hfree1, tokens_set_some hfree0]
          abel
        refine (sec_uses .choose).bind _ (zero_add _).symm fun badArray => ?_
        split_ifs
        · have hundo1 : (((own.set fd0 (some rf)).set fd1 (some wf)).set fd0 none).set fd1 none =
              own := by
            have hne : fd0 ≠ fd1 := by
              rintro rfl
              simp [Own.set] at hfree1
            rw [set_comm ((own.set fd0 (some rf)).set fd1 (some wf)) hne, set_set,
              set_eq_self hfree1, hundo0]
          rw [hundo1]
          exact hclose (by rw [zero_add]; exact add_assoc ..)
        · exact (zero_add _).trans hheld

lemma dupFiles_uses (own : Own) (fds : List Fd) (ofile : Fd → Option FileId) (hnodup : fds.Nodup)
    (hfds : ∀ fd ∈ fds, ofile fd = none) :
    (dupFiles own fds ofile).Uses (FileSpec p) (own.tokens + ∑ fd, slotTokens (ofile fd))
      fun r => own.tokens + ∑ fd, slotTokens (r fd) := by
  induction fds generalizing ofile with
  | nil => rfl
  | cons fd fds ih =>
    obtain ⟨hfd, hnodup⟩ := List.nodup_cons.mp hnodup
    unfold dupFiles
    cases hf : own.ofile fd with
    | none => exact ih ofile hnodup fun g hg => hfds g (List.mem_cons_of_mem _ hg)
    | some f =>
      have hown := tokens_set_none hf
      refine (sec_uses (.filedup f)).bind
        ((own.set fd none).tokens + ∑ fd, slotTokens (ofile fd)) ?_ fun _ => ?_
      · rw [hown]
        abel
      refine (ih (update ofile fd (some f)) hnodup fun g hg => ?_).last 0 ?_
        fun r => add_zero _
      · have hne : g ≠ fd := by
          rintro rfl
          exact hfd hg
        rw [update_of_ne hne]
        exact hfds g (List.mem_cons_of_mem _ hg)
      · have hsum := Finset.sum_update_add slotTokens ofile fd (some f)
        rw [hfds fd (List.mem_cons_self ..), slotTokens_none, slotTokens_some, add_zero] at hsum
        rw [hsum, hown]
        abel

lemma kfork_uses (own : Own) :
    (kfork own).Uses (FileSpec p) own.tokens fun r => r.2.tokens := by
  refine (sec_uses .allocproc).bind own.tokens (zero_add _).symm fun np => ?_
  cases np with
  | none => exact zero_add _
  | some np =>
    refine (sec_uses .choose).bind _ (zero_add _).symm fun copied => ?_
    split_ifs
    · refine (sec_uses (.freeproc np)).bind own.tokens (by simp) fun _ => ?_
      exact zero_add _
    · refine (dupFiles_uses own (List.finRange NOFILE) (fun _ => none) (List.nodup_finRange _)
        fun _ _ => rfl).bind {child np} ?_ fun ofile => ?_
      · simp [add_comm]
      -- the child gets a reference to the current directory too
      refine (sec_uses (.idup own.cwd)).bind (∑ fd, slotTokens (own.ofile fd) +
        ∑ fd, slotTokens (ofile fd) + {child np}) ?_ fun _ => ?_
      · rw [tokens]
        abel
      refine (sec_uses (.publish np ⟨ofile, own.cwd⟩)).bind own.tokens ?_ fun _ => ?_
      · rw [tokens, tokens]
        abel
      · exact zero_add _

/-- After the loop of `kexit` only the current directory is left. -/
theorem closeFiles_follows (fds : List Fd) (own : Own)
    (hown : ∀ fd, own.ofile fd ≠ none → fd ∈ fds) :
    (closeFiles fds own).Follows (FileSpec p) own.tokens
      fun own' held => held = {inode own'.cwd} := by
  induction fds generalizing own with
  | nil =>
    have hnone : ∀ fd, own.ofile fd = none := fun fd => by
      by_contra h
      cases hown fd h
    change own.tokens = _
    simp [tokens, hnone]
  | cons fd fds ih =>
    unfold closeFiles
    cases hf : own.ofile fd with
    | none =>
      refine ih own fun g hg => ?_
      rcases List.mem_cons.mp (hown g hg) with rfl | hmem
      · exact absurd hf hg
      · exact hmem
    | some f =>
      refine (fileclose_uses f).bind (own.set fd none).tokens (tokens_set_none hf) fun _ => ?_
      rw [zero_add]
      refine ih (own.set fd none) fun g hg => ?_
      by_cases hgf : g = fd
      · subst hgf
        simp [Own.set] at hg
      · rcases List.mem_cons.mp (hown g (by simpa [Own.set, hgf] using hg)) with rfl | hmem
        · exact absurd rfl hgf
        · exact hmem

lemma kexit_uses (own : Own) :
    (kexit own).Uses (FileSpec p) ({self p} + own.tokens) fun _ => 0 := by
  have hclose := (closeFiles_follows (p := p) (List.finRange NOFILE) own fun fd _ =>
    List.mem_finRange fd).frame {self p}
  rw [add_comm] at hclose
  refine hclose.bind ?_
  rintro own' _ ⟨_, rfl, rfl⟩
  refine (iput_uses own'.cwd).bind {self p} rfl fun _ => ?_
  exact (sec_uses .exit).last 0 (by simp) fun _ => rfl

lemma andFinish_uses {own : Own} {call : Prog (ℤ × Own)}
    (h : call.Uses (FileSpec p) own.tokens fun r => r.2.tokens) :
    (andFinish call).Uses (FileSpec p) ({self p} + own.tokens) fun _ => 0 := by
  refine h.bind {self p} (add_comm ..) fun r => ?_
  exact (sec_uses (.finish r.2)).last 0 (by simp [add_comm]) fun _ => rfl

/-- Every call ends with all its tokens put back or given up. -/
theorem prog_uses (own : Own) (c : Call) :
    (c.prog own).Uses (FileSpec p) ({self p} + own.tokens) fun _ => 0 := by
  cases c with
  | openPath absolute len creates rdonly readable writable =>
    exact andFinish_uses (sysOpen_uses own absolute len creates rdonly readable writable)
  | dup fd => exact andFinish_uses (sysDup_uses own fd)
  | close fd => exact andFinish_uses (sysClose_uses own fd)
  | pipe => exact andFinish_uses (sysPipe_uses own)
  | fork => exact andFinish_uses (kfork_uses own)
  | exit => exact kexit_uses own

/-! ## All processes -/

lemma init_balance {s : Tables} (h : fileSystem.init s) : TablesInv s ∧ ∀ t, s.balance t = 0 := by
  obtain ⟨hfile, hpipe, hbusy, hrel, q, i, hlive, hunused, hown, hroot, hinode⟩ := h
  have hrest : ∀ r, s.restTokens r = if r = q then {inode i} else 0 := by
    intro r
    by_cases hr : r = q
    · subst hr
      simp [Tables.restTokens, hlive, hbusy, hown, tokens]
    · simp [Tables.restTokens, hunused r hr, hr]
  have href : ∀ j, (s.inode j).ref = if j = i then 1 else 0 := by
    intro j
    by_cases hj : j = i
    · subst hj
      simp [hroot]
    · simp [hinode j hj, hj]
  have hlock : ∀ j, (s.inode j).lock = none := by
    intro j
    by_cases hj : j = i
    · subst hj
      simp [hroot]
    · simp [hinode j hj]
  have hlife : ∀ r, s.life r ≠ .used := by
    intro r
    by_cases hr : r = q
    · subst hr
      simp [hlive]
    · simp [hunused r hr]
  refine ⟨⟨fun {f} hf => ?_, fun {f} _ => ?_, fun {j k} hj hk _ _ => ?_, fun {r} hr => ?_,
    fun pi => ?_⟩, fun t => ?_⟩
  · simp [hfile f] at hf
  · simp [hfile f]
  · rw [href] at hj hk
    split_ifs at hj hk with h1 h2
    · rw [h1, h2]
    all_goals omega
  · simp [hbusy r] at hr
  · simp [hpipe pi]
  · have hstored : s.stored t = (({inode i} : Multiset Token).count t : ℤ) := by
      simp only [Tables.stored, hfile, hrest]
      simp [File.tokens, apply_ite (fun m : Multiset Token => (m.count t : ℤ)), Finset.sum_ite_eq']
    rw [Tables.balance, hstored]
    cases t with
    | inode j => simp [Tables.supply, href, Multiset.count_singleton]
    | _ => simp [Tables.supply, hfile, hpipe, hbusy, hrel, hlock, hlife]

/-- A process that begins a call takes its references with it. -/
theorem enter_settles {s s' : Tables} {a : Answer} {prog : Prog Unit} (hinv : TablesInv s)
    (h : s.enter p a = some (prog, s')) :
    TablesInv s' ∧ ∃ need, (∀ t, s'.balance t = s.balance t + need.count t) ∧
      prog.Uses (FileSpec p) need fun _ => 0 := by
  cases a with
  | call c =>
    dsimp only [Tables.enter] at h
    split_ifs at h with hlive
    cases h
    have hchange : ChangesProc s { s with busy := update s.busy p true } p :=
      ⟨rfl, rfl, rfl, rfl, rfl, fun q hq => ⟨rfl, update_of_ne hq .., rfl⟩⟩
    obtain ⟨hinv', hsettles⟩ : _ ∧ Settles s 0 _ ({self p} + (s.own p).tokens) :=
      hchange.settles hinv (fun _ => hlive.1) fun t => by
        rw [count_add]
        simp [Tables.procWorth_eq, Tables.restTokens, hlive]
    refine ⟨hinv', {self p} + (s.own p).tokens, fun t => ?_, prog_uses (s.own p) c⟩
    simpa using hsettles t
  | _ => cases h

lemma fileLogic : TokenLogic fileSystem FileSpec Tables.balance TablesInv RefPanic where
  init := init_balance
  enter := enter_settles
  act := act_settles
  panic := act_not_panic

/-! ## Between calls -/

section Between

variable {s : Tables}

lemma count_slotTokens (x : Option FileId) (f : FileId) :
    (slotTokens x).count (file f) = if x = some f then 1 else 0 := by
  cases x with
  | none => simp
  | some g => simp [Multiset.count_singleton, eq_comm]

lemma count_file_tokens (own : Own) (f : FileId) :
    own.tokens.count (file f) = ∑ fd, if own.ofile fd = some f then 1 else 0 := by
  rw [tokens, count_add, count_sum']
  simp [count_slotTokens]

lemma count_inode_tokens (own : Own) (i : InodeId) :
    own.tokens.count (inode i) = if own.cwd = i then 1 else 0 := by
  have hslot : ∀ fd, (slotTokens (own.ofile fd)).count (inode i) = 0 := by
    intro fd
    cases own.ofile fd <;> simp
  rw [tokens, count_add, count_sum']
  simp [hslot, Multiset.count_singleton, eq_comm]

lemma stored_file (hbusy : ∀ p, s.busy p = false) (f : FileId) :
    s.stored (file f) = ((Finset.univ.filter fun x : ProcId × Fd =>
      s.life x.1 = .live ∧ (s.own x.1).ofile x.2 = some f).card : ℤ) := by
  have hfiles : ∀ g, ((s.file g).tokens g).count (file f) = 0 := by
    intro g
    unfold File.tokens
    split <;> simp
  have hrest : ∀ p, (s.restTokens p).count (file f) =
      ∑ fd, if s.life p = .live ∧ (s.own p).ofile fd = some f then 1 else 0 := by
    intro p
    by_cases hp : s.life p = .live
    · simp only [Tables.restTokens, hp, hbusy, and_self, if_true, count_file_tokens, true_and]
    · simp [Tables.restTokens, hp]
  simp only [Tables.stored, hfiles, hrest, Nat.cast_zero, Finset.sum_const_zero, zero_add]
  rw [Finset.card_filter, ← Finset.univ_product_univ, Finset.sum_product]
  push_cast
  rfl

lemma stored_inode (hbusy : ∀ p, s.busy p = false) (i : InodeId) :
    s.stored (inode i) =
      ((Finset.univ.filter fun f => (s.file f).type = .inode i ∨ (s.file f).type = .device i).card +
      (Finset.univ.filter fun p => s.life p = .live ∧ (s.own p).cwd = i).card : ℤ) := by
  have hfiles : ∀ f, ((s.file f).tokens f).count (inode i) =
      if (s.file f).type = .inode i ∨ (s.file f).type = .device i then 1 else 0 := by
    intro f
    unfold File.tokens
    cases (s.file f).type <;> simp [Multiset.count_cons, eq_comm]
  have hrest : ∀ p, (s.restTokens p).count (inode i) =
      if s.life p = .live ∧ (s.own p).cwd = i then 1 else 0 := by
    intro p
    by_cases hp : s.life p = .live
    · simp only [Tables.restTokens, hp, hbusy, and_self, if_true, count_inode_tokens, true_and]
    · simp [Tables.restTokens, hp]
  simp only [Tables.stored, hfiles, hrest, Finset.card_filter, Nat.cast_sum]

/-- A token that neither descriptors nor current directories hold is held by open files. -/
theorem stored_eq (t : Token) (hown : ∀ own : Own, own.tokens.count t = 0) :
    s.stored t = ∑ f, (((s.file f).tokens f).count t : ℤ) := by
  have hrest : ∀ p, (s.restTokens p).count t = 0 := by
    intro p
    unfold Tables.restTokens
    split_ifs
    · exact hown _
    · simp
  simp [Tables.stored, hrest]

lemma count_tokens_eq_zero {t : Token} (hfile : ∀ f, t ≠ file f) (hinode : ∀ i, t ≠ inode i)
    (own : Own) : own.tokens.count t = 0 := by
  have hslot : ∀ fd, (slotTokens (own.ofile fd)).count t = 0 := by
    intro fd
    cases own.ofile fd <;> simp [hfile]
  rw [tokens, count_add, count_sum']
  simp [hslot, hinode]

lemma supply_pipe_pos (h : ∀ t, s.balance t = 0) (pi : ℕ) (w : Bool) :
    1 ≤ s.supply (pipe pi w) ↔ ∃ f, (s.file f).type = .pipe pi ∧ (s.file f).writable = w := by
  have hcount : ∀ f, ((s.file f).tokens f).count (pipe pi w) =
      if (s.file f).type = .pipe pi ∧ (s.file f).writable = w then 1 else 0 := by
    intro f
    unfold File.tokens
    cases (s.file f).type <;> simp [Multiset.count_cons, eq_comm]
  have hstored := stored_eq (s := s) (pipe pi w) (count_tokens_eq_zero (by simp) (by simp))
  have hzero := h (pipe pi w)
  simp only [hcount] at hstored
  rw [Tables.balance, hstored] at hzero
  rw [sub_eq_zero.mp hzero]
  constructor
  · intro hpos
    by_contra hnone
    push Not at hnone
    have : ∀ f, ¬((s.file f).type = .pipe pi ∧ (s.file f).writable = w) := fun f hf =>
      hnone f hf.1 hf.2
    simp [this] at hpos
  · rintro ⟨f, hf⟩
    have hle := Finset.single_le_sum (f := fun f =>
      ((if (s.file f).type = .pipe pi ∧ (s.file f).writable = w then 1 else 0 : ℕ) : ℤ))
      (fun g _ => Int.natCast_nonneg _) (Finset.mem_univ f)
    rw [if_pos hf] at hle
    exact hle

/-- What an entry was given and has not released is what it has. -/
theorem gained_eq (h : ∀ t, s.balance t = 0) {f : FileId} (hf : (s.file f).type = .none) :
    s.gained f = s.released f := by
  have hcount : ∀ g, ((s.file g).tokens g).count (duty f) =
      if (s.file g).type ≠ .none ∧ g = f then 1 else 0 := by
    intro g
    unfold File.tokens
    cases (s.file g).type <;> simp [Multiset.count_singleton, eq_comm]
  have hstored := stored_eq (s := s) (duty f) (count_tokens_eq_zero (by simp) (by simp))
  have hzero := h (duty f)
  have hsum : ∀ g, ¬((s.file g).type ≠ .none ∧ g = f) := by
    rintro g ⟨hg, rfl⟩
    exact hg hf
  simp only [hcount, hsum, if_false] at hstored
  rw [Tables.balance, hstored] at hzero
  simp only [Tables.supply, Nat.cast_zero, Finset.sum_const_zero, sub_zero] at hzero
  omega

end Between

/-! ## Exact counts -/

/-- What holds of the tables when no call is in progress. -/
structure Exact (s : Tables) : Prop where
  /-- The reference count of a file is the number of descriptors that refer to it. -/
  file_ref : ∀ f, (s.file f).ref = ((Finset.univ.filter fun x : ProcId × Fd =>
    s.life x.1 = .live ∧ (s.own x.1).ofile x.2 = some f).card : ℤ)
  /-- A free entry of the file table has released all that it was given, once each. -/
  released : ∀ f, (s.file f).ref = 0 → (s.file f).type = .none ∧ s.gained f = s.released f
  /-- An end of a pipe is open as long as an open file has it. -/
  readopen : ∀ pi, (s.pipe pi).readopen = true ↔
    ∃ f, 0 < (s.file f).ref ∧ (s.file f).type = .pipe pi ∧ (s.file f).writable = false
  writeopen : ∀ pi, (s.pipe pi).writeopen = true ↔
    ∃ f, 0 < (s.file f).ref ∧ (s.file f).type = .pipe pi ∧ (s.file f).writable = true
  /-- A pipe is freed when both ends are closed. -/
  allocated : ∀ pi, (s.pipe pi).allocated = ((s.pipe pi).readopen || (s.pipe pi).writeopen)
  /-- The reference count of an inode is the number of open files and current directories that
  hold it. -/
  inode_ref : ∀ i, (s.inode i).ref =
    ((Finset.univ.filter fun f => 0 < (s.file f).ref ∧
      ((s.file f).type = .inode i ∨ (s.file f).type = .device i)).card +
    (Finset.univ.filter fun p => s.life p = .live ∧ (s.own p).cwd = i).card : ℤ)

lemma exact_of_balance {s : Tables} (hinv : TablesInv s) (h : ∀ t, s.balance t = 0) :
    Exact s := by
  have hsupply : ∀ t, s.supply t = s.stored t := fun t => sub_eq_zero.mp (h t)
  have hbusy : ∀ p, s.busy p = false := by
    intro p
    have hself := hsupply (self p)
    rw [stored_eq _ (count_tokens_eq_zero (by simp) (by simp))] at hself
    have hcount : ∀ f, ((s.file f).tokens f).count (self p) = 0 := by
      intro f
      unfold File.tokens
      cases (s.file f).type <;> simp
    simp only [Tables.supply, hcount, Nat.cast_zero, Finset.sum_const_zero] at hself
    by_contra hb
    simp [hb] at hself
  -- a file that has an inode or a pipe end is in use
  have huse : ∀ f, (s.file f).type ≠ .none → 0 < (s.file f).ref := fun f => hinv.inUse
  have hnew : ∀ f, (s.file f).type = .none → (s.file f).ref = 0 := by
    intro f hf
    have hs := hsupply (new f)
    rw [stored_eq _ (count_tokens_eq_zero (by simp) (by simp))] at hs
    have hcount : ∀ g, ((s.file g).tokens g).count (new f) = 0 := by
      intro g
      unfold File.tokens
      cases (s.file g).type <;> simp
    simpa [Tables.supply, hcount, hf] using hs
  refine ⟨fun f => ?_, fun f hf => ?_, fun pi => ?_, fun pi => ?_, hinv.page, fun i => ?_⟩
  · have hs := (hsupply (file f)).trans (stored_file hbusy f)
    rw [← hs]
    by_cases hf : (s.file f).type = .none
    · rw [hnew f hf]
      exact (if_pos hf).symm
    · exact (if_neg hf).symm
  · have htype : (s.file f).type = .none := by
      by_contra htype
      have := huse f htype
      omega
    exact ⟨htype, gained_eq h htype⟩
  · have hiff := supply_pipe_pos h pi false
    simp only [Tables.supply, Bool.false_eq_true, if_false] at hiff
    refine Iff.trans ?_ (hiff.trans (exists_congr fun f => ?_))
    · cases (s.pipe pi).readopen <;> simp
    · exact ⟨fun hf => ⟨huse f (by rw [hf.1]; simp), hf⟩, fun hf => hf.2⟩
  · have hiff := supply_pipe_pos h pi true
    simp only [Tables.supply, if_true] at hiff
    refine Iff.trans ?_ (hiff.trans (exists_congr fun f => ?_))
    · cases (s.pipe pi).writeopen <;> simp
    · exact ⟨fun hf => ⟨huse f (by rw [hf.1]; simp), hf⟩, fun hf => hf.2⟩
  · have hs := (hsupply (inode i)).trans (stored_inode hbusy i)
    have hopen : ∀ f, ((s.file f).type = .inode i ∨ (s.file f).type = .device i) ↔
        0 < (s.file f).ref ∧ ((s.file f).type = .inode i ∨ (s.file f).type = .device i) := by
      intro f
      refine ⟨fun hf => ⟨huse f ?_, hf⟩, fun hf => hf.2⟩
      rcases hf with hf | hf <;> rw [hf] <;> simp
    simp only [← hopen]
    exact hs

/-- In every run of any number of processes, the counts are exact whenever no call is in progress,
no two entries of the inode table in use are for the same inode, and the panics of `filedup`,
`fileclose` and `iunlock` do not happen. -/
theorem file_references {P : Pool Tables ProcId Sec Sec.Res}
    (h : fileSystem.toTransitionSystem.Reachable P) :
    ((∀ p, P.prog p = none) → Exact P.shared) ∧
    (∀ i j, 0 < (P.shared.inode i).ref → 0 < (P.shared.inode j).ref →
      (P.shared.inode i).dev = (P.shared.inode j).dev →
      (P.shared.inode i).inum = (P.shared.inode j).inum → i = j) ∧
    ∀ msg, P.panic = some msg → msg ≠ "filedup" ∧ msg ≠ "fileclose" ∧ msg ≠ "iunlock" := by
  obtain ⟨hinv, ⟨held, hheld⟩, hbad⟩ := fileLogic.ledger h
  refine ⟨fun hidle => exact_of_balance hinv fun t => ?_, fun i j => hinv.unique,
    fun msg hmsg => by simpa [RefPanic] using hbad msg hmsg⟩
  rw [hheld.balance_eq]
  refine Finset.sum_eq_zero fun p _ => ?_
  rw [hheld.idle (hidle p)]
  simp

/-- The first process. -/
def initProc : ProcId := ⟨0, nproc_pos⟩

/-- Its child. -/
def childProc : ProcId := ⟨1, one_lt_nproc⟩

/-- The first entry of the inode table. -/
def rootEntry : InodeId := ⟨0, by decide⟩

/-- The tables after the boot. -/
def bootTables : Tables where
  file _ := {}
  inode i := if i = rootEntry then { dev := ROOTDEV, inum := ROOTINO, ref := 1 } else {}
  pipe _ := {}
  life p := if p = initProc then .live else .unused
  own _ := ⟨fun _ => none, rootEntry⟩
  busy _ := false
  gained _ := 0
  released _ := 0

/-- The first process opens a file by its absolute path, makes a pipe and forks; its child closes
the read end and exits. -/
def openForkExit : List (ProcId × Answer) :=
  ([.call (.openPath true 1 false true true false), .yes false, .go, .yes true, .yes true,
    .found (some 5), .go, .go, .yes false, .yes true, .yes false, .yes false, .yes false, .go, .go,
    .go, .go].map fun a => (initProc, a)) ++
  ([.call .pipe, .go, .go, .page (some 9), .go, .go, .yes false, .go, .go].map
    fun a => (initProc, a)) ++
  ([.call .fork, .yes true, .yes true, .go, .go, .go, .go, .go, .go, .go].map
    fun a => (initProc, a)) ++
  [(childProc, .call (.close 1)), (childProc, .go), (childProc, .go), (childProc, .go),
    (childProc, .call .exit), (childProc, .go), (childProc, .go), (childProc, .yes false),
    (childProc, .go), (childProc, .go)]

/-- After the run `openForkExit` no call is in progress; the pipe and two inodes are in use. -/
theorem file_references_fork :
    ∃ P : Pool Tables ProcId Sec Sec.Res, fileSystem.toTransitionSystem.Reachable P ∧
      (∀ p, P.prog p = none) ∧ (P.shared.pipe 9).allocated = true ∧
      (P.shared.inode rootEntry).ref = 1 ∧ Exact P.shared := by
  have hrun : (openForkExit.foldlM (fun P l => fileSystem.exec P l.1 l.2)
      ⟨bootTables, fun _ => none, none⟩).any fun P => (∀ p, (P.prog p).isNone) ∧
        (P.shared.pipe 9).allocated = true ∧ (P.shared.inode rootEntry).ref = 1 := by
    decide +kernel
  have hinit : fileSystem.init bootTables :=
    ⟨fun _ => rfl, fun _ => rfl, fun _ => rfl, fun _ => ⟨rfl, rfl⟩, initProc, rootEntry, rfl,
      fun q hq => if_neg hq, rfl, rfl, fun j hj => if_neg hj⟩
  have hboot : fileSystem.toTransitionSystem.Reachable ⟨bootTables, fun _ => none, none⟩ :=
    .init ⟨hinit, fun _ => rfl, rfl⟩
  obtain ⟨P, hreach, hidle, hpipe, hroot⟩ := hboot.exists_of_foldlM (fun _ _ _ => id) hrun
  have hidle : ∀ p, P.prog p = none := fun p => isNone_iff_eq_none.mp (hidle p)
  exact ⟨P, hreach, hidle, hpipe, hroot, (file_references hreach).1 hidle⟩

end Xv6.Files
