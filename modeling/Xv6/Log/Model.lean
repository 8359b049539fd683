import Xv6.Param

/-!
# The redo log

Model of `kernel/log.c` over the block cache of `kernel/bio.c`. The header block holds the
`struct logheader` as little-endian 32-bit words: word 0 is `n` and word `i + 1` is `block[i]`.
`write_head` writes only the words it needs and keeps the rest of the buffer, so a header carries
stale entries of an earlier, longer transaction.

Each loop of the source is a body (`writeLogBody`, `installBody`) with exactly one disk write, so
that a crash can be placed between any two writes. The functions of the source run these bodies
to completion.
-/

namespace Xv6.Log

open Function

/-! ## Words of a block -/

/-- The 32-bit word at index `k` of a block, little endian. -/
def getWord (b : Block) (k : ℕ) : BitVec 32 :=
  let byte (j : ℕ) : ℕ := if h : 4 * k + j < BSIZE then (b ⟨4 * k + j, h⟩).toNat else 0
  BitVec.ofNat 32 (byte 0 + 256 * byte 1 + 65536 * byte 2 + 16777216 * byte 3)

/-- Store a 32-bit word at index `k` of a block. -/
def setWord (b : Block) (k : ℕ) (w : BitVec 32) : Block := fun j =>
  if j.val / 4 = k then UInt8.ofNat (w.toNat / 256 ^ (j.val % 4)) else b j

private lemma setWord_byte (b : Block) {k j : ℕ} (hj : j < 4) (h : 4 * k + j < BSIZE)
    (w : BitVec 32) : (setWord b k w ⟨4 * k + j, h⟩).toNat = w.toNat / 256 ^ j % 256 := by
  have hdiv : (4 * k + j) / 4 = k := by omega
  have hmod : (4 * k + j) % 4 = j := by omega
  simp [setWord, hdiv, hmod]

lemma getWord_setWord_self (b : Block) {k : ℕ} (hk : k < 256) (w : BitVec 32) :
    getWord (setWord b k w) k = w := by
  have hlt : ∀ j < 4, 4 * k + j < BSIZE := by
    intro j hj
    simp only [BSIZE]
    omega
  unfold getWord
  simp only [hlt 0 (by omega), hlt 1 (by omega), hlt 2 (by omega), hlt 3 (by omega), dif_pos]
  rw [setWord_byte b (by omega), setWord_byte b (by omega), setWord_byte b (by omega),
    setWord_byte b (by omega)]
  apply BitVec.eq_of_toNat_eq
  have hw := w.isLt
  rw [BitVec.toNat_ofNat]
  omega

lemma getWord_setWord_of_ne (b : Block) {k k' : ℕ} (hne : k' ≠ k) (w : BitVec 32) :
    getWord (setWord b k w) k' = getWord b k' := by
  have hbyte : ∀ j < 4, ∀ h : 4 * k' + j < BSIZE,
      setWord b k w ⟨4 * k' + j, h⟩ = b ⟨4 * k' + j, h⟩ := by
    intro j hj h
    have hdiv : (4 * k' + j) / 4 ≠ k := by omega
    simp [setWord, hdiv]
  unfold getWord
  simp +contextual only [hbyte 0 (by omega), hbyte 1 (by omega), hbyte 2 (by omega),
    hbyte 3 (by omega)]

/-! ## The header -/

/-- `struct logheader`. -/
structure LogHeader where
  /-- The number of logged blocks, a signed `int`. -/
  n : BitVec 32
  /-- The block numbers, of which the first `n` are meaningful. -/
  block : ℕ → BitVec 32

/-- The number of iterations of a loop `for (tail = 0; tail < lh.n; tail++)`. -/
def LogHeader.count (lh : LogHeader) : ℕ := lh.n.toInt.toNat

theorem LogHeader.count_zero {lh : LogHeader} (hn : lh.n = 0) : lh.count = 0 := by
  unfold count
  rw [hn]
  rfl

/-- The block number passed to `bread`. -/
def LogHeader.blockno (lh : LogHeader) (i : ℕ) : ℕ := (lh.block i).toNat

/-- `lh->n` of a header block. -/
def headerCount (b : Block) : ℕ := (getWord b 0).toInt.toNat

/-- The loop of `read_head`: the first `n` words after the count are copied. -/
def readEntries (b : Block) (n : ℕ) (block : ℕ → BitVec 32) : ℕ → BitVec 32 := fun i =>
  if i < n then getWord b (i + 1) else block i

/-- The loop of `write_head`. -/
def writeEntries (lh : LogHeader) (n : ℕ) (b : Block) : Block :=
  (List.range n).foldl (fun b i => setWord b (i + 1) (lh.block i)) b

/-- The header block that `write_head` writes over the buffer `b`. -/
def encodeHeader (lh : LogHeader) (b : Block) : Block :=
  writeEntries lh lh.count (setWord b 0 lh.n)

lemma getWord_writeEntries (lh : LogHeader) {n : ℕ} (hn : n ≤ LOGBLOCKS) (b : Block) (k : ℕ) :
    getWord (writeEntries lh n b) k =
      if 1 ≤ k ∧ k ≤ n then lh.block (k - 1) else getWord b k := by
  induction n with
  | zero =>
    have hk : ¬(1 ≤ k ∧ k ≤ 0) := by omega
    rw [if_neg hk]
    rfl
  | succ n ih =>
    have hsucc : writeEntries lh (n + 1) b =
        setWord (writeEntries lh n b) (n + 1) (lh.block n) := by
      simp [writeEntries, List.range_succ]
    have hlog : LOGBLOCKS = 30 := rfl
    rw [hsucc]
    by_cases hk : k = n + 1
    · subst hk
      rw [getWord_setWord_self _ (by omega), if_pos (by omega), Nat.add_sub_cancel]
    · rw [getWord_setWord_of_ne _ hk, ih (by omega)]
      exact if_congr (by omega) rfl rfl

lemma getWord_encodeHeader_zero (lh : LogHeader) (hn : lh.count ≤ LOGBLOCKS) (b : Block) :
    getWord (encodeHeader lh b) 0 = lh.n := by
  rw [encodeHeader, getWord_writeEntries lh hn, if_neg (by omega),
    getWord_setWord_self _ (by omega)]

lemma getWord_encodeHeader_succ (lh : LogHeader) (hn : lh.count ≤ LOGBLOCKS) (b : Block) {i : ℕ}
    (hi : i < lh.count) : getWord (encodeHeader lh b) (i + 1) = lh.block i := by
  rw [encodeHeader, getWord_writeEntries lh hn, if_pos (by omega), Nat.add_sub_cancel]

/-! ## The machine -/

/-- The disk, the buffer cache and the in-memory header. A block is cached when some buffer
holds it with `valid` set. -/
structure LogState where
  /-- The contents of the disk. -/
  disk : ℕ → Block
  /-- The valid buffers. -/
  cache : ℕ → Option Block
  /-- `log.lh`. -/
  lh : LogHeader

namespace LogState

/-- What `bread` returns for a block: the buffer if it is cached, the disk block otherwise. -/
def view (s : LogState) (b : ℕ) : Block := (s.cache b).getD (s.disk b)

/-- `bread`: the block read is cached afterwards. -/
def bread (s : LogState) (b : ℕ) : Block × LogState :=
  (s.view b, { s with cache := update s.cache b (some (s.view b)) })

/-- The buffer of block `b` is filled with `c` and written with `bwrite`. -/
def bwrite (s : LogState) (b : ℕ) (c : Block) : LogState :=
  { s with
    disk := update s.disk b c
    cache := update s.cache b (some c) }

@[simp]
lemma bread_disk (s : LogState) (b : ℕ) : (s.bread b).2.disk = s.disk := rfl

@[simp]
lemma bwrite_disk (s : LogState) (b : ℕ) (c : Block) :
    (s.bwrite b c).disk = update s.disk b c := rfl

@[simp]
lemma bread_view (s : LogState) (b : ℕ) : (s.bread b).2.view = s.view := by
  funext b'
  by_cases h : b' = b
  · subst h
    simp [bread, view]
  · simp [bread, view, h]

@[simp]
lemma bwrite_view (s : LogState) (b : ℕ) (c : Block) :
    (s.bwrite b c).view = update s.view b c := by
  funext b'
  by_cases h : b' = b
  · subst h
    simp [bwrite, view]
  · simp [bwrite, view, h]

end LogState

variable (start : ℕ)

/-- One iteration of `write_log`. -/
def writeLogBody (tail : ℕ) (s : LogState) : LogState :=
  let (_, s) := s.bread (start + tail + 1)
  let (src, s) := s.bread (s.lh.blockno tail)
  s.bwrite (start + tail + 1) src

/-- One iteration of `install_trans`. -/
def installBody (tail : ℕ) (s : LogState) : LogState :=
  let (lbuf, s) := s.bread (start + tail + 1)
  let (_, s) := s.bread (s.lh.blockno tail)
  s.bwrite (s.lh.blockno tail) lbuf

/-- `read_head`. -/
def readHead (s : LogState) : LogState :=
  let (buf, s) := s.bread start
  { s with lh := { n := getWord buf 0, block := readEntries buf (headerCount buf) s.lh.block } }

/-- `write_head`. -/
def writeHead (s : LogState) : LogState :=
  let (buf, s) := s.bread start
  s.bwrite start (encodeHeader s.lh buf)

/-- `log.lh.n = 0`. -/
def clearCount (s : LogState) : LogState := { s with lh := { s.lh with n := 0 } }

/-- `write_log`. -/
def writeLog (s : LogState) : LogState :=
  (List.range s.lh.count).foldl (fun s tail => writeLogBody start tail s) s

/-- `install_trans`. The pins it drops are not part of this state. -/
def installTrans (s : LogState) : LogState :=
  (List.range s.lh.count).foldl (fun s tail => installBody start tail s) s

/-- `commit`. -/
def commit (s : LogState) : LogState :=
  if 0 < s.lh.count then
    writeHead start (clearCount (installTrans start (writeHead start (writeLog start s))))
  else s

/-- `recover_from_log`. -/
def recoverFromLog (s : LogState) : LogState :=
  writeHead start (clearCount (installTrans start (readHead start s)))

/-! ## What the bodies do to the disk and to what is read -/

private lemma writeLogBody_eq (tail : ℕ) (s : LogState) : writeLogBody start tail s =
    ((s.bread (start + tail + 1)).2.bread (s.lh.blockno tail)).2.bwrite (start + tail + 1)
      (s.view (s.lh.blockno tail)) := by
  rw [← LogState.bread_view s (start + tail + 1)]
  rfl

@[simp]
lemma writeLogBody_disk (tail : ℕ) (s : LogState) : (writeLogBody start tail s).disk =
    update s.disk (start + tail + 1) (s.view (s.lh.blockno tail)) := by
  simp [writeLogBody_eq]

@[simp]
lemma writeLogBody_view (tail : ℕ) (s : LogState) : (writeLogBody start tail s).view =
    update s.view (start + tail + 1) (s.view (s.lh.blockno tail)) := by
  simp [writeLogBody_eq]

@[simp]
lemma installBody_disk (tail : ℕ) (s : LogState) : (installBody start tail s).disk =
    update s.disk (s.lh.blockno tail) (s.view (start + tail + 1)) := rfl

@[simp]
lemma installBody_view (tail : ℕ) (s : LogState) : (installBody start tail s).view =
    update s.view (s.lh.blockno tail) (s.view (start + tail + 1)) := by
  change (((s.bread (start + tail + 1)).2.bread (s.lh.blockno tail)).2.bwrite _ _).view = _
  rw [LogState.bwrite_view, LogState.bread_view, LogState.bread_view]

@[simp]
lemma writeHead_disk (s : LogState) : (writeHead start s).disk =
    update s.disk start (encodeHeader s.lh (s.view start)) := rfl

@[simp]
lemma writeHead_view (s : LogState) : (writeHead start s).view =
    update s.view start (encodeHeader s.lh (s.view start)) := by
  change ((s.bread start).2.bwrite _ _).view = _
  rw [LogState.bwrite_view, LogState.bread_view]

@[simp]
lemma readHead_view (s : LogState) : (readHead start s).view = s.view :=
  LogState.bread_view s start

@[simp]
lemma readHead_lh (s : LogState) : (readHead start s).lh =
    { n := getWord (s.view start) 0
      block := readEntries (s.view start) (headerCount (s.view start)) s.lh.block } := rfl

end Xv6.Log
