import Xv6.User.Grep

/-!
# The lines that grep writes

The loop of `grep` reads a file in pieces into a buffer of 1024 bytes, cuts off the complete lines
and carries the rest over to the next piece. What it writes does not depend on the pieces, but it
stops at the first line that it cannot take: one without a newline, one that holds a NUL, or one
that does not fit in the buffer (`grep_eq_written`). So it writes all the lines that match exactly
when none of them stands there or behind (`grep_complete_iff`).
-/

namespace Xv6.Grep

open List

/-! ## The code -/

/-- `strchr(p, '\n')`: the characters before the newline and those behind it. -/
def strchr : List Char → Option (List Char × List Char)
  | [] => none
  | c :: s =>
    if c = '\x00' then none
    else if c = '\n' then some ([], s)
    else
      match strchr s with
      | none => none
      | some (line, rest) => some (c :: line, rest)

lemma strchr_eq {s line rest : List Char} (h : strchr s = some (line, rest)) :
    s = line ++ '\n' :: rest ∧ '\x00' ∉ line ∧ '\n' ∉ line := by
  induction s generalizing line with
  | nil => cases h
  | cons c s ih =>
    grind [strchr]

/-- The inner loop of `grep`: what is written, and what is left in the buffer. -/
def scanLines (re buf : List Char) : List Char × List Char :=
  match _h : strchr buf with
  | none => ([], buf)
  | some (line, rest) =>
    let next := scanLines re rest
    ((if grepMatch re line then line ++ ['\n'] else []) ++ next.1, next.2)
termination_by buf.length
decreasing_by
  have := congrArg length (strchr_eq _h).1
  grind

/-- The outer loop of `grep`, which returns what is written. The `i`-th call of `read` returns at
most `piece i + 1` bytes, and none at the end of the file or if there is no room for any. -/
def grepLoop (re : List Char) (piece : ℕ → ℕ) (i : ℕ) (buf file : List Char) : List Char :=
  let n := min (piece i + 1) (min (1024 - buf.length - 1) file.length)
  if n = 0 then []
  else
    let x := scanLines re (buf ++ file.take n)
    x.1 ++ grepLoop re piece (i + 1) x.2 (file.drop n)
termination_by file.length
decreasing_by
  simp
  omega

/-- The function `grep`. -/
def grep (re : List Char) (piece : ℕ → ℕ) (file : List Char) : List Char :=
  grepLoop re piece 0 [] file

/-! ## The lines of a file -/

/-- The lines of a file, each with its newline; the last one may have none. -/
def fileLines : List Char → List (List Char)
  | [] => []
  | c :: s =>
    if c = '\n' then [c] :: fileLines s
    else
      match fileLines s with
      | [] => [[c]]
      | line :: lines => (c :: line) :: lines

/-- `match` accepts the string at the beginning of the line. -/
def matchLine (re line : List Char) : Bool :=
  grepMatch re (line.takeWhile fun c => c ≠ '\n' ∧ c ≠ '\x00')

/-- The lines that match, one after another. -/
def matching (re : List Char) (lines : List (List Char)) : List Char :=
  (lines.filter (matchLine re)).flatten

/-- A line that `grep` can take: it is complete, holds no NUL and fits in the buffer. -/
def Handled (line : List Char) : Prop :=
  line.getLast? = some '\n' ∧ '\x00' ∉ line ∧ line.length ≤ 1023
  deriving Decidable

/-- What `grep` writes: the lines that match up to the first one that it cannot take. -/
def written (re file : List Char) : List Char :=
  matching re ((fileLines file).takeWhile (Handled ·))

/-! ## Cutting off lines -/

lemma fileLines_ne_nil (s : List Char) : ∀ line ∈ fileLines s, line ≠ [] := by
  induction s with
  | nil => simp [fileLines]
  | cons c s ih => grind [fileLines]

lemma strchr_append {s line rest : List Char} (h : strchr s = some (line, rest))
    (file : List Char) : strchr (s ++ file) = some (line, rest ++ file) := by
  induction s generalizing line with
  | nil => cases h
  | cons c s ih => grind [strchr]

/-- A newline that `strchr` finds only with more of the file lies behind the buffer. -/
theorem length_le_of_strchr {s file line rest : List Char} (hs : strchr s = none)
    (h : strchr (s ++ file) = some (line, rest)) : s.length ≤ line.length := by
  induction s generalizing line with
  | nil => simp
  | cons c s ih => grind [strchr]

lemma fileLines_of_strchr {s line rest : List Char} (h : strchr s = some (line, rest)) :
    fileLines s = (line ++ ['\n']) :: fileLines rest := by
  induction s generalizing line with
  | nil => cases h
  | cons c s ih => grind [strchr, fileLines]

/-- The first line of a file, if it is complete and without NUL, is the one that `strchr` finds. -/
theorem strchr_of_handled {s line : List Char} {lines : List (List Char)}
    (h : fileLines s = line :: lines) (hl : Handled line) :
    ∃ text rest, strchr s = some (text, rest) ∧ line = text ++ ['\n'] := by
  induction s generalizing line lines with
  | nil => cases h
  | cons c s ih =>
    obtain ⟨hend, hnul, hlen⟩ := hl
    rw [fileLines] at h
    split_ifs at h with hc
    · exact ⟨[], s, by grind [strchr], by grind⟩
    · cases hs : fileLines s with
      | nil => grind
      | cons l ls =>
        have hl : Handled l := by
          rw [hs] at h
          obtain ⟨rfl, -⟩ := cons.inj h
          rcases l with _ | ⟨d, l⟩
          · simp_all
          · exact ⟨by simpa using hend, by simp_all, by simp at hlen ⊢; omega⟩
        obtain ⟨text, rest, hs', rfl⟩ := ih hs hl
        exact ⟨c :: text, rest, by grind [strchr], by grind⟩

lemma written_of_strchr (re : List Char) {s line rest : List Char}
    (h : strchr s = some (line, rest)) (hlen : line.length ≤ 1022) :
    written re s = (if grepMatch re line then line ++ ['\n'] else []) ++ written re rest := by
  obtain ⟨-, hnul, hnewline⟩ := strchr_eq h
  have hhandled : Handled (line ++ ['\n']) := ⟨by simp, by simpa using hnul, by simp; omega⟩
  have hmatch : matchLine re (line ++ ['\n']) = grepMatch re line := by
    rw [matchLine, takeWhile_append_of_pos (by grind)]
    simp
  rw [written, fileLines_of_strchr h]
  simp only [matching, written, takeWhile_cons, hhandled, filter_cons, hmatch, decide_true, if_true]
  split_ifs <;> simp

/-- The inner loop writes lines that match, and leaves a rest without a complete line. -/
theorem scanLines_spec (re buf : List Char) (hbuf : buf.length ≤ 1023) :
    strchr (scanLines re buf).2 = none ∧ (scanLines re buf).2.length ≤ buf.length ∧
      ∀ file, written re (buf ++ file) =
        (scanLines re buf).1 ++ written re ((scanLines re buf).2 ++ file) := by
  induction buf using scanLines.induct re with
  | case1 buf h =>
    rw [scanLines]
    split <;> simp_all
  | case2 buf line rest h ih =>
    have hlen := congrArg length (strchr_eq h).1
    simp only [length_append, length_cons] at hlen
    obtain ⟨hnone, hle, hwritten⟩ := ih (by omega)
    have hfile := fun file => written_of_strchr re (strchr_append h file) (by omega)
    rw [scanLines]
    split
    · simp_all
    · grind

/-- `grep` stops with the first line that it cannot take. -/
theorem written_eq_nil (re : List Char) {buf file : List Char} (hbuf : strchr buf = none)
    (hstop : file = [] ∨ 1023 ≤ buf.length) : written re (buf ++ file) = [] := by
  rw [written]
  cases hlines : fileLines (buf ++ file) with
  | nil => rfl
  | cons line lines =>
    have hnot : ¬ Handled line := by
      intro hl
      obtain ⟨text, rest, hs, rfl⟩ := strchr_of_handled hlines hl
      obtain rfl | hlen := hstop
      · simp_all
      · have := length_le_of_strchr hbuf hs
        have := hl.2.2
        simp at this
        omega
    simp [matching, hnot]

lemma grepLoop_eq_written (re : List Char) (piece : ℕ → ℕ) (i : ℕ) (buf file : List Char)
    (hbuf : strchr buf = none) (hlen : buf.length ≤ 1023) :
    grepLoop re piece i buf file = written re (buf ++ file) := by
  induction i, buf, file using grepLoop.induct re piece with
  | case1 i buf file n hn =>
    rw [grepLoop, if_pos hn, written_eq_nil re hbuf]
    by_cases hf : file = [] <;> grind
  | case2 i buf file n hn x ih =>
    obtain ⟨hnone, hle, hwritten⟩ := scanLines_spec re (buf ++ file.take n) (by grind)
    rw [grepLoop, if_neg hn]
    change x.1 ++ grepLoop re piece (i + 1) x.2 (file.drop n) = _
    rw [ih hnone (by grind), ← hwritten, append_assoc, take_append_drop]

lemma grep_eq_written (re : List Char) (piece : ℕ → ℕ) (file : List Char) :
    grep re piece file = written re file :=
  grepLoop_eq_written re piece 0 [] file rfl (by simp)

/-- For every pattern, every file and every way in which `read` splits it: `grep` writes the lines
that match, each once and in their order, if and only if none of them stands at or behind the first
line that has no newline, holds a NUL or is longer than 1023 characters with its newline. -/
theorem grep_complete_iff (re : List Char) (piece : ℕ → ℕ) (file : List Char) :
    grep re piece file = matching re (fileLines file) ↔
      ∀ line ∈ (fileLines file).dropWhile (Handled ·), matchLine re line = false := by
  have hsplit := takeWhile_append_dropWhile (p := (Handled ·)) (l := fileLines file)
  have hnil := fun line hline =>
    fileLines_ne_nil file line ((dropWhile_suffix (Handled ·)).subset hline)
  rw [grep_eq_written, written]
  conv_lhs => rhs; rw [← hsplit]
  simp only [matching, filter_append, flatten_append, self_eq_append_right, flatten_eq_nil_iff,
    mem_filter]
  constructor
  · intro h line hline
    by_contra hm
    exact hnil line hline (h line ⟨hline, by simpa using hm⟩)
  · intro h line ⟨hline, hm⟩
    simp [h line hline] at hm

/-- A last line without newline is not written. -/
theorem grep_drops_last_line : grep "a".toList (fun _ => 0) "a".toList ≠
    matching "a".toList (fileLines "a".toList) := by
  rw [grep_eq_written]
  simp [written, matching, fileLines, Handled, matchLine, grepMatch, matchLoop, matchhere.eq_def]

end Xv6.Grep
