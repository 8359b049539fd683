import Mathlib

/-!
# The regular-expression matcher of grep

`match`, `matchhere` and `matchstar` of `user/grep.c`, compared with the languages that patterns
denote. A C string is the list of the characters before its terminating NUL, so that `*text == '\0'`
is an empty list. The functions terminate on every pattern and text, and `grepMatch_iff` says what
`match` answers.
-/

namespace Xv6.Grep

open Language Computability List

/-! ## The code -/

mutual

/-- Search for `re` at the beginning of `text`. -/
def matchhere (re text : List Char) : Bool :=
  match re with
  | [] => true
  | c :: re =>
    if re.head? = some '*' then matchstar c re.tail text
    else if c = '$' ∧ re = [] then text = []
    else
      match text with
      | [] => false
      | t :: text => (c = '.' ∨ c = t) && matchhere re text
termination_by (re.length, text.length, 0)
decreasing_by all_goals grind

/-- Search for `c*re` at the beginning of `text`; a turn of the loop for each character passed. -/
def matchstar (c : Char) (re text : List Char) : Bool :=
  matchhere re text ||
    match text with
    | [] => false
    | t :: text => (t = c ∨ c = '.') && matchstar c re text
termination_by (re.length, text.length, 1)

end

/-- The loop of `match`, which looks at every suffix of the text and last at the empty one. -/
def matchLoop (re : List Char) : List Char → Bool
  | [] => matchhere re []
  | t :: text => matchhere re (t :: text) || matchLoop re text

/-- The function `match`. -/
def grepMatch (re text : List Char) : Bool :=
  if re.head? = some '^' then matchhere re.tail text else matchLoop re text

/-! ## The meaning of a pattern -/

/-- A character of a pattern stands for itself, and `.` for every character. -/
def single (c : Char) : Language Char := {w | ∃ t, w = [t] ∧ (c = '.' ∨ c = t)}

/-- The language of a pattern without anchors: each character, repeated where a `*` follows it. -/
def denotes : List Char → Language Char
  | [] => 1
  | c :: '*' :: re => (single c)∗ * denotes re
  | c :: re => single c * denotes re

/-- A pattern without a final `$`. -/
def withoutEnd (re : List Char) : List Char :=
  if re.getLast? = some '$' then re.dropLast else re

/-- A pattern without its anchors. -/
def body (re : List Char) : List Char :=
  withoutEnd (if re.head? = some '^' then re.tail else re)

/-- What may stand beside the matched part: nothing on the side of an anchor. -/
def beside (anchored : Prop) : Language Char := {w | anchored → w = []}

@[simp]
lemma mem_beside (p : Prop) (w : List Char) : w ∈ beside p ↔ (p → w = []) := Iff.rfl

/-! ## The loops -/

lemma mem_single_mul (c : Char) (L : Language Char) (text : List Char) :
    text ∈ single c * L ↔ ∃ t rest, text = t :: rest ∧ (c = '.' ∨ c = t) ∧ rest ∈ L := by
  rw [mem_mul]
  constructor
  · rintro ⟨_, ⟨t, rfl, ht⟩, rest, hrest, rfl⟩
    exact ⟨t, rest, rfl, ht, hrest⟩
  · rintro ⟨t, rest, rfl, ht, hrest⟩
    exact ⟨[t], ⟨t, rfl, ht⟩, rest, hrest, rfl⟩

/-- `matchstar` tries every split of the text behind characters that `c` stands for. -/
lemma matchstar_iff (c : Char) {re : List Char} {K : Language Char}
    (hK : ∀ text, matchhere re text = true ↔ text ∈ K) (text : List Char) :
    matchstar c re text = true ↔ text ∈ (single c)∗ * K := by
  -- one turn of the loop is one unfolding of the star
  have hturn : (single c)∗ * K = K + single c * ((single c)∗ * K) := by
    rw [← mul_assoc, ← one_add_mul, one_add_self_mul_kstar_eq_kstar]
  induction text with
  | nil =>
    rw [hturn, mem_add, mem_single_mul]
    simp [matchstar, hK]
  | cons t text ih =>
    rw [hturn, mem_add, mem_single_mul, matchstar.eq_def]
    simp only [Bool.or_eq_true, hK, Bool.and_eq_true, ih, decide_eq_true_eq]
    grind

/-- `matchhere` looks for the language of the pattern at the beginning of the text, and for its end
behind it where the pattern ends with the anchor. -/
lemma matchhere_append (anchored : Bool) (re text : List Char)
    (hend : anchored = false → re.getLast? ≠ some '$') :
    matchhere (re ++ if anchored then ['$'] else []) text = true ↔
      text ∈ denotes re * beside anchored := by
  induction re using denotes.induct generalizing text with
  | case1 =>
    rw [denotes, one_mul]
    cases anchored <;> simp [matchhere.eq_def]
  | case2 c re ih =>
    rw [denotes, mul_assoc, ← matchstar_iff c fun text => ih text (by grind), matchhere.eq_def]
    simp
  | case3 c re hstar ih =>
    -- neither a star nor the anchor stands at this place
    have hhead : (re ++ if anchored then ['$'] else []).head? ≠ some '*' := by
      cases re <;> cases anchored <;> simp_all
    have hlast : ¬ (c = '$' ∧ (re ++ if anchored then ['$'] else []) = []) := by grind
    rw [denotes, mul_assoc, mem_single_mul, cons_append, matchhere.eq_def]
    · dsimp only
      rw [if_neg hhead, if_neg hlast]
      have hre := fun text => ih text (by grind)
      cases text <;> simp [hre]
    · exact hstar

lemma matchhere_iff (re text : List Char) : matchhere re text = true ↔
    text ∈ denotes (withoutEnd re) * beside (re.getLast? = some '$') := by
  rw [withoutEnd]
  split_ifs with hend
  · have hre := matchhere_append true re.dropLast text nofun
    simpa [dropLast_append_getLast? _ hend, hend] using hre
  · have hre := matchhere_append false re text fun _ => hend
    simpa [hend] using hre

/-- The loop of `match` leaves out any string at the beginning. -/
lemma matchLoop_iff {re : List Char} {K : Language Char}
    (hK : ∀ text, matchhere re text = true ↔ text ∈ K) (text : List Char) :
    matchLoop re text = true ↔ text ∈ beside False * K := by
  rw [mem_mul]
  induction text with
  | nil => simp [matchLoop, hK]
  | cons t text ih =>
    rw [matchLoop, Bool.or_eq_true, ih, hK]
    constructor
    · rintro (h | ⟨pre, -, rest, h, rfl⟩)
      · exact ⟨[], nofun, _, h, rfl⟩
      · exact ⟨t :: pre, nofun, rest, h, rfl⟩
    · rintro ⟨_ | ⟨_, pre⟩, -, rest, h, heq⟩
      · exact .inl (heq ▸ h)
      · exact .inr ⟨pre, nofun, rest, h, (cons.inj heq).2⟩

/-- `match` accepts a text exactly when a part of it is in the language of the pattern, with nothing
before that part if the pattern has a leading `^`, and nothing behind it if it has a final `$`. -/
theorem grepMatch_iff (re text : List Char) :
    grepMatch re text = true ↔ text ∈ beside (re.head? = some '^') * denotes (body re) *
      beside (re.getLast? = some '$') := by
  rw [grepMatch, body, mul_assoc]
  split_ifs with hstart
  · have hlast : re.getLast? = some '$' ↔ re.tail.getLast? = some '$' := by
      rcases re with _ | ⟨_, _ | _⟩ <;> simp_all
    have hone : beside (re.head? = some '^') = 1 := by
      ext w
      simp [hstart, mem_one]
    rw [matchhere_iff, hone, one_mul, hlast]
  · simp only [hstart, matchLoop_iff (matchhere_iff re)]

end Xv6.Grep
