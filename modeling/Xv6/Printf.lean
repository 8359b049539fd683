import Mathlib

/-!
# Number printing

`printint` of the kernel's and of the user library's `printf.c`. Both fill `char buf[20]` with the
digits, least significant first, add a `-` and print the buffer backwards. Here `buf` is the list of
the entries stored so far, so `i` is its length; a store past the twentieth entry, a digit that the
table lacks and a read of an entry never stored all give `none`.
-/

namespace Xv6.Printf

/-- `buf[i++] = c`. -/
def store (buf : List Char) (c : Char) : Option (List Char) :=
  if buf.length < 20 then some (buf ++ [c]) else none

/-- The loop `do { buf[i++] = digits[x % base]; } while((x /= base) != 0)`. -/
def digitLoop (digits : List Char) (base x : BitVec 64) (buf : List Char) : Option (List Char) :=
  if buf.length < 20 then
    digits[(x % base).toNat]?.bind fun c =>
      if x / base = 0 then some (buf ++ [c]) else digitLoop digits base (x / base) (buf ++ [c])
  else none
-- the twenty-first store would be the error above, so that the model always ends
termination_by 20 - buf.length
decreasing_by simp; omega

/-- The loop `while(--i >= 0)`, which passes `buf[i]` to `consputc` or `putc`. -/
def flush (buf : List Char) : ℕ → Option (List Char)
  | 0 => some []
  | i + 1 => do return (← buf[i]?) :: (← flush buf i)

/-- What both `printint`s do once they have the magnitude `x` and know whether a `-` is due. -/
def printMagnitude (digits : List Char) (base : BitVec 32) (x : BitVec 64) (sign : BitVec 32) :
    Option (List Char) := do
  -- `x % base` converts the `int` base to `unsigned long long`
  let buf ← digitLoop digits (base.signExtend 64) x []
  let buf ← if sign ≠ 0 then store buf '-' else some buf
  flush buf buf.length

def Kernel.digits : List Char := "0123456789abcdef".toList

/-- The kernel's `printint`; the result is what it passes to `consputc`. -/
def Kernel.printint (xx : BitVec 64) (base sign : BitVec 32) : Option (List Char) :=
  let (x, sign) :=
    if sign ≠ 0 then
      -- the assignment inside the condition
      let sign : BitVec 32 := if xx.slt 0 then 1 else 0
      if sign ≠ 0 then (-xx, sign) else (xx, sign)
    else (xx, sign)
  printMagnitude digits base x sign

def User.digits : List Char := "0123456789ABCDEF".toList

/-- The user library's `printint`; the result is what it passes to `putc`. -/
def User.printint (xx : BitVec 64) (base sgn : BitVec 32) : Option (List Char) :=
  let (x, neg) := if sgn ≠ 0 ∧ xx.slt 0 then (-xx, 1) else (xx, 0)
  printMagnitude digits base x neg

/-- The number that the bits `xx` stand for, signed if the flag is set. -/
def value (xx : BitVec 64) (sign : BitVec 32) : ℤ :=
  if sign ≠ 0 then xx.toInt else xx.toNat

/-- The number that a decimal numeral stands for. -/
def parse : List Char → ℤ
  | '-' :: ds => -(Nat.ofDigitChars 10 ds 0)
  | ds => Nat.ofDigitChars 10 ds 0

/-- The numeral of `z`: a `-` if it is negative, then the digits of its magnitude. -/
def numeral (base : ℕ) (z : ℤ) : List Char :=
  (if z < 0 then ['-'] else []) ++ base.toDigits z.natAbs

theorem digitLoop_eq {digits : List Char} {f : Char → Char} {base : BitVec 64}
    (hbase : 1 < base.toNat) (hdigits : ∀ n < base.toNat, digits[n]? = some (f n.digitChar))
    (x : BitVec 64) (buf : List Char)
    (hroom : buf.length + (base.toNat.toDigits x.toNat).length ≤ 20) :
    digitLoop digits base x buf = some (buf ++ ((base.toNat.toDigits x.toNat).map f).reverse) := by
  fun_induction digitLoop digits base x buf with
  | case1 x buf hlt ih =>
    have hmod := Nat.mod_lt x.toNat (by omega : 0 < base.toNat)
    have hdiv : x / base = 0 ↔ x.toNat < base.toNat := by
      rw [← BitVec.toNat_inj, BitVec.toNat_udiv]
      exact Nat.div_eq_zero_iff_lt (by omega)
    rw [Nat.toDigits_eq_if hbase] at hroom ⊢
    rw [BitVec.toNat_umod, hdigits _ hmod, Option.bind_some]
    simp only [hdiv]
    split_ifs at hroom ⊢ with hx
    · simp [Nat.mod_eq_of_lt hx]
    · rw [ih _ (by simpa [Nat.add_comm 1, Nat.add_assoc] using hroom)]
      simp
  | case2 x buf hfull =>
    have := Nat.length_toDigits_pos (b := base.toNat) (n := x.toNat)
    omega

theorem flush_eq (buf : List Char) : flush buf buf.length = some buf.reverse := by
  -- the loop has still to print the first `i` entries
  have hi : ∀ i ≤ buf.length, flush buf i = some (buf.take i).reverse := by
    intro i
    induction i with
    | zero => simp [flush]
    | succ i ih =>
      intro hlt
      rw [flush, ih (by omega), List.take_add_one, List.getElem?_eq_getElem hlt,
        List.reverse_append]
      rfl
  simpa using hi buf.length (Nat.le_refl _)

theorem printMagnitude_eq {digits : List Char} {f : Char → Char} {base : BitVec 32}
    (hbase : base = 10 ∨ base = 16)
    (hdigits : ∀ n < base.toNat, digits[n]? = some (f n.digitChar)) (hminus : f '-' = '-')
    {z : ℤ} (hz : -2 ^ 63 ≤ z) {x : BitVec 64} (hx : x.toNat = z.natAbs) :
    printMagnitude digits base x (if z < 0 then 1 else 0) =
      some ((numeral base.toNat z).map f) := by
  obtain ⟨hcast, hten⟩ : (base.signExtend 64).toNat = base.toNat ∧ 10 ≤ base.toNat := by
    rcases hbase with rfl | rfl <;> decide
  have hlen : ∀ k, 0 < k → z.natAbs < 10 ^ k → (base.toNat.toDigits z.natAbs).length ≤ k :=
    fun k hk hlt => (Nat.length_toDigits_le_iff (by omega) hk).2
      (Nat.lt_of_lt_of_le hlt (Nat.pow_le_pow_left hten k))
  have hloop := digitLoop_eq (f := f) (by omega) (hcast ▸ hdigits) x []
    (by simpa [hcast, hx] using hlen 20 (by omega) (by omega))
  rw [printMagnitude, hloop, hcast, hx, numeral]
  by_cases hneg : z < 0
  · -- a magnitude of at most `2 ^ 63` leaves room for the `-`
    have hlt := Nat.lt_succ_of_le (hlen 19 (by omega) (by omega))
    simp [hneg, store, flush_eq, hlt, hminus]
  · simpa [hneg] using flush_eq ((base.toNat.toDigits z.natAbs).map f).reverse

/-- The bits printed are the magnitude, also for the most negative value, whose negation wraps. -/
theorem value_spec (xx : BitVec 64) (sign : BitVec 32) :
    (sign ≠ 0 ∧ xx.slt 0 ↔ value xx sign < 0) ∧ -2 ^ 63 ≤ value xx sign ∧
      (if value xx sign < 0 then -xx else xx).toNat = (value xx sign).natAbs := by
  have hslt : xx.slt 0 ↔ 2 ^ 63 ≤ xx.toNat := by
    simp [BitVec.slt_zero_iff_msb_cond, BitVec.msb_eq_decide]
  rw [hslt, value, BitVec.toInt_eq_toNat_cond]
  have hneg := BitVec.toNat_neg xx
  split_ifs <;> simp_all <;> omega

theorem toDigits_head {b : ℕ} (hb : 1 < b) (n : ℕ) :
    ∃ c ds, b.toDigits n = c :: ds ∧ c ≠ '-' ∧ (c = '0' → n = 0) := by
  induction n using Nat.strongRecOn with
  | ind n ih =>
    rw [Nat.toDigits_eq_if hb]
    split_ifs with hn
    · exact ⟨_, [], rfl, Nat.digitChar_ne '-' rfl, Nat.digitChar_eq_zero.1⟩
    · obtain ⟨c, ds, hds, hminus, hc⟩ := ih (n / b) (Nat.div_lt_self (by omega) hb)
      refine ⟨c, _, by rw [hds, List.cons_append], hminus, fun h => ?_⟩
      have := Nat.div_eq_zero_iff.1 (hc h)
      omega

/-- Only the number zero has a numeral whose first digit is `0`. -/
theorem numeral_canonical {b : ℕ} (hb : 1 < b) {z : ℤ} {ds : List Char}
    (h : numeral b z = '0' :: ds ∨ numeral b z = '-' :: '0' :: ds) : numeral b z = ['0'] := by
  obtain ⟨c, ds', hds, hminus, hc⟩ := toDigits_head hb z.natAbs
  unfold numeral at h ⊢
  split_ifs at h ⊢ with hz
  · have h0 : c = '0' ∧ ds' = ds := by simpa [hds] using h
    have := hc h0.1
    omega
  · have h0 : c = '0' ∧ ds' = ds := by simpa [hds, hminus] using h
    simp [hc h0.1]

theorem parse_numeral (z : ℤ) : parse (numeral 10 z) = z := by
  obtain ⟨c, ds, hds, hminus, -⟩ := toDigits_head (by omega : 1 < 10) z.natAbs
  have hread := Nat.ofDigitChars_toDigits (n := z.natAbs) (by omega : 1 < 10) (by omega)
  unfold numeral
  split_ifs with hz
  · change -(Nat.ofDigitChars 10 (Nat.toDigits 10 z.natAbs) 0 : ℤ) = z
    omega
  · rw [List.nil_append, parse]
    · omega
    · simp [hds, hminus]

section Exact

variable (xx : BitVec 64) {base : BitVec 32} (sign : BitVec 32) (hbase : base = 10 ∨ base = 16)

include hbase

theorem Kernel.printint_eq :
    Kernel.printint xx base sign = some (numeral base.toNat (value xx sign)) := by
  obtain ⟨hneg, hmin, habs⟩ := value_spec xx sign
  have htable : ∀ n < base.toNat, digits[n]? = some (id n.digitChar) := by
    rcases hbase with rfl | rfl <;> decide
  have h := printMagnitude_eq hbase htable rfl hmin habs
  rw [List.map_id] at h
  rw [← h, Kernel.printint]
  simp only [← hneg]
  split_ifs <;> simp_all

theorem User.printint_eq {f : Char → Char} (hminus : f '-' = '-')
    (hf : ∀ n < base.toNat, digits[n]? = some (f n.digitChar)) :
    User.printint xx base sign = some ((numeral base.toNat (value xx sign)).map f) := by
  obtain ⟨hneg, hmin, habs⟩ := value_spec xx sign
  rw [← printMagnitude_eq hbase hf hminus hmin habs, User.printint]
  simp only [← hneg]
  split_ifs <;> rfl

/-- For both bases every 64-bit value is printed, without a store past `buf`, as the numeral
without leading zeros of the number it stands for; a decimal numeral reads back as that number,
and the user version differs from the kernel's in the case of the letters only. -/
theorem printint_exact :
    ∃ out, Kernel.printint xx base sign = some out ∧
      User.printint xx base sign = some (out.map Char.toUpper) ∧
      out = numeral base.toNat (value xx sign) ∧
      (∀ ds, out = '0' :: ds ∨ out = '-' :: '0' :: ds → out = ['0']) ∧
      (base = 10 → User.printint xx base sign = some out ∧ parse out = value xx sign) := by
  refine ⟨_, Kernel.printint_eq xx sign hbase, ?_, rfl, ?_, ?_⟩
  · apply User.printint_eq xx sign hbase rfl
    rcases hbase with rfl | rfl <;> decide
  · have hb : 1 < base.toNat := by rcases hbase with rfl | rfl <;> decide
    exact fun ds h => numeral_canonical hb h
  · rintro rfl
    have h := User.printint_eq xx sign hbase (f := id) rfl (by decide)
    rw [List.map_id] at h
    exact ⟨h, parse_numeral _⟩

end Exact

/-- The most negative value needs the whole buffer. -/
theorem printint_exact_min : ∃ out, Kernel.printint (BitVec.intMin 64) 10 1 = some out ∧
    parse out = -9223372036854775808 := by
  obtain ⟨out, hout, -, -, -, h10⟩ := printint_exact (BitVec.intMin 64) 1 (Or.inl rfl)
  exact ⟨out, hout, (h10 rfl).2⟩

end Xv6.Printf
