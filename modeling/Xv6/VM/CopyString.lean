import Xv6.VM.System

/-!
# Strings in user memory

`copyinstr` copies a string that ends with a zero byte from user memory, and `fetchstr` makes it
the path or the argument of a system call. Both look pages up with `walkaddr` and never call
`vmfault`, so what they return depends on which pages are resident. `copyin` faults a page in and
goes on.

`stringAt` says what the string is, for any way of reading bytes. `copyinstr` computes it over the
resident pages. What it should be computed over are the pages as `copyin` delivers them, where a
page on the swap device has its content and a page that was never touched is zeros.
-/

namespace Xv6.VM

open Fallible List Nat

/-! ## Strings -/

/-- The bytes from `va` on up to and including the first zero, no more than `max` and only as far
as they can be read, and whether the zero was found. -/
def stringAt (byte : ℕ → Option UInt8) : ℕ → ℕ → Bool × List UInt8
  | 0, _ => (false, [])
  | max + 1, va =>
    match byte va with
    | none => (false, [])
    | some b =>
      if b = 0 then (true, [0])
      else
        let rest := stringAt byte max (va + 1)
        (rest.1, b :: rest.2)

section Strings

variable {f g : ℕ → Option UInt8} {va : ℕ} {b : UInt8}

@[simp]
lemma stringAt_zero : stringAt f 0 va = (false, []) := rfl

lemma stringAt_none {max : ℕ} (h : f va = none) : stringAt f max va = (false, []) := by
  cases max with
  | zero => rfl
  | succ max => simp [stringAt, h]

lemma stringAt_some {max : ℕ} (h : f va = some b) (hb : b ≠ 0) :
    stringAt f (max + 1) va =
      ((stringAt f max (va + 1)).1, b :: (stringAt f max (va + 1)).2) := by
  simp [stringAt, h, hb]

lemma stringAt_nul {max : ℕ} (h : f va = some 0) : stringAt f (max + 1) va = (true, [0]) := by
  simp [stringAt, h]

/-- Every byte of the string can be read. -/
theorem isSome_of_lt_stringAt : ∀ {max va i : ℕ}, i < (stringAt f max va).2.length →
    (f (va + i)).isSome := by
  intro max
  induction max with
  | zero => simp
  | succ max ih =>
    intro va i hi
    cases hf : f va with
    | none => simp [stringAt_none hf] at hi
    | some b =>
      cases i with
      | zero => simp [hf]
      | succ i =>
        by_cases hb : b = 0
        · subst hb
          simp [stringAt_nul hf] at hi
        · rw [stringAt_some hf hb] at hi
          have := ih (by simpa using hi)
          rwa [Nat.add_right_comm] at this

/-- The bytes of the string, one by one. -/
theorem getElem?_stringAt : ∀ {max va i : ℕ}, i < (stringAt f max va).2.length →
    (stringAt f max va).2[i]? = f (va + i) := by
  intro max
  induction max with
  | zero => simp
  | succ max ih =>
    intro va i hi
    cases hf : f va with
    | none => simp [stringAt_none hf] at hi
    | some b =>
      by_cases hb : b = 0
      · subst hb
        rw [stringAt_nul hf] at hi ⊢
        have : i = 0 := by simpa using hi
        subst this
        simp [hf]
      · rw [stringAt_some hf hb] at hi ⊢
        cases i with
        | zero => simp [hf]
        | succ i =>
          rw [List.getElem?_cons_succ, ih (by simpa using hi), Nat.add_right_comm]
          rfl

/-- If less can be read through `f` than through `g`, then the string is the same exactly if `f`
reads all of it. -/
theorem stringAt_eq_iff (hle : ∀ va b, f va = some b → g va = some b) : ∀ {max va : ℕ},
    stringAt f max va = stringAt g max va ↔
      ∀ i < (stringAt g max va).2.length, (f (va + i)).isSome := by
  intro max va
  constructor
  · intro heq i hi
    rw [← heq] at hi
    exact isSome_of_lt_stringAt hi
  · induction max generalizing va with
    | zero => simp
    | succ max ih =>
      intro hall
      cases hg : g va with
      | none =>
        have hf : f va = none := by
          by_contra hne
          obtain ⟨b, hb⟩ := Option.ne_none_iff_exists'.mp hne
          simp [hle va b hb] at hg
        rw [stringAt_none hf, stringAt_none hg]
      | some b =>
        have hlen : 0 < (stringAt g (max + 1) va).2.length := by
          by_cases hb : b = 0
          · subst hb
            simp [stringAt_nul hg]
          · simp [stringAt_some hg hb]
        obtain ⟨b', hf⟩ := Option.isSome_iff_exists.mp (hall 0 hlen)
        rw [Nat.add_zero] at hf
        have hbb : b' = b := by simpa [hle va b' hf] using hg
        subst hbb
        by_cases hb : b' = 0
        · subst hb
          rw [stringAt_nul hf, stringAt_nul hg]
        · rw [stringAt_some hg hb] at hall
          have hrest : stringAt f max (va + 1) = stringAt g max (va + 1) := by
            refine ih fun i hi => ?_
            have := hall (i + 1) (by simpa using hi)
            rwa [← Nat.add_assoc, Nat.add_right_comm] at this
          rw [stringAt_some hf hb, stringAt_some hg hb, hrest]

end Strings

/-! ## The functions of the source -/

/-- The inner loop of `copyinstr`: copy bytes of a page until a zero byte. -/
def copyStr : List UInt8 → List UInt8 → Bool × List UInt8
  | [], dst => (false, dst)
  | b :: bytes, dst =>
    if b = 0 then (true, dst ++ [0]) else copyStr bytes (dst ++ [b])

namespace Kernel

variable {σ : Type}

/-- `copyinstr` of at most `max` bytes; `fuel` bounds the rounds and `dst` has the bytes copied so
far. -/
def copyinstrLoop (k : Kernel σ) (pagetable : ℕ) :
    ℕ → ℕ → ℕ → List UInt8 → Except String (Bool × List UInt8)
  | 0, _, _, dst => .ok (false, dst)
  | fuel + 1, srcva, max, dst =>
    if max = 0 then .ok (false, dst)
    else do
      let va0 := pgrounddown srcva
      let pa0 ← k.walkaddr pagetable va0
      if pa0 = 0 then pure (false, dst)
      else
        let n := min (PGSIZE - (srcva - va0)) max
        match copyStr ((k.mem pa0).read (srcva - va0) n) dst with
        | (true, dst) => pure (true, dst)
        | (false, dst) => copyinstrLoop k pagetable fuel (va0 + PGSIZE) (max - n) dst

/-- `copyinstr`: whether it returns 0, and the bytes it has stored. -/
def copyinstr (k : Kernel σ) (pagetable srcva max : ℕ) : Except String (Bool × List UInt8) :=
  copyinstrLoop k pagetable max srcva max []

/-- `strlen`. -/
def strlen (s : List UInt8) : ℕ := (s.takeWhile (· ≠ 0)).length

/-- `fetchstr` by the process `p`: the length of the string or -1, and the buffer. -/
def fetchstr (k : Kernel σ) (p : ProcId) (addr max : ℕ) : Except String (ℤ × List UInt8) := do
  let (ok, buf) ← k.copyinstr (k.proc p).pagetable addr max
  if ok then pure (strlen buf, buf) else pure (-1, buf)

end Kernel

/-! ## What `copyinstr` computes -/

/-- A chunk of the string without a zero byte, or with its end. -/
theorem copyStr_spec {f : ℕ → Option UInt8} (m : ℕ) : ∀ {bytes dst : List UInt8} {va : ℕ},
    (∀ i b, bytes[i]? = some b → f (va + i) = some b) →
    (∃ s, copyStr bytes dst = (true, dst ++ s) ∧ stringAt f (bytes.length + m) va = (true, s)) ∨
    (copyStr bytes dst = (false, dst ++ bytes) ∧ stringAt f (bytes.length + m) va =
      ((stringAt f m (va + bytes.length)).1, bytes ++ (stringAt f m (va + bytes.length)).2)) := by
  intro bytes
  induction bytes with
  | nil =>
    intro dst va _
    exact .inr ⟨by simp [copyStr], by simp⟩
  | cons b bytes ih =>
    intro dst va hbytes
    have hb : f va = some b := hbytes 0 b rfl
    have hlen : (b :: bytes).length + m = bytes.length + m + 1 := by
      simp [Nat.add_right_comm]
    by_cases hz : b = 0
    · subst hz
      refine .inl ⟨[0], by simp [copyStr], ?_⟩
      rw [hlen, stringAt_nul hb]
    · have htail : ∀ i b', bytes[i]? = some b' → f (va + 1 + i) = some b' := by
        intro i b' hi
        have := hbytes (i + 1) b' (by simpa using hi)
        rwa [← Nat.add_assoc, Nat.add_right_comm] at this
      have hva : va + 1 + bytes.length = va + (b :: bytes).length := by
        simp [Nat.add_comm, Nat.add_left_comm]
      rw [hlen, stringAt_some hb hz, copyStr, if_neg hz]
      rcases @ih (dst ++ [b]) (va + 1) htail with ⟨s, hcopy, hstring⟩ | ⟨hcopy, hstring⟩
      · exact .inl ⟨b :: s, by simp [hcopy], by rw [hstring]⟩
      · refine .inr ⟨by simp [hcopy], ?_⟩
        rw [hstring, hva]
        rfl

/-- The byte of a page at the address `va`. -/
def pageByte (pg : Page) (va : ℕ) : UInt8 := pg ⟨va % PGSIZE, mod_pgsize_lt va⟩

lemma div_mod_page {va i : ℕ} (hi : va % PGSIZE + i < PGSIZE) :
    (va + i) / PGSIZE = va / PGSIZE ∧ (va + i) % PGSIZE = va % PGSIZE + i := by
  change va % 4096 + i < 4096 at hi
  change (va + i) / 4096 = va / 4096 ∧ (va + i) % 4096 = va % 4096 + i
  omega

/-- A read that stays within the page. -/
theorem pageByte_of_read {pg : Page} {va n i : ℕ} {b : UInt8} (hn : n ≤ PGSIZE - va % PGSIZE)
    (hi : (pg.read (va % PGSIZE) n)[i]? = some b) :
    (va + i) / PGSIZE = va / PGSIZE ∧ pageByte pg (va + i) = b := by
  obtain ⟨hlt, hb⟩ := List.getElem?_eq_some_iff.mp hi
  rw [Page.read, length_map, length_range] at hlt
  have hin : va % PGSIZE + i < PGSIZE := by omega
  obtain ⟨hdiv, hmod⟩ := div_mod_page hin
  refine ⟨hdiv, ?_⟩
  simp only [Page.read, getElem_map, getElem_range, dif_pos hin] at hb
  rw [← hb]
  unfold pageByte
  congr 1
  exact Fin.ext hmod

lemma sub_pgrounddown (va : ℕ) : va - pgrounddown va = va % PGSIZE := by
  unfold pgrounddown
  have := div_add_mod' va PGSIZE
  omega

section Lookup

variable {σ : Type} {D : SwapDev σ} {k k' : Kernel σ} {h : Held} {p : ProcId} {r v va : ℕ}

namespace Kernel

/-- The page `v` of the table rooted at `r` is in a frame and the user may access it. -/
def Accessible (k : Kernel σ) (r v : ℕ) : Prop :=
  v < USER_TOP ∧ (k.core.leaf r v).flags.v = true ∧ (k.core.leaf r v).flags.u = true
  deriving Decidable

/-- A page in a frame is not at the null address. -/
theorem num_ne_zero (hI : k.core.Inv h) (hlt : v < USER_TOP)
    (hv : (k.core.leaf r v).flags.v = true) : (k.core.leaf r v).num ≠ 0 := by
  obtain ⟨i, hi⟩ := hI.frames.resident r v hlt hv
  rw [hi.2.2.1]
  exact pa_ne_zero hI hi.2.2.2

/-- What `walkaddr` returns: the address of the page if it is accessible, and else null. -/
theorem walkaddr_eq_ite (hr : (k.owner r).isSome) (hframed : k.Framed r) (v : ℕ) :
    k.walkaddr r (v * PGSIZE) =
      .ok (if k.Accessible r v then (k.core.leaf r v).num else 0) := by
  split_ifs with hacc
  · have hwalkaddr := walkaddr_eq hr (mul_pgsize_lt_maxva hacc.1) hacc.2.1 hacc.2.2
    exact hwalkaddr
  · by_cases hva : MAXVA ≤ v * PGSIZE
    · exact if_pos hva
    · unfold walkaddr
      rw [if_neg hva, walk_eq hr (Nat.lt_of_not_le hva), mul_pgsize_div]
      cases hq : k.core.leafRef r v with
      | none => rfl
      | some q =>
        change (if _ ∨ _ then _ else _) = _
        rw [pte_eq_leaf hq, if_pos]
        by_contra hbits
        simp only [not_or, Bool.not_eq_false] at hbits
        -- above user memory nothing is accessible to the user
        refine hacc ⟨?_, hbits⟩
        by_contra htop
        have hupper := hframed v (Nat.le_of_not_lt htop) (Nat.lt_of_not_le hva)
        simp [upperBits, hbits.2] at hupper

/-- The byte at `va` if its page is in a frame and accessible to the user. -/
def residentByte (k : Kernel σ) (r va : ℕ) : Option UInt8 :=
  if k.Accessible r (va / PGSIZE) then
    some (pageByte (k.mem (k.core.leaf r (va / PGSIZE)).num) va)
  else none

/-- `copyinstr` computes the string over the pages that are resident. -/
theorem copyinstrLoop_eq (hI : k.core.Inv h) (hr : (k.owner r).isSome) (hframed : k.Framed r)
    (fuel : ℕ) : ∀ {srcva max : ℕ} {dst : List UInt8}, max ≤ fuel →
      copyinstrLoop k r fuel srcva max dst =
        .ok ((stringAt (k.residentByte r) max srcva).1,
          dst ++ (stringAt (k.residentByte r) max srcva).2) := by
  induction fuel with
  | zero =>
    intro srcva max dst hmax
    obtain rfl := le_zero.mp hmax
    simp [copyinstrLoop]
  | succ fuel ih =>
    intro srcva max dst hmax
    by_cases hz : max = 0
    · subst hz
      simp [copyinstrLoop]
    · rw [copyinstrLoop, if_neg hz]
      dsimp only
      have hdown : pgrounddown srcva = srcva / PGSIZE * PGSIZE := rfl
      rw [sub_pgrounddown, hdown, walkaddr_eq_ite hr hframed]
      change (if _ then _ else _) = _
      by_cases hacc : k.Accessible r (srcva / PGSIZE)
      · rw [if_pos hacc, if_neg (num_ne_zero hI hacc.1 hacc.2.1)]
        -- the part of the string in this page
        set pg := k.mem (k.core.leaf r (srcva / PGSIZE)).num with hpg
        set n := min (PGSIZE - srcva % PGSIZE) max with hn
        have hbytes : ∀ i b, (pg.read (srcva % PGSIZE) n)[i]? = some b →
            k.residentByte r (srcva + i) = some b := by
          intro i b hi
          obtain ⟨hdiv, hbyte⟩ := pageByte_of_read (by omega) hi
          rw [residentByte, hdiv, if_pos hacc, ← hpg, hbyte]
        have hlen : (pg.read (srcva % PGSIZE) n).length = n := by simp [Page.read]
        have hsplit : n + (max - n) = max := by omega
        have hpos : 0 < n := by
          have := mod_lt srcva (show 0 < PGSIZE by decide)
          omega
        rcases copyStr_spec (max - n) hbytes with ⟨s, hcopy, hs⟩ | ⟨hcopy, hs⟩
        · rw [hlen, hsplit] at hs
          rw [hcopy, hs]
          rfl
        · rw [hlen, hsplit] at hs
          rw [hcopy]
          dsimp only
          rw [ih (by omega), hs, append_assoc]
          by_cases hmore : max - n = 0
          · simp [hmore]
          · -- the rest of the string starts at the next page
            have hnext : srcva / PGSIZE * PGSIZE + PGSIZE = srcva + n := by
              have := div_add_mod' srcva PGSIZE
              have := mod_lt srcva (show 0 < PGSIZE by decide)
              omega
            rw [hnext]
      · rw [if_neg hacc, if_pos rfl, stringAt_none (by rw [residentByte, if_neg hacc]), append_nil]
        rfl

lemma copyinstr_eq (hI : k.core.Inv h) (hr : (k.owner r).isSome) (hframed : k.Framed r)
    (srcva max : ℕ) :
    k.copyinstr r srcva max = .ok (stringAt (k.residentByte r) max srcva) := by
  rw [copyinstr, copyinstrLoop_eq hI hr hframed _ le_rfl, nil_append]

end Kernel

end Lookup

/-! ## What the string is -/

/-- The byte that `copyin` delivers from `va`: a page below the size counts as it is after a fault,
if the user may access it. -/
def AddressSpace.readable (a : AddressSpace) (va : ℕ) : Option UInt8 :=
  let x := faultedIn (a.page (va / PGSIZE))
  if pgrounddown va < a.sz ∧ x.u = true then some (pageByte x.bytes va) else none

/-- The address spaces have the same size and below it the same contents and permissions, where a
page that has not been allocated yet counts as the zeros that a fault would give. -/
def AddressSpace.SameContents (a b : AddressSpace) : Prop :=
  a.sz = b.sz ∧ ∀ v, v * PGSIZE < a.sz → faultedIn (a.page v) = faultedIn (b.page v)

lemma AddressSpace.SameContents.readable_eq {a b : AddressSpace} (hab : a.SameContents b) :
    a.readable = b.readable := by
  funext va
  unfold AddressSpace.readable
  dsimp only
  rw [← hab.1]
  by_cases hsz : pgrounddown va < a.sz
  · rw [hab.2 (va / PGSIZE) hsz]
  · rw [if_neg fun hc => hsz hc.1, if_neg fun hc => hsz hc.1]

/-- A fault changes nothing that the user can see. -/
theorem AddressSpace.SameContents.fault {a a' : AddressSpace} {va : ℕ} (h : a.fault va = some a') :
    a.SameContents a' := by
  unfold AddressSpace.fault at h
  split_ifs at h with hva
  cases h
  refine ⟨rfl, fun v _ => ?_⟩
  by_cases hv : v = va / PGSIZE
  · subst hv
    simp [faultedIn]
  · simp [hv]

section Residency

open Kernel

variable {σ : Type} {D : SwapDev σ} {m : List ℕ} {k k' : Kernel σ} {p : ProcId}
  {r v va srcva : ℕ} {a : AddressSpace}

/-- The page at `va` is in a frame. -/
def Kernel.ResidentAt (k : Kernel σ) (p : ProcId) (va : ℕ) : Prop :=
  (k.userEntry p (va / PGSIZE)).flags.v = true
  deriving Decidable

/-- What is resident and accessible reads as `copyin` delivers it. -/
theorem Idle.readable_of_residentByte {b : UInt8} (hk : Idle D m k) (hD : D.Lawful)
    (hp : k.view D p = some a) (hb : k.residentByte (k.proc p).pagetable va = some b) :
    a.readable va = some b := by
  rw [Idle.view_eq (Idle.live_of_view hp)] at hp
  cases hp
  unfold residentByte at hb
  split_ifs at hb with hacc
  obtain ⟨htop, hv, hu⟩ := hacc
  have hpage := page_of_valid (D := D) htop hv
  rw [SwapDev.seen_of_lawful hD] at hpage
  have hsz : va / PGSIZE * PGSIZE < (k.proc p).sz := by
    rw [← lt_pageCount]
    by_contra hge
    rw [hk.above (Nat.le_of_not_lt hge)] at hpage
    cases hpage
  unfold AddressSpace.readable
  dsimp only
  rw [hpage]
  exact (if_pos ⟨hsz, hu⟩).trans hb

/-- A byte that `copyin` delivers is read by `copyinstr` exactly if its page is resident. -/
theorem Idle.isSome_residentByte (hk : Idle D m k) (hp : k.view D p = some a)
    (hread : (a.readable va).isSome) :
    (k.residentByte (k.proc p).pagetable va).isSome ↔ k.ResidentAt p va := by
  have hlive := Idle.live_of_view hp
  rw [Idle.view_eq hlive] at hp
  cases hp
  unfold AddressSpace.readable at hread
  dsimp only at hread
  split_ifs at hread with hc
  swap
  · cases hread
  have htop : va / PGSIZE < USER_TOP := hk.lt_top hc.1
  unfold residentByte ResidentAt
  rw [hk.userEntry_eq hlive (mul_pgsize_lt_maxva htop)]
  constructor
  · intro hsome
    split_ifs at hsome with hacc
    · exact hacc.2.1
    · cases hsome
  · intro hv
    have hu : (k.core.leaf (k.proc p).pagetable (va / PGSIZE)).flags.u = true := by
      have := hc.2
      rw [page_of_valid htop hv] at this
      exact this
    rw [if_pos ⟨htop, hv, hu⟩]
    rfl

/-! ## What `copyin` delivers -/

/-- The lookup of `copyin` changes nothing that the user can see. -/
theorem userPa_faultedIn {pa : ℕ} (hI : k.core.Inv {}) (ha : k.Attached)
    (htable : (k.proc p).pagetable = r) (howner : k.owner r = some p) (hframed : k.Framed r)
    (hrun : k.userPa D p r (v * PGSIZE) = .ok (pa, k')) (v' : ℕ) :
    faultedIn (k'.page D r v') = faultedIn (k.page D r v') := by
  unfold userPa at hrun
  rw [walkaddr_eq_ite (by rw [howner]; rfl) hframed] at hrun
  obtain ⟨pa0, hpa0, hrun⟩ := bind_eq_ok.mp hrun
  split_ifs at hrun with h0
  · obtain ⟨hfault, -⟩ := vmfault_spec hI ha htable howner hframed hrun
    rcases hfault.outcome with ⟨-, hpage⟩ | ⟨-, -, -, -, -, hpage⟩
    · rw [hpage]
    · rw [hpage, setAt]
      split_ifs with hv
      · rw [hv.2]
        rfl
      · rfl
  · cases hrun
    rfl

/-- The bytes that `copyin` returns are those of the pages as they are after a fault. -/
theorem copyinLoop_bytes (hD : D.Lawful) (ha : k.Attached) (htable : (k.proc p).pagetable = r)
    (howner : k.owner r = some p) (hframed : k.Framed r) (fuel : ℕ) :
    ∀ {k1 : Kernel σ} {srcva len : ℕ} {dst bytes : List UInt8}, len ≤ fuel →
      Touched D k r (k.proc p).sz k1 →
      (∀ v, faultedIn (k1.page D r v) = faultedIn (k.page D r v)) →
      copyinLoop D p r fuel srcva len dst k1 = .ok (some bytes, k') →
      bytes = dst ++ (List.range len).map fun i =>
        pageByte (faultedIn (k.page D r ((srcva + i) / PGSIZE))).bytes (srcva + i) := by
  induction fuel with
  | zero =>
    intro k1 srcva len dst bytes hlen _ _ hrun
    obtain rfl := le_zero.mp hlen
    cases hrun
    simp
  | succ fuel ih =>
    intro k1 srcva len dst bytes hlen hk1 hsame hrun
    rw [copyinLoop] at hrun
    dsimp only at hrun
    split_ifs at hrun with hz
    · subst hz
      cases hrun
      simp
    · obtain ⟨⟨pa, k2⟩, hpa, hrun⟩ := bind_eq_ok.mp hrun
      have ha1 := hk1.same.attached ha
      have htable1 : (k1.proc p).pagetable = r := by rw [hk1.same.proc, htable]
      have howner1 : k1.owner r = some p := by rw [hk1.same.owner, howner]
      have hframed1 := hk1.same.framed hframed
      have hdown : pgrounddown srcva = srcva / PGSIZE * PGSIZE := rfl
      rw [hdown] at hpa
      obtain ⟨htouch, hleaf⟩ := userPa_spec ha1 htable1 howner1 hframed1 hk1.inv hpa
      have hsame2 := userPa_faultedIn hk1.inv ha1 htable1 howner1 hframed1 hpa
      rw [hk1.same.proc] at htouch
      dsimp only at hrun
      split_ifs at hrun with hpa0
      · cases hrun
      rw [sub_pgrounddown, hdown] at hrun
      set n := min (PGSIZE - srcva % PGSIZE) len with hn
      have hmod := mod_lt srcva (show 0 < PGSIZE by decide)
      have hnext : len - n ≠ 0 → srcva / PGSIZE * PGSIZE + PGSIZE = srcva + n := by
        have := div_add_mod' srcva PGSIZE
        omega
      have hrest := ih (by omega) (hk1.trans htouch)
        (fun v => (hsame2 v).trans (hsame v)) hrun
      -- the bytes of this round
      obtain ⟨htop, hv, hnum⟩ := hleaf hpa0
      have hpage := page_of_valid (D := D) htop hv
      rw [SwapDev.seen_of_lawful hD, hnum] at hpage
      have hchunk : (k2.mem pa).read (srcva % PGSIZE) n = (List.range n).map fun i =>
          pageByte (faultedIn (k.page D r ((srcva + i) / PGSIZE))).bytes (srcva + i) := by
        refine ext_getElem (by simp [Page.read]) fun i hi _ => ?_
        obtain ⟨hdiv, hbyte⟩ := pageByte_of_read (by omega)
          (List.getElem?_eq_getElem hi)
        have hx : faultedIn (k.page D r (srcva / PGSIZE)) =
            .ofFlags (k2.mem pa) (k2.core.leaf r (srcva / PGSIZE)).flags := by
          rw [← hsame, ← hsame2, hpage]
          rfl
        simp only [getElem_map, getElem_range]
        rw [← hbyte, hdiv, hx]
        rfl
      have hlen' : n + (len - n) = len := by omega
      rw [hrest, append_assoc, hchunk, ← hlen', range_add, map_append, hlen']
      congr 2
      rw [map_map]
      refine map_congr_left fun i hi => ?_
      have hne : len - n ≠ 0 := by
        have := mem_range.mp hi
        omega
      rw [Function.comp, hnext hne, Nat.add_assoc]

/-- The bytes of the string that `copyin` returns, if it returns any. -/
theorem Idle.copyin_eq_take {max n : ℕ} {bytes : List UInt8} (hk : Idle D m k) (hD : D.Lawful)
    (hp : k.view D p = some a) (hn : n ≤ (stringAt a.readable max srcva).2.length)
    (hrun : k.copyin D p (k.proc p).pagetable srcva n = .ok (some bytes, k')) :
    bytes = (stringAt a.readable max srcva).2.take n := by
  have hlive := Idle.live_of_view hp
  rw [Idle.view_eq hlive] at hp
  have hbytes := copyinLoop_bytes hD hk.attached rfl (hk.owner hlive) (hk.framed hlive) n le_rfl
    (.refl hk.inv) (fun _ => rfl) hrun
  rw [nil_append] at hbytes
  subst hbytes
  refine ext_getElem? fun i => ?_
  by_cases hi : i < n
  · have hsome := isSome_of_lt_stringAt (hi.trans_le hn)
    rw [List.getElem?_take_of_lt hi, getElem?_stringAt (hi.trans_le hn)]
    cases hp
    unfold AddressSpace.readable at hsome ⊢
    dsimp only at hsome ⊢
    split_ifs at hsome ⊢ with hc
    · simp [hi]
    · cases hsome
  · rw [List.getElem?_eq_none (by simpa using hi), List.getElem?_eq_none (by simp; omega)]

/-- `copyinstr` and `fetchstr` return the string `s` of the process. -/
def Kernel.Fetches (k : Kernel σ) (p : ProcId) (addr max : ℕ) (s : Bool × List UInt8) : Prop :=
  k.copyinstr (k.proc p).pagetable addr max = .ok s ∧
    k.fetchstr p addr max = .ok (if s.1 then strlen s.2 else -1, s.2)

lemma fetches_iff {max : ℕ} {s : Bool × List UInt8} :
    k.Fetches p srcva max s ↔ k.copyinstr (k.proc p).pagetable srcva max = .ok s := by
  refine ⟨And.left, fun hs => ⟨hs, ?_⟩⟩
  unfold fetchstr
  rw [hs]
  change (if _ then _ else _) = _
  split_ifs <;> rfl

/-- `copyinstr` returns the string as `copyin` delivers it exactly if all of it is resident. -/
theorem Idle.fetches_iff_resident (hk : Idle D m k) (hD : D.Lawful) (hp : k.view D p = some a)
    (srcva max : ℕ) :
    k.Fetches p srcva max (stringAt a.readable max srcva) ↔
      ∀ i < (stringAt a.readable max srcva).2.length, k.ResidentAt p (srcva + i) := by
  have hlive := Idle.live_of_view hp
  rw [fetches_iff, copyinstr_eq hk.inv (by rw [hk.owner hlive]; rfl) (hk.framed hlive)]
  constructor
  · intro heq i hi
    have hread := isSome_of_lt_stringAt hi
    injection heq with heq
    rw [← hk.isSome_residentByte hp hread]
    exact (stringAt_eq_iff fun va b hb => hk.readable_of_residentByte hD hp hb).mp heq i hi
  · intro hres
    congr 1
    refine (stringAt_eq_iff fun va b hb => hk.readable_of_residentByte hD hp hb).mpr fun i hi => ?_
    rw [hk.isSome_residentByte hp (isSome_of_lt_stringAt hi)]
    exact hres i hi

/-- Take two states in which the process `p` has the same contents and permissions below its size,
and any string. `copyinstr` and `fetchstr` return the string in both, with the bytes that `copyin`
delivers, exactly if in both every page with a byte of it is resident. -/
theorem copyinstr_residency_iff {k₁ k₂ : Kernel σ} {m₁ m₂ : List ℕ} {a₁ a₂ : AddressSpace}
    (hD : D.Lawful) (hk₁ : Idle D m₁ k₁) (hk₂ : Idle D m₂ k₂) (hp₁ : k₁.view D p = some a₁)
    (hp₂ : k₂.view D p = some a₂) (hsame : a₁.SameContents a₂) (srcva max : ℕ) :
    let s := stringAt a₁.readable max srcva
    ((k₁.Fetches p srcva max s ∧ k₂.Fetches p srcva max s) ↔
      ∀ i < s.2.length, k₁.ResidentAt p (srcva + i) ∧ k₂.ResidentAt p (srcva + i)) ∧
    ∀ n ≤ s.2.length, ∀ bytes k',
      k₁.copyin D p (k₁.proc p).pagetable srcva n = .ok (some bytes, k') ∨
      k₂.copyin D p (k₂.proc p).pagetable srcva n = .ok (some bytes, k') →
      bytes = s.2.take n := by
  intro s
  have hs : s = stringAt a₂.readable max srcva := by
    rw [← hsame.readable_eq]
  refine ⟨?_, ?_⟩
  · have h₁ := hk₁.fetches_iff_resident hD hp₁ srcva max
    have h₂ := hk₂.fetches_iff_resident hD hp₂ srcva max
    rw [← hs] at h₂
    rw [h₁, h₂]
    exact ⟨fun hres i hi => ⟨hres.1 i hi, hres.2 i hi⟩,
      fun hres => ⟨fun i hi => (hres i hi).1, fun i hi => (hres i hi).2⟩⟩
  · rintro n hn bytes k' (hrun | hrun)
    · exact hk₁.copyin_eq_take hD hp₁ hn hrun
    · rw [hs] at hn ⊢
      exact hk₂.copyin_eq_take hD hp₂ hn hrun

end Residency

/-! ## A string on an evicted page -/

/-- The second child of `init` fills all frames, stores a byte and asks for one more page. -/
def storedRun : List Event :=
  let p0 : ProcId := ⟨0, nproc_pos⟩
  let p1 : ProcId := ⟨1, one_lt_nproc⟩
  let p2 : ProcId := ⟨2, two_lt_nproc⟩
  [.schedule p0 .running 0, .fork p0 (some p1), .fork p0 (some p2), .schedule p2 .running 0,
    .sbrk p2 (64 * 4096) false true, .store p2 5 7, .sbrk p2 4096 true true]

/-- Two states of a run with a page fault between them, which evicts the page with the string. -/
theorem exists_evictedString : ∃ (p : ProcId) (k₁ k₂ : Kernel (ℕ → Page)) (a₁ a₂ : AddressSpace),
    (memorySystem arrayDev 0x80000).Reachable k₁ ∧ (memorySystem arrayDev 0x80000).Reachable k₂ ∧
    k₁.view arrayDev p = some a₁ ∧ k₂.view arrayDev p = some a₂ ∧ a₁.SameContents a₂ ∧
    5 < (k₁.proc p).sz ∧ k₁.fetchstr p 5 4 = .ok (1, [7, 0]) ∧ k₂.fetchstr p 5 4 = .ok (-1, []) ∧
    ∃ k', k₂.copyin arrayDev p (k₂.proc p).pagetable 5 2 = .ok (some [7, 0], k') := by
  let p2 : ProcId := ⟨2, by decide⟩
  let e : Event := .fault p2 (64 * 4096) true
  have heval : (bootRun arrayDev (fun _ => 0) 0x80000 200 storedRun).any (fun k₁ =>
      (k₁.perform arrayDev 0x80000 e).any fun k₂ => decide (5 < (k₁.proc p2).sz ∧
        (k₁.fetchstr p2 5 4).toOption = some (1, [7, 0]) ∧
        (k₂.fetchstr p2 5 4).toOption = some (-1, []) ∧
        (k₂.copyin arrayDev p2 (k₂.proc p2).pagetable 5 2).toOption.map Prod.fst =
          some (some [7, 0]))) = true := by
    decide +kernel
  obtain ⟨k₁, hk₁, heval⟩ := Option.any_eq_true _ _ |>.mp heval
  obtain ⟨k₂, hk₂, heval⟩ := Option.any_eq_true _ _ |>.mp heval
  obtain ⟨hsz, hstr₁, hstr₂, hcopy⟩ := of_decide_eq_true heval
  obtain ⟨k0, hinit, hrun⟩ := run_of_bootRun hk₁
  have hreach₁ := hrun.reachable (.init hinit)
  have hstep := Kernel.step_of_perform hk₂
  have hreach₂ : (memorySystem arrayDev 0x80000).Reachable k₂ :=
    hreach₁.step (show (memorySystem arrayDev 0x80000).step k₁ e k₂ from hstep)
  -- the fault is one of the machine with unlimited memory
  have hview : (k₁.view arrayDev).modify p2 (·.fault (64 * 4096)) = some (k₂.view arrayDev) :=
    ((idle_of_reachable hreach₁).step hstep).2 arrayDev_lawful trivial
  obtain ⟨a₁, a₂, hp₁, hfault, hk₂view⟩ := Unlimited.exists_of_modify hview
  have hp₂ : k₂.view arrayDev p2 = some a₂ := by
    rw [hk₂view, Function.update_self]
  obtain ⟨⟨o, k'⟩, hcopy, rfl⟩ := Option.map_eq_some_iff.mp hcopy
  exact ⟨p2, k₁, k₂, a₁, a₂, hreach₁, hreach₂, hp₁, hp₂, .fault hfault, hsz,
    toOption_eq_some.mp hstr₁, toOption_eq_some.mp hstr₂, k', toOption_eq_some.mp hcopy⟩

/-- `copyinstr` fails on a string whose page was evicted, though the process has the same contents
before and after and `copyin` delivers the string. -/
theorem copyinstr_evicted_fails :
    ∃ (p : ProcId) (k₁ k₂ : Kernel (ℕ → Page)) (a₁ a₂ : AddressSpace),
      (memorySystem arrayDev 0x80000).Reachable k₁ ∧ (memorySystem arrayDev 0x80000).Reachable k₂ ∧
      k₁.view arrayDev p = some a₁ ∧ k₂.view arrayDev p = some a₂ ∧ a₁.SameContents a₂ ∧
      5 < (k₁.proc p).sz ∧ k₁.fetchstr p 5 4 = .ok (1, [7, 0]) ∧
      k₂.fetchstr p 5 4 = .ok (-1, []) ∧
      ∃ k', k₂.copyin arrayDev p (k₂.proc p).pagetable 5 2 = .ok (some [7, 0], k') :=
  exists_evictedString

/-- Before and after the eviction, the fetch returns the string in both states exactly if its page
is resident in both. -/
theorem copyinstr_residency_evicted :
    ∃ (p : ProcId) (k₁ k₂ : Kernel (ℕ → Page)) (s : Bool × List UInt8),
      (memorySystem arrayDev 0x80000).Reachable k₁ ∧ (memorySystem arrayDev 0x80000).Reachable k₂ ∧
      ((k₁.Fetches p 5 4 s ∧ k₂.Fetches p 5 4 s) ↔
        ∀ i < s.2.length, k₁.ResidentAt p (5 + i) ∧ k₂.ResidentAt p (5 + i)) := by
  obtain ⟨p, k₁, k₂, a₁, a₂, hreach₁, hreach₂, hp₁, hp₂, hsame, -⟩ := exists_evictedString
  exact ⟨p, k₁, k₂, _, hreach₁, hreach₂, (copyinstr_residency_iff arrayDev_lawful
    (idle_of_reachable hreach₁) (idle_of_reachable hreach₂) hp₁ hp₂ hsame 5 4).1⟩

end Xv6.VM
