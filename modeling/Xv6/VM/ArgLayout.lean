import Xv6.VM.Unlimited

/-!
# The arguments of a program on its stack

`kexec` pushes the strings of `argv` and then their addresses on the stack of the new image, each at
a multiple of 16. The loops subtract from the stack pointer as they go along and give up when it
gets below the stack page; `AddressSpace.buildStack_eq` says in one formula when that happens and
where everything is stored, and `Space.byte_stores` that it can be read there afterwards.
-/

namespace Xv6.VM

open List Option Space

/-- What `n` bytes take on the stack. -/
def padded (n : ℕ) : ℕ := (n + 15) / 16 * 16

/-- What the strings of `argv` take. -/
def stringBytes (argv : List (List UInt8)) : ℕ := (argv.map fun arg => padded (arg.length + 1)).sum

/-- What the strings and the array of their addresses take. -/
def argBytes (argv : List (List UInt8)) : ℕ := stringBytes argv + padded ((argv.length + 1) * 8)

lemma stringBytes_mod (argv : List (List UInt8)) : stringBytes argv % 16 = 0 := by
  induction argv with
  | nil => rfl
  | cons arg argv ih =>
    simp only [stringBytes, padded, map_cons, sum_cons] at ih ⊢
    omega

/-- The strings with their addresses, pushed from `sp` on. -/
def pushedStrings : ℕ → List (List UInt8) → List (ℕ × List UInt8)
  | _, [] => []
  | sp, arg :: argv =>
    (sp - padded (arg.length + 1), arg ++ [0]) :: pushedStrings (sp - padded (arg.length + 1)) argv

/-- The array of addresses. -/
def pointerBytes (strings : List (ℕ × List UInt8)) : List UInt8 :=
  (strings.map Prod.fst ++ [0]).flatMap (toBytes 8)

/-- All that is pushed, with its addresses. -/
def pushedArgs (top : ℕ) (argv : List (List UInt8)) : List (ℕ × List UInt8) :=
  pushedStrings top argv ++ [(top - argBytes argv, pointerBytes (pushedStrings top argv))]

lemma length_flatMap_toBytes (n : ℕ) (l : List ℕ) :
    (l.flatMap (toBytes n)).length = n * l.length := by
  induction l with
  | nil => rfl
  | cons x l ih =>
    rw [flatMap_cons, length_append, ih, toBytes, length_map, length_range,
      length_cons, Nat.mul_succ, Nat.add_comm]

@[simp]
lemma length_pushedStrings (sp : ℕ) (argv : List (List UInt8)) :
    (pushedStrings sp argv).length = argv.length := by
  induction argv generalizing sp with
  | nil => rfl
  | cons arg argv ih => rw [pushedStrings, length_cons, ih, length_cons]

lemma length_pointerBytes (sp : ℕ) (argv : List (List UInt8)) :
    (pointerBytes (pushedStrings sp argv)).length = (argv.length + 1) * 8 := by
  rw [pointerBytes, length_flatMap_toBytes, length_append, length_map,
    length_pushedStrings, length_singleton, Nat.mul_comm]

lemma map_snd_pushedStrings (sp : ℕ) (argv : List (List UInt8)) :
    (pushedStrings sp argv).map Prod.snd = argv.map (· ++ [0]) := by
  induction argv generalizing sp with
  | nil => rfl
  | cons arg argv ih => rw [pushedStrings, map_cons, ih, map_cons]

/-! ## Where it is stored -/

/-- `r'` lies below `r`. -/
def Below (r r' : ℕ × List UInt8) : Prop := r'.1 + r'.2.length ≤ r.1

lemma pushedStrings_layout (argv : List (List UInt8)) : ∀ sp, stringBytes argv ≤ sp →
    (pushedStrings sp argv).Pairwise Below ∧ ∀ r ∈ pushedStrings sp argv,
      sp - stringBytes argv ≤ r.1 ∧ r.1 + r.2.length ≤ sp := by
  induction argv with
  | nil => exact fun _ _ => ⟨.nil, by simp [pushedStrings]⟩
  | cons arg argv ih =>
    intro sp hle
    have hsum : stringBytes (arg :: argv) = padded (arg.length + 1) + stringBytes argv := by
      simp [stringBytes]
    have hpad : arg.length + 1 ≤ padded (arg.length + 1) := by
      unfold padded
      omega
    obtain ⟨hpair, hin⟩ := ih (sp - padded (arg.length + 1)) (by omega)
    refine ⟨pairwise_cons.mpr ⟨fun r hr => (hin r hr).2, hpair⟩, fun r hr => ?_⟩
    rcases mem_cons.mp hr with rfl | hr
    · rw [length_append, length_singleton]
      omega
    · have := hin r hr
      omega

/-- All that is pushed lies on the stack, and no two parts of it overlap. -/
theorem pushedArgs_layout {top : ℕ} {argv : List (List UInt8)} (hle : argBytes argv ≤ top) :
    (pushedArgs top argv).Pairwise Below ∧ ∀ r ∈ pushedArgs top argv,
      top - argBytes argv ≤ r.1 ∧ r.1 + r.2.length ≤ top := by
  have hpad : (argv.length + 1) * 8 ≤ padded ((argv.length + 1) * 8) := by
    unfold padded
    omega
  unfold argBytes at hle
  obtain ⟨hpair, hin⟩ := pushedStrings_layout argv top (by omega)
  have hlen := length_pointerBytes top argv
  refine ⟨pairwise_append.mpr ⟨hpair, pairwise_singleton _ _, fun r hr r' hr' => ?_⟩,
    fun r hr => ?_⟩
  · have := hin r hr
    rw [mem_singleton.mp hr', Below, hlen, argBytes]
    dsimp only
    omega
  · rcases mem_append.mp hr with hr | hr
    · have := hin r hr
      unfold argBytes
      omega
    · rw [mem_singleton.mp hr, hlen, argBytes]
      dsimp only
      omega

/-! ## The loops -/

/-- `sp -= n; sp -= sp % 16`. -/
theorem push_eq {sp n : ℕ} (hsp : sp % 16 = 0) (hn : n ≤ sp) :
    sp - n - (sp - n) % 16 = sp - padded n := by
  unfold padded
  omega

section Stores

variable (see : Page → Page)

/-- Store bytes at an address. -/
def Space.store (s : Space) (r : ℕ × List UInt8) : Space :=
  s.write see (r.1 / PGSIZE) (r.1 % PGSIZE) r.2

/-- The strings are pushed if there are not too many of them and they fit. -/
theorem Space.pushArgs_eq {base : ℕ} (hbase : 0 < base) (argv : List (List UInt8)) :
    ∀ {sp : ℕ} {ustack : List ℕ} {s : Space}, sp % 16 = 0 → base ≤ sp → ustack.length ≤ MAXARG →
      pushArgs see base argv sp ustack s =
        if ustack.length + argv.length ≤ MAXARG ∧ base + stringBytes argv ≤ sp then
          some ((sp - stringBytes argv, ustack ++ (pushedStrings sp argv).map Prod.fst),
            (pushedStrings sp argv).foldl (Space.store see) s)
        else none := by
  induction argv with
  | nil =>
    intro sp ustack s _ hsp hlen
    rw [if_pos ⟨hlen, hsp⟩]
    simp [pushArgs, pushedStrings, stringBytes]
  | cons arg argv ih =>
    intro sp ustack s hmod hsp hlen
    have hsum : stringBytes (arg :: argv) = padded (arg.length + 1) + stringBytes argv := by
      simp [stringBytes]
    have hpad : arg.length + 1 ≤ padded (arg.length + 1) ∧ padded (arg.length + 1) % 16 = 0 := by
      unfold padded
      omega
    rw [pushArgs, hsum, length_cons]
    dsimp only
    by_cases hmax : MAXARG ≤ ustack.length
    · rw [if_pos hmax, if_neg (by omega)]
    rw [if_neg hmax]
    by_cases hlow : base + padded (arg.length + 1) ≤ sp
    · rw [push_eq hmod (by omega), if_neg (by omega), ih (by omega) (by omega) (by simp; omega)]
      refine if_congr ?_ ?_ rfl
      · rw [length_append, length_singleton]
        omega
      · rw [Nat.sub_sub, append_assoc]
        rfl
    · -- the stack pointer gets below the stack
      rw [if_pos, if_neg (by omega)]
      by_cases hn : arg.length + 1 ≤ sp
      · rw [push_eq hmod hn]
        omega
      · omega

/-- Where the strings and the array of their addresses begin. -/
theorem Space.pushArgs_result {base sp : ℕ} {argv : List (List UInt8)} {w : ℕ × List ℕ}
    {s s' : Space} (hbase : 0 < base) (hsp : sp % 16 = 0) (hle : base ≤ sp)
    (hpush : pushArgs see base argv sp [] s = some (w, s')) :
    w.2.length = argv.length ∧ w.1 = sp - stringBytes argv ∧ w.1 % 16 = 0 := by
  rw [pushArgs_eq see hbase argv hsp hle (Nat.zero_le _)] at hpush
  split_ifs at hpush
  cases hpush
  have hmod := stringBytes_mod argv
  refine ⟨by simp, rfl, ?_⟩
  dsimp only
  omega

/-- The stack is built if the arguments and the array of their addresses fit into its page. -/
theorem AddressSpace.buildStack_eq (a : AddressSpace) (argv : List (List UInt8)) :
    a.buildStack see argv =
      if argv.length ≤ MAXARG ∧ argBytes argv ≤ USERSTACK * PGSIZE then
        some ⟨pgroundup a.sz + (USERSTACK + 1) * PGSIZE,
          (pushedArgs (pgroundup a.sz + (USERSTACK + 1) * PGSIZE) argv).foldl (Space.store see)
            ((a.page.alloc (pgroundup a.sz) (pgroundup a.sz + (USERSTACK + 1) * PGSIZE)
              lazyPerm).clearU (pageCount a.sz))⟩
      else none := by
  have hmod : pgroundup a.sz % 16 = 0 := by
    unfold pgroundup PGSIZE
    omega
  have hbytes : (argv.length + 1) * 8 ≤ padded ((argv.length + 1) * 8) := by
    unfold padded
    omega
  have hstack : USERSTACK * PGSIZE = 4096 ∧ (USERSTACK + 1) * PGSIZE = 8192 := by decide
  have hmax : MAXARG = 32 := rfl
  unfold AddressSpace.buildStack argBytes
  dsimp only
  generalize USERSTACK * PGSIZE = S at *
  generalize (USERSTACK + 1) * PGSIZE = T at *
  rw [pushArgs_eq see (by omega) argv (by omega) (by omega) (Nat.zero_le _)]
  by_cases hfits : argv.length ≤ MAXARG ∧ stringBytes argv ≤ S
  · rw [if_pos ⟨by simpa using hfits.1, by omega⟩]
    rw [bind_eq_bind, bind_some]
    dsimp only
    have hmod' := stringBytes_mod argv
    rw [nil_append, length_map, length_pushedStrings, push_eq (by omega) (by omega)]
    by_cases hlow : stringBytes argv + padded ((argv.length + 1) * 8) ≤ S
    · rw [if_neg (by omega), if_pos ⟨hfits.1, hlow⟩, Nat.sub_sub]
      simp only [pushedArgs, foldl_append, foldl_cons, foldl_nil]
      rfl
    · rw [if_pos (by omega), if_neg (by omega)]
  · rw [if_neg (by simp only [length_nil]; omega), if_neg (by omega)]
    rfl

end Stores

/-! ## What can be read there -/

/-- The byte at an address. -/
def Space.byte (s : Space) (va : ℕ) : UInt8 :=
  ((s (va / PGSIZE)).getD (.zeros {})).bytes ⟨va % PGSIZE, mod_pgsize_lt va⟩

/-- The bytes lie on the page `v`. -/
structure OnPage (v : ℕ) (r : ℕ × List UInt8) : Prop where
  ne_nil : r.2 ≠ []
  le : v * PGSIZE ≤ r.1
  stop_le : r.1 + r.2.length ≤ (v + 1) * PGSIZE

section Contents

variable {s : Space} {v va : ℕ} {r : ℕ × List UInt8}

lemma OnPage.div_eq (h : OnPage v r) : r.1 / PGSIZE = v := by
  have hpos := length_pos_iff.mpr h.ne_nil
  have hle := h.le
  have hstop := h.stop_le
  unfold PGSIZE at *
  omega

lemma Space.store_of_ne {see : Page → Page} (h : OnPage v r) {v' : ℕ} (hv : v' ≠ v) :
    s.store see r v' = s v' := by
  unfold Space.store
  rw [h.div_eq]
  exact Function.update_of_ne hv ..

lemma Space.byte_store (h : OnPage v r) (hs : (s v).isSome) :
    (s.store id r).byte va =
      if r.1 ≤ va then r.2.getD (va - r.1) (s.byte va) else s.byte va := by
  obtain ⟨x, hx⟩ := isSome_iff_exists.mp hs
  have hdiv := h.div_eq
  have hstop := h.stop_le
  by_cases hva : va / PGSIZE = v
  · have hle : r.1 ≤ va ↔ r.1 % PGSIZE ≤ va % PGSIZE := by
      unfold PGSIZE at *
      omega
    have hsub : va - r.1 = va % PGSIZE - r.1 % PGSIZE := by
      unfold PGSIZE at *
      omega
    simp only [byte, Space.store, write, hva, hdiv, Function.update_self, hx,
      map_some, getD_some, id, Page.write, hle, hsub]
  · have hold : (s.store id r).byte va = s.byte va := by
      unfold byte
      rw [store_of_ne h hva]
    rw [hold]
    split_ifs with hle
    · have hlen : r.2.length ≤ va - r.1 := by
        unfold PGSIZE at *
        omega
      rw [getD_eq_default _ _ hlen]
    · rfl

lemma Space.isSome_store (see : Page → Page) (hs : (s v).isSome) : (s.store see r v).isSome := by
  obtain ⟨x, hx⟩ := isSome_iff_exists.mp hs
  obtain ⟨bytes, hstore⟩ := write_eq_some see hx (r.1 / PGSIZE) (r.1 % PGSIZE) r.2
  exact isSome_iff_exists.mpr ⟨_, hstore⟩

/-- Stores at addresses further and further down on one page: each can be read afterwards, and
nothing else has changed. -/
theorem Space.byte_stores (R : List (ℕ × List UInt8)) : ∀ {s : Space}, (s v).isSome →
    (∀ r ∈ R, OnPage v r) → R.Pairwise Below →
    (∀ v' ≠ v, R.foldl (Space.store id) s v' = s v') ∧
      (∀ r ∈ R, ∀ i (hi : i < r.2.length), (R.foldl (Space.store id) s).byte (r.1 + i) = r.2[i]) ∧
      ∀ va, (∀ r ∈ R, r.1 + r.2.length ≤ va) → (R.foldl (Space.store id) s).byte va =
        s.byte va := by
  induction R with
  | nil => exact fun _ _ _ => ⟨fun _ _ => rfl, by simp, fun _ _ => rfl⟩
  | cons r R ih =>
    intro s hs hon hpair
    obtain ⟨hr, hon⟩ := forall_mem_cons.mp hon
    obtain ⟨hbelow, hpair⟩ := pairwise_cons.mp hpair
    obtain ⟨hpage, hread, hkeep⟩ := ih (s.isSome_store id hs) hon hpair
    refine ⟨fun v' hv' => ?_, forall_mem_cons.mpr ⟨fun i hi => ?_, hread⟩, fun va hva => ?_⟩
    · rw [foldl_cons, hpage v' hv', store_of_ne hr hv']
    · -- what follows is stored below
      rw [foldl_cons, hkeep _ fun r' hr' => (hbelow r' hr').trans (Nat.le_add_right _ _),
        byte_store hr hs, if_pos (Nat.le_add_right _ _), Nat.add_sub_cancel_left,
        getD_eq_getElem _ _ hi]
    · obtain ⟨hva, hrest⟩ := forall_mem_cons.mp hva
      rw [foldl_cons, hkeep va hrest, byte_store hr hs, if_pos (by omega),
        getD_eq_default _ _ (by omega)]

end Contents

end Xv6.VM
