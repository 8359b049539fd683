import Xv6.Foundations.Transition
import Xv6.Pipe.Model

/-!
# Integrity of pipes

Any number of threads call `pipewrite`, `piperead` and `pipeclose` on one pipe. A step is a call,
the acquisition or the release of `pi->lock`, or one round of a loop, which is a whole iteration
that either copies a byte or goes to sleep; the byte that `copyin` finds, or its failure, and the
success of `copyout` are part of the step. The state records the bytes that went into the pipe, each
with the number of its call, and the bytes that were delivered.

`PipeInv` says what the lock protects: the bytes between the counters are those that have been
accepted and not delivered, whatever the counters are. `pipe_integrity` says that bytes are
delivered in order, none of them lost or delivered twice.
-/

namespace Xv6

open RingBuffer Function List

/-! ## Threads -/

/-- Where a thread is. -/
inductive Place where
  | outside
  /-- At `acquire` in `pipewrite`, for `n` bytes. -/
  | enterWrite (n : ℤ)
  /-- At the test of the loop of `pipewrite` with the lock, after `i` bytes; the call has the
  number `c`. -/
  | write (c : ℕ) (n : ℤ) (i : ℕ)
  /-- In `sleep(&pi->nwrite, &pi->lock)`. -/
  | writeAsleep (c : ℕ) (n : ℤ) (i : ℕ)
  /-- At the `release` of `pipewrite`, which returns `ret`. -/
  | writeDone (ret : ℤ)
  /-- At `acquire` in `piperead`, for `n` bytes. -/
  | enterRead (n : ℤ)
  /-- At the test of the loop of `piperead` that waits, with the lock. -/
  | readWait (n : ℤ)
  /-- In `sleep(&pi->nread, &pi->lock)`. -/
  | readAsleep (n : ℤ)
  /-- At the test of the loop of `piperead` that copies, with the lock, after `i` bytes. -/
  | read (n : ℤ) (i : ℕ)
  /-- At the `release` of a `piperead` for `n` bytes, which returns `ret`. -/
  | readDone (n ret : ℤ)
  deriving DecidableEq

/-- The thread has the lock of the pipe. -/
def Place.Locked : Place → Prop
  | .write _ _ _ | .writeDone _ | .readWait _ | .read _ _ | .readDone _ _ => True
  | .outside | .enterWrite _ | .writeAsleep _ _ _ | .enterRead _ | .readAsleep _ => False

/-- The number of the `pipewrite` that the thread is in, once it has had the lock. -/
def Place.call : Place → Option ℕ
  | .write c _ _ | .writeAsleep c _ _ => some c
  | _ => none

/-- A step of a thread. -/
inductive PipeAct where
  /-- Call `pipewrite`. -/
  | pipewrite (n : ℤ)
  /-- Call `piperead`. -/
  | piperead (n : ℤ)
  /-- The `acquire` at the start of a call. -/
  | acquire
  /-- An iteration of a loop, with what `killed`, `copyin` and `copyout` return in it. -/
  | round (killed : Bool) (copyin : Option UInt8) (copyout : Bool)
  /-- The end of `sleep`, with the lock. -/
  | wake
  /-- The `release` at the end of a call. -/
  | release
  /-- `pipeclose`. -/
  | pipeclose (writable : Bool)

/-- A pipe with the threads that use it. -/
structure PipeState (T : Type) where
  pipe : Pipe
  lock : Option T
  place : T → Place
  /-- The number of calls of `pipewrite` that have acquired the lock. -/
  calls : ℕ
  /-- The calls of `pipewrite` that fitted into the free space when they acquired the lock. -/
  fits : ℕ → Bool
  /-- The bytes that went into the pipe, each with the number of its call. -/
  accepted : List (ℕ × UInt8)
  /-- The bytes that `piperead` has copied out. -/
  delivered : List UInt8

/-- The number of bytes that can be written without waiting. -/
def Pipe.free (pi : Pipe) : ℕ := PIPESIZE - count pi.nread pi.nwrite

/-- The bytes in the pipe, oldest first. -/
def Pipe.contents (pi : Pipe) : List UInt8 :=
  RingBuffer.contents PIPESIZE pi.data pi.nread pi.nwrite

namespace Pipe

variable {pi : Pipe}

lemma full_iff : pi.Full ↔ count pi.nread pi.nwrite = PIPESIZE :=
  (count_eq_iff (by decide)).symm

lemma count_put (ch : UInt8) (hroom : count pi.nread pi.nwrite < PIPESIZE) :
    count (pi.put ch).nread (pi.put ch).nwrite = count pi.nread pi.nwrite + 1 := by
  have hsize : PIPESIZE < 2 ^ 32 := by decide
  have hlt : count pi.nread pi.nwrite + 1 < 2 ^ 32 := by omega
  exact count_succ_right hlt

lemma contents_put (ch : UInt8) (hroom : count pi.nread pi.nwrite < PIPESIZE) :
    (pi.put ch).contents = pi.contents ++ [ch] :=
  RingBuffer.contents_put (by decide) (by decide) hroom ch

lemma count_skip (hne : ¬pi.Empty) :
    count pi.skip.nread pi.skip.nwrite + 1 = count pi.nread pi.nwrite :=
  count_succ_left hne

lemma contents_eq_cons (hne : ¬pi.Empty) : pi.contents = pi.next :: pi.skip.contents :=
  RingBuffer.contents_eq_cons (by decide) hne

lemma close_counters (pi : Pipe) (writable : Bool) :
    (pi.close writable).data = pi.data ∧ (pi.close writable).nread = pi.nread ∧
      (pi.close writable).nwrite = pi.nwrite := by
  unfold close
  split_ifs <;> exact ⟨rfl, rfl, rfl⟩

lemma close_contents (pi : Pipe) (writable : Bool) :
    (pi.close writable).contents = pi.contents := by
  obtain ⟨hdata, hread, hwrite⟩ := pi.close_counters writable
  unfold contents
  rw [hdata, hread, hwrite]

end Pipe

namespace PipeState

variable {T : Type} [DecidableEq T]

/-- The thread `t` gets to another place. -/
def move (s : PipeState T) (t : T) (pl : Place) : PipeState T :=
  { s with place := update s.place t pl }

/-- An iteration of the loop of `pipewrite`. -/
def writeRound (s : PipeState T) (t : T) (c : ℕ) (n : ℤ) (i : ℕ) (killed : Bool)
    (copyin : Option UInt8) : PipeState T :=
  if n ≤ i then s.move t (.writeDone i)
  else if s.pipe.readopen = false ∨ killed then s.move t (.writeDone (-1))
  else if s.pipe.Full then { s with lock := none }.move t (.writeAsleep c n i)
  else
    match copyin with
    | none => s.move t (.writeDone i)
    | some ch =>
      { s with pipe := s.pipe.put ch, accepted := s.accepted ++ [(c, ch)] }.move t
        (.write c n (i + 1))

/-- An iteration of the loop of `piperead` that waits. -/
def waitRound (s : PipeState T) (t : T) (n : ℤ) (killed : Bool) : PipeState T :=
  if s.pipe.Empty ∧ s.pipe.writeopen = true then
    if killed then s.move t (.readDone n (-1))
    else { s with lock := none }.move t (.readAsleep n)
  else s.move t (.read n 0)

/-- An iteration of the loop of `piperead` that copies. -/
def readRound (s : PipeState T) (t : T) (n : ℤ) (i : ℕ) (copyout : Bool) : PipeState T :=
  if n ≤ i ∨ s.pipe.Empty then s.move t (.readDone n i)
  else if copyout then
    { s with pipe := s.pipe.skip, delivered := s.delivered ++ [s.pipe.next] }.move t
      (.read n (i + 1))
  else s.move t (.readDone n (if i = 0 then -1 else i))

/-- One step of the thread `t`, if it can be taken. A pipe of which both ends are closed has been
freed. -/
def exec (s : PipeState T) (t : T) (a : PipeAct) : Option (PipeState T) :=
  if s.pipe.readopen = false ∧ s.pipe.writeopen = false then none
  else
    match a, s.place t with
    | .pipewrite n, .outside => some (s.move t (.enterWrite n))
    | .piperead n, .outside => some (s.move t (.enterRead n))
    | .acquire, .enterWrite n =>
      if s.lock = none then
        some ({ s with
          lock := some t, calls := s.calls + 1
          fits := update s.fits s.calls (n ≤ s.pipe.free) }.move t (.write s.calls n 0))
      else none
    | .acquire, .enterRead n =>
      if s.lock = none then some ({ s with lock := some t }.move t (.readWait n)) else none
    | .round killed copyin _, .write c n i => some (s.writeRound t c n i killed copyin)
    | .round killed _ _, .readWait n => some (s.waitRound t n killed)
    | .round _ _ copyout, .read n i => some (s.readRound t n i copyout)
    | .wake, .writeAsleep c n i =>
      if s.lock = none then some ({ s with lock := some t }.move t (.write c n i)) else none
    | .wake, .readAsleep n =>
      if s.lock = none then some ({ s with lock := some t }.move t (.readWait n)) else none
    | .release, .writeDone _ => some ({ s with lock := none }.move t .outside)
    | .release, .readDone _ _ => some ({ s with lock := none }.move t .outside)
    | .pipeclose writable, .outside =>
      if s.lock = none then some { s with pipe := s.pipe.close writable } else none
    | _, _ => none

end PipeState

/-- The runs of a pipe, from `pipealloc` on. -/
def pipeSystem (T : Type) [DecidableEq T] : TransitionSystem (PipeState T) (T × PipeAct) where
  init s := s.pipe.nread = 0 ∧ s.pipe.nwrite = 0 ∧ s.pipe.readopen = true ∧
    s.pipe.writeopen = true ∧ s.lock = none ∧ (∀ t, s.place t = .outside) ∧ s.accepted = [] ∧
    s.delivered = [] ∧ s.calls = 0 ∧ ∀ c, s.fits c = false
  step s l s' := s.exec l.1 l.2 = some s'

/-! ## What a step can do -/

section Step

variable {T : Type} [DecidableEq T] {s s' : PipeState T} {t : T} {a : PipeAct}

/-- The steps of the thread `t`. -/
inductive PipeStep (s : PipeState T) (t : T) : PipeState T → Prop
  /-- A call that has not acquired the lock. -/
  | call {pl : Place} (hold : s.place t = .outside) (hpl : ¬pl.Locked) (hcall : pl.call = none) :
      PipeStep s t (s.move t pl)
  /-- The start of a `pipewrite`. -/
  | enterWrite {n : ℤ} (hold : s.place t = .enterWrite n) (hlock : s.lock = none) :
      PipeStep s t ({ s with
        lock := some t, calls := s.calls + 1
        fits := update s.fits s.calls (n ≤ s.pipe.free) }.move t (.write s.calls n 0))
  /-- The start of a `piperead`, or its wakeup. -/
  | enterRead {n : ℤ} (hold : s.place t = .enterRead n ∨ s.place t = .readAsleep n)
      (hlock : s.lock = none) : PipeStep s t ({ s with lock := some t }.move t (.readWait n))
  /-- The wakeup of a `pipewrite`. -/
  | wakeWrite {c : ℕ} {n : ℤ} {i : ℕ} (hold : s.place t = .writeAsleep c n i)
      (hlock : s.lock = none) : PipeStep s t ({ s with lock := some t }.move t (.write c n i))
  /-- A `pipewrite` finds the pipe full. -/
  | sleepWrite {c : ℕ} {n : ℤ} {i : ℕ} (hold : s.place t = .write c n i) (hn : i < n)
      (hfull : s.pipe.Full) : PipeStep s t ({ s with lock := none }.move t (.writeAsleep c n i))
  /-- A `pipewrite` comes to its end. -/
  | finishWrite {c : ℕ} {n : ℤ} {i : ℕ} {ret : ℤ} (hold : s.place t = .write c n i) :
      PipeStep s t (s.move t (.writeDone ret))
  /-- A byte is written. -/
  | put {c : ℕ} {n : ℤ} {i : ℕ} {ch : UInt8} (hold : s.place t = .write c n i)
      (hroom : ¬s.pipe.Full) : PipeStep s t
        ({ s with pipe := s.pipe.put ch, accepted := s.accepted ++ [(c, ch)] }.move t
          (.write c n (i + 1)))
  /-- A `piperead` finds the pipe empty. -/
  | sleepRead {n : ℤ} (hold : s.place t = .readWait n) :
      PipeStep s t ({ s with lock := none }.move t (.readAsleep n))
  /-- A `piperead` begins to copy. -/
  | startRead {n : ℤ} (hold : s.place t = .readWait n)
      (hready : ¬(s.pipe.Empty ∧ s.pipe.writeopen = true)) : PipeStep s t (s.move t (.read n 0))
  /-- A `piperead` is killed while it waits. -/
  | killRead {n : ℤ} (hold : s.place t = .readWait n) : PipeStep s t (s.move t (.readDone n (-1)))
  /-- A `piperead` has copied all that it wants or finds. -/
  | finishRead {n : ℤ} {i : ℕ} (hold : s.place t = .read n i) (hn : n ≤ i ∨ s.pipe.Empty) :
      PipeStep s t (s.move t (.readDone n i))
  /-- A `copyout` fails. -/
  | failRead {n : ℤ} {i : ℕ} (hold : s.place t = .read n i) :
      PipeStep s t (s.move t (.readDone n (if i = 0 then -1 else i)))
  /-- A byte is read. -/
  | take {n : ℤ} {i : ℕ} (hold : s.place t = .read n i) (hne : ¬s.pipe.Empty) : PipeStep s t
      ({ s with pipe := s.pipe.skip, delivered := s.delivered ++ [s.pipe.next] }.move t
        (.read n (i + 1)))
  /-- The end of a call. -/
  | release (hold : (s.place t).Locked) (hcall : (s.place t).call = none) :
      PipeStep s t ({ s with lock := none }.move t .outside)
  /-- `pipeclose`. -/
  | close {writable : Bool} (hlock : s.lock = none) :
      PipeStep s t { s with pipe := s.pipe.close writable }

lemma PipeState.exec_cases (h : s.exec t a = some s') : PipeStep s t s' := by
  unfold exec at h
  split at h
  · cases h
  split at h
  · rename_i hold
    cases h
    exact .call hold id rfl
  · rename_i hold
    cases h
    exact .call hold id rfl
  · rename_i hold
    split_ifs at h with hlock
    cases h
    exact .enterWrite hold hlock
  · rename_i hold
    split_ifs at h with hlock
    cases h
    exact .enterRead (.inl hold) hlock
  · rename_i killed copyin _ c n i hold
    cases h
    unfold writeRound
    split_ifs with hn hopen hfull
    · exact .finishWrite hold
    · exact .finishWrite hold
    · exact .sleepWrite hold (not_le.mp hn) hfull
    · cases copyin with
      | none => exact .finishWrite hold
      | some ch => exact .put hold hfull
  · rename_i hold
    cases h
    unfold waitRound
    split_ifs with hwait hkilled
    · exact .killRead hold
    · exact .sleepRead hold
    · exact .startRead hold hwait
  · rename_i n i hold
    cases h
    unfold readRound
    by_cases hn : n ≤ i ∨ s.pipe.Empty
    · rw [if_pos hn]
      exact .finishRead hold hn
    · rw [if_neg hn]
      split
      · exact .take hold (not_or.mp hn).2
      · exact .failRead hold
  · rename_i hold
    split_ifs at h with hlock
    cases h
    exact .wakeWrite hold hlock
  · rename_i hold
    split_ifs at h with hlock
    cases h
    exact .enterRead (.inr hold) hlock
  · rename_i hold
    cases h
    exact .release (by rw [hold]; trivial) (by rw [hold]; rfl)
  · rename_i hold
    cases h
    exact .release (by rw [hold]; trivial) (by rw [hold]; rfl)
  · split_ifs at h with hlock
    cases h
    exact .close hlock
  · cases h

end Step

/-! ## The invariant -/

/-- The bytes of the call `c` are contiguous in the stream. -/
def Contiguous (c : ℕ) (l : List (ℕ × UInt8)) : Prop :=
  ∃ xs ys zs, l = xs ++ ys ++ zs ∧ (∀ x ∈ ys, x.1 = c) ∧ (∀ x ∈ xs, x.1 ≠ c) ∧ ∀ x ∈ zs, x.1 ≠ c

/-- The bytes of the call `c` are contiguous and at the end of the stream. -/
def EndsWith (c : ℕ) (l : List (ℕ × UInt8)) : Prop :=
  ∃ xs ys, l = xs ++ ys ∧ (∀ x ∈ ys, x.1 = c) ∧ ∀ x ∈ xs, x.1 ≠ c

section Contiguous

variable {c c' : ℕ} {l : List (ℕ × UInt8)} {ch : UInt8}

lemma EndsWith.contiguous (h : EndsWith c l) : Contiguous c l := by
  obtain ⟨xs, ys, rfl, hys, hxs⟩ := h
  exact ⟨xs, ys, [], by simp, hys, hxs, by simp⟩

lemma EndsWith.concat (h : EndsWith c l) : EndsWith c (l ++ [(c, ch)]) := by
  obtain ⟨xs, ys, rfl, hys, hxs⟩ := h
  refine ⟨xs, ys ++ [(c, ch)], by simp, fun x hx => ?_, hxs⟩
  rcases mem_append.mp hx with hx | hx
  · exact hys x hx
  · rw [mem_singleton.mp hx]

lemma Contiguous.concat (h : Contiguous c l) (hne : c' ≠ c) : Contiguous c (l ++ [(c', ch)]) := by
  obtain ⟨xs, ys, zs, rfl, hys, hxs, hzs⟩ := h
  refine ⟨xs, ys, zs ++ [(c', ch)], by simp, hys, hxs, fun x hx => ?_⟩
  rcases mem_append.mp hx with hx | hx
  · exact hzs x hx
  · rw [mem_singleton.mp hx]
    exact hne

/-- A call that has written nothing yet. -/
theorem endsWith_of_forall_ne (h : ∀ x ∈ l, x.1 ≠ c) : EndsWith c l :=
  ⟨l, [], by simp, by simp, h⟩

end Contiguous

/-- What holds of the state when a thread is at a place. -/
def PipeState.At {T : Type} (s : PipeState T) : Place → Prop
  | .write c n i => c < s.calls ∧
      (s.fits c = true → EndsWith c s.accepted ∧ n ≤ i + s.pipe.free)
  | .writeAsleep c _ _ => c < s.calls ∧ s.fits c = false
  | .read _ i => i = 0 → s.pipe.Empty → s.pipe.writeopen = false
  | .readDone n ret => 0 < n → ret = 0 → s.pipe.Empty ∧ s.pipe.writeopen = false
  | _ => True

/-- The invariant of a pipe. -/
structure PipeInv {T : Type} (s : PipeState T) : Prop where
  /-- The threads in a critical section are the one that has the lock. -/
  locked : ∀ t, (s.place t).Locked ↔ s.lock = some t
  count_le : count s.pipe.nread s.pipe.nwrite ≤ PIPESIZE
  stream : s.accepted.map Prod.snd = s.delivered ++ s.pipe.contents
  at_place : ∀ t, s.At (s.place t)
  /-- Every call has its own number. -/
  call_inj : ∀ {t t' c}, (s.place t).call = some c → (s.place t').call = some c → t = t'
  accepted_lt : ∀ x ∈ s.accepted, x.1 < s.calls
  fits_lt : ∀ {c}, s.fits c = true → c < s.calls
  contiguous : ∀ {c}, s.fits c = true → Contiguous c s.accepted

section Invariant

variable {T : Type} [DecidableEq T] {s s' : PipeState T} {t : T} {a : PipeAct} {pl : Place}

lemma pipeInv_init (h : (pipeSystem T).init s) : PipeInv s := by
  obtain ⟨hread, hwrite, -, -, hlock, hplace, haccepted, hdelivered, hcalls, hfits⟩ := h
  have hcount : count s.pipe.nread s.pipe.nwrite = 0 := by
    rw [hread, hwrite]
    rfl
  refine ⟨fun t => ?_, by omega, ?_, fun t => ?_, fun h => ?_, ?_, fun h => ?_, fun h => ?_⟩
  · rw [hplace, hlock]
    exact iff_of_false id (by simp)
  · rw [haccepted, hdelivered]
    unfold Pipe.contents contents
    rw [hcount]
    rfl
  · rw [hplace]
    trivial
  · rw [hplace] at h
    cases h
  · rw [haccepted]
    simp
  · rw [hfits] at h
    cases h
  · rw [hfits] at h
    cases h

/-- One thread changes its place in a critical section, which may begin or end with the step. -/
theorem locked_move (h : ∀ t', (s.place t').Locked ↔ s.lock = some t')
    (hlock : s.lock = none ∨ s.lock = some t) {o : Option T}
    (ho : pl.Locked ∧ o = some t ∨ ¬pl.Locked ∧ o = none) (t' : T) :
    (update s.place t pl t').Locked ↔ o = some t' := by
  by_cases ht : t' = t
  · subst ht
    rw [update_self]
    rcases ho with ⟨hpl, rfl⟩ | ⟨hpl, rfl⟩
    · exact iff_of_true hpl rfl
    · exact iff_of_false hpl (by simp)
  · rw [update_of_ne ht, h t']
    refine iff_of_false ?_ ?_
    · rcases hlock with hl | hl <;> rw [hl] <;> simp [Ne.symm ht]
    · rcases ho with ⟨-, rfl⟩ | ⟨-, rfl⟩ <;> simp [Ne.symm ht]

/-- The calls stay different if a thread keeps its call or leaves it. -/
theorem call_inj_move
    (h : ∀ {t t' c}, (s.place t).call = some c → (s.place t').call = some c → t = t')
    (hcall : pl.call = none ∨ pl.call = (s.place t).call) {t₁ t₂ : T} {c : ℕ}
    (h₁ : (update s.place t pl t₁).call = some c)
    (h₂ : (update s.place t pl t₂).call = some c) : t₁ = t₂ := by
  have hold : ∀ {t'}, (update s.place t pl t').call = some c → (s.place t').call = some c := by
    intro t' ht'
    by_cases heq : t' = t
    · subst heq
      rw [update_self] at ht'
      rcases hcall with hnone | hsame
      · rw [hnone] at ht'
        cases ht'
      · rwa [hsame] at ht'
    · rwa [update_of_ne heq] at ht'
  exact h (hold h₁) (hold h₂)

omit [DecidableEq T] in
/-- Outside of the critical section nothing is assumed but that a sleeping call did not fit. -/
theorem PipeState.At.of_not_locked (h : s.At pl) (hpl : ¬pl.Locked) (hcalls : s.calls ≤ s'.calls)
    (hfits : ∀ c < s.calls, s'.fits c = s.fits c) : s'.At pl := by
  cases pl with
  | writeAsleep c n i => exact ⟨h.1.trans_le hcalls, (hfits c h.1).trans h.2⟩
  | outside | enterWrite _ | enterRead _ | readAsleep _ => trivial
  | write _ _ _ | writeDone _ | readWait _ | read _ _ | readDone _ _ => exact absurd trivial hpl

/-- The assumptions of the other threads survive a step of the thread that has the lock or gets
it. -/
theorem at_move (h : PipeInv s) (hlock : s.lock = none ∨ s.lock = some t)
    (hplace : s'.place = update s.place t pl) (hcalls : s.calls ≤ s'.calls)
    (hfits : ∀ c < s.calls, s'.fits c = s.fits c) (hself : s'.At pl) (t' : T) :
    s'.At (s'.place t') := by
  rw [hplace]
  by_cases ht : t' = t
  · subst ht
    rwa [update_self]
  · rw [update_of_ne ht]
    refine (h.at_place t').of_not_locked (fun hl => ?_) hcalls hfits
    have hl := (h.locked t').mp hl
    rcases hlock with hn | hs
    · rw [hn] at hl
      cases hl
    · rw [hs] at hl
      exact ht (Option.some.inj hl).symm

namespace PipeInv

/-- A step in which a thread only changes its place and takes or gives back the lock. -/
theorem move (h : PipeInv s) (hlock : s.lock = none ∨ s.lock = some t) {o : Option T}
    (ho : pl.Locked ∧ o = some t ∨ ¬pl.Locked ∧ o = none)
    (hcall : pl.call = none ∨ pl.call = (s.place t).call) (hself : s.At pl) :
    PipeInv ({ s with lock := o }.move t pl) where
  locked := locked_move h.locked hlock ho
  count_le := h.count_le
  stream := h.stream
  at_place := at_move h hlock rfl le_rfl (fun _ _ => rfl) (by cases pl <;> exact hself)
  call_inj := call_inj_move h.call_inj hcall
  accepted_lt := h.accepted_lt
  fits_lt := h.fits_lt
  contiguous := h.contiguous

section

variable (h : PipeInv s)

include h

omit [DecidableEq T] in
lemma lock_eq (hold : s.place t = pl) (hpl : pl.Locked) : s.lock = some t :=
  (h.locked t).mp (by rwa [hold])

lemma stay (hlock : s.lock = some t) (hpl : pl.Locked)
    (hcall : pl.call = none ∨ pl.call = (s.place t).call) (hself : s.At pl) :
    PipeInv (s.move t pl) := by
  have hmove := h.move (.inr hlock) (o := s.lock) (.inl ⟨hpl, hlock⟩) hcall hself
  exact hmove

/-- A call of a thread that has no lock. -/
theorem call (hold : s.place t = .outside) (hpl : ¬pl.Locked) (hcall : pl.call = none) :
    PipeInv (s.move t pl) where
  locked t' := by
    change (update s.place t pl t').Locked ↔ _
    by_cases ht : t' = t
    · subst ht
      rw [update_self]
      refine iff_of_false hpl fun hl => ?_
      have hlocked := (h.locked t').mpr hl
      rwa [hold] at hlocked
    · rw [update_of_ne ht]
      exact h.locked t'
  count_le := h.count_le
  stream := h.stream
  at_place t' := by
    change s.At (update s.place t pl t')
    by_cases ht : t' = t
    · subst ht
      rw [update_self]
      cases pl with
      | writeAsleep c n i => cases hcall
      | outside | enterWrite _ | enterRead _ | readAsleep _ => trivial
      | write _ _ _ | writeDone _ | readWait _ | read _ _ | readDone _ _ => exact absurd trivial hpl
    · rw [update_of_ne ht]
      exact h.at_place t'
  call_inj := call_inj_move h.call_inj (.inl hcall)
  accepted_lt := h.accepted_lt
  fits_lt := h.fits_lt
  contiguous := h.contiguous

/-- A `pipewrite` acquires the lock and gets its number. -/
theorem enterWrite {n : ℤ} (hold : s.place t = .enterWrite n) (hlock : s.lock = none) :
    PipeInv ({ s with
      lock := some t, calls := s.calls + 1
      fits := update s.fits s.calls (n ≤ s.pipe.free) }.move t (.write s.calls n 0)) := by
  have hfits : ∀ c < s.calls,
      update s.fits s.calls (decide (n ≤ s.pipe.free)) c = s.fits c := by
    intro c hc
    rw [update_of_ne hc.ne]
  -- no byte of the new call has been written
  have hnew : EndsWith s.calls s.accepted :=
    endsWith_of_forall_ne fun x hx => (h.accepted_lt x hx).ne
  have hcall_lt : ∀ {t' c}, (s.place t').call = some c → c < s.calls := by
    intro t' c hc
    have hat := h.at_place t'
    cases hpl : s.place t' with
    | write c' n' i' | writeAsleep c' n' i' =>
      rw [hpl] at hc hat
      cases hc
      exact hat.1
    | _ =>
      rw [hpl] at hc
      cases hc
  refine ⟨locked_move h.locked (.inl hlock) (.inl ⟨trivial, rfl⟩), h.count_le, h.stream,
    at_move h (.inl hlock) rfl (Nat.le_succ _) hfits ⟨Nat.lt_succ_self _, fun hfit => ⟨hnew, ?_⟩⟩,
    fun {t₁ t₂ c} h₁ h₂ => ?_, fun x hx => (h.accepted_lt x hx).trans (Nat.lt_succ_self _),
    fun {c} hc => ?_, fun {c} hc => ?_⟩
  · change update s.fits s.calls (decide (n ≤ s.pipe.free)) s.calls = true at hfit
    rw [update_self] at hfit
    have hle : n ≤ s.pipe.free := of_decide_eq_true hfit
    change n ≤ ((0 : ℕ) : ℤ) + s.pipe.free
    omega
  · -- the number of the new call is larger than all others
    have hother : ∀ {t'}, t' ≠ t →
        (update s.place t (.write s.calls n 0) t').call = some c → c < s.calls := by
      intro t' ht' hc
      rw [update_of_ne ht'] at hc
      exact hcall_lt hc
    have hself : ∀ {t'}, t' = t →
        (update s.place t (.write s.calls n 0) t').call = some c → c = s.calls := by
      rintro t' rfl hc
      rw [update_self] at hc
      exact (Option.some.inj hc).symm
    by_cases ht₁ : t₁ = t <;> by_cases ht₂ : t₂ = t
    · rw [ht₁, ht₂]
    · have := hself ht₁ h₁
      have := hother ht₂ h₂
      omega
    · have := hother ht₁ h₁
      have := hself ht₂ h₂
      omega
    · change (update s.place t _ t₁).call = some c at h₁
      change (update s.place t _ t₂).call = some c at h₂
      rw [update_of_ne ht₁] at h₁
      rw [update_of_ne ht₂] at h₂
      exact h.call_inj h₁ h₂
  · change c < s.calls + 1
    by_cases hcc : c = s.calls
    · omega
    · change update s.fits s.calls _ c = true at hc
      rw [update_of_ne hcc] at hc
      exact (h.fits_lt hc).trans (Nat.lt_succ_self _)
  · by_cases hcc : c = s.calls
    · rw [hcc]
      exact hnew.contiguous
    · change update s.fits s.calls _ c = true at hc
      rw [update_of_ne hcc] at hc
      exact h.contiguous hc

lemma put {c : ℕ} {n : ℤ} {i : ℕ} (hold : s.place t = .write c n i) (hroom : ¬s.pipe.Full)
    (ch : UInt8) :
    PipeInv ({ s with pipe := s.pipe.put ch, accepted := s.accepted ++ [(c, ch)] }.move t
      (.write c n (i + 1))) := by
  have hlock := h.lock_eq hold trivial
  obtain ⟨hc, hfit⟩ : s.At (.write c n i) := hold ▸ h.at_place t
  have hlt : count s.pipe.nread s.pipe.nwrite < PIPESIZE :=
    lt_of_le_of_ne h.count_le fun heq => hroom (Pipe.full_iff.mpr heq)
  have hcount := Pipe.count_put ch hlt
  refine ⟨locked_move h.locked (.inr hlock) (.inl ⟨trivial, hlock⟩), ?_, ?_,
    at_move h (.inr hlock) rfl le_rfl (fun _ _ => rfl) ⟨hc, fun hf => ⟨(hfit hf).1.concat, ?_⟩⟩,
    call_inj_move h.call_inj (.inr (by rw [hold]; rfl)), fun x hx => ?_, h.fits_lt,
    fun {c'} hc' => ?_⟩
  · change count (s.pipe.put ch).nread (s.pipe.put ch).nwrite ≤ PIPESIZE
    omega
  · change (s.accepted ++ [(c, ch)]).map Prod.snd = s.delivered ++ (s.pipe.put ch).contents
    rw [Pipe.contents_put ch hlt, map_append, h.stream, append_assoc]
    rfl
  · -- the free space and what is left of the call get smaller together
    have hspace := (hfit hf).2
    change n ≤ ((i + 1 : ℕ) : ℤ) +
      ((PIPESIZE - count (s.pipe.put ch).nread (s.pipe.put ch).nwrite : ℕ) : ℤ)
    unfold Pipe.free at hspace
    rw [hcount]
    omega
  · rcases mem_append.mp hx with hx | hx
    · exact h.accepted_lt x hx
    · rw [mem_singleton.mp hx]
      exact hc
  · by_cases hcc : c' = c
    · subst hcc
      exact (hfit hc').1.concat.contiguous
    · exact (h.contiguous hc').concat (Ne.symm hcc)

lemma take {n : ℤ} {i : ℕ} (hold : s.place t = .read n i) (hne : ¬s.pipe.Empty) :
    PipeInv ({ s with pipe := s.pipe.skip, delivered := s.delivered ++ [s.pipe.next] }.move t
      (.read n (i + 1))) := by
  have hlock := h.lock_eq hold trivial
  have hcount := Pipe.count_skip hne
  refine ⟨locked_move h.locked (.inr hlock) (.inl ⟨trivial, hlock⟩), ?_, ?_,
    at_move h (.inr hlock) rfl le_rfl (fun _ _ => rfl) (fun hi => absurd hi (Nat.succ_ne_zero i)),
    call_inj_move h.call_inj (.inl rfl), h.accepted_lt, h.fits_lt, h.contiguous⟩
  · have := h.count_le
    change count s.pipe.skip.nread s.pipe.skip.nwrite ≤ PIPESIZE
    omega
  · change s.accepted.map Prod.snd = s.delivered ++ [s.pipe.next] ++ s.pipe.skip.contents
    rw [h.stream, Pipe.contents_eq_cons hne, append_assoc]
    rfl

end

omit [DecidableEq T] in
lemma close (h : PipeInv s) (hlock : s.lock = none) (writable : Bool) :
    PipeInv { s with pipe := s.pipe.close writable } := by
  obtain ⟨-, hread, hwrite⟩ := s.pipe.close_counters writable
  refine ⟨h.locked, ?_, ?_, fun t => ?_, h.call_inj, h.accepted_lt, h.fits_lt, h.contiguous⟩
  · change count (s.pipe.close writable).nread (s.pipe.close writable).nwrite ≤ PIPESIZE
    rw [hread, hwrite]
    exact h.count_le
  · change s.accepted.map Prod.snd = s.delivered ++ (s.pipe.close writable).contents
    rw [Pipe.close_contents]
    exact h.stream
  · -- no thread is in a critical section
    refine (h.at_place t).of_not_locked (fun hl => ?_) le_rfl fun _ _ => rfl
    have hl := (h.locked t).mp hl
    rw [hlock] at hl
    cases hl

lemma step (h : PipeInv s) (hstep : s.exec t a = some s') : PipeInv s' := by
  have hstep := PipeState.exec_cases hstep
  have hat := h.at_place t
  cases hstep with
  | call hold hpl hcall => exact h.call hold hpl hcall
  | enterWrite hold hlock => exact h.enterWrite hold hlock
  | enterRead hold hlock => exact h.move (.inl hlock) (.inl ⟨trivial, rfl⟩) (.inl rfl) trivial
  | @wakeWrite c n i hold hlock =>
    rw [hold] at hat
    refine h.move (.inl hlock) (.inl ⟨trivial, rfl⟩) (.inr (by rw [hold]; rfl))
      ⟨hat.1, fun hf => ?_⟩
    rw [hat.2] at hf
    cases hf
  | @sleepWrite c n i hold hn hfull =>
    rw [hold] at hat
    refine h.move (.inr (h.lock_eq hold trivial)) (.inr ⟨id, rfl⟩) (.inr (by rw [hold]; rfl))
      ⟨hat.1, ?_⟩
    -- a call that fits does not find the pipe full
    by_contra hf
    have hspace := (hat.2 ((Bool.not_eq_false _).mp hf)).2
    unfold Pipe.free at hspace
    rw [Pipe.full_iff.mp hfull] at hspace
    omega
  | finishWrite hold => exact h.stay (h.lock_eq hold trivial) trivial (.inl rfl) trivial
  | put hold hroom => exact h.put hold hroom _
  | sleepRead hold =>
    exact h.move (.inr (h.lock_eq hold trivial)) (.inr ⟨id, rfl⟩) (.inl rfl) trivial
  | startRead hold hready =>
    refine h.stay (h.lock_eq hold trivial) trivial (.inl rfl) fun _ hempty => ?_
    exact (Bool.not_eq_true _).mp fun hopen => hready ⟨hempty, hopen⟩
  | killRead hold =>
    exact h.stay (h.lock_eq hold trivial) trivial (.inl rfl) fun _ hret => by omega
  | @finishRead n i hold hn =>
    rw [hold] at hat
    refine h.stay (h.lock_eq hold trivial) trivial (.inl rfl) fun hpos hret => ?_
    have hempty : s.pipe.Empty := hn.resolve_left (by omega)
    exact ⟨hempty, hat (by omega) hempty⟩
  | @failRead n i hold =>
    refine h.stay (h.lock_eq hold trivial) trivial (.inl rfl) fun _ hret => ?_
    split_ifs at hret
    omega
  | take hold hne => exact h.take hold hne
  | release hold hcall =>
    exact h.move (.inr ((h.locked t).mp hold)) (.inr ⟨id, rfl⟩) (.inl rfl) trivial
  | close hlock => exact h.close hlock _

lemma of_reachable (hs : (pipeSystem T).Reachable s) : PipeInv s :=
  hs.invariant (I := PipeInv) (fun _ hinit => pipeInv_init hinit)
    fun _ _ _ _ h hstep => h.step hstep

end PipeInv

end Invariant

/-- In every run of any number of threads: the counters are at most `PIPESIZE` apart, modulo `2 ^
32`; the bytes delivered are a prefix of the bytes accepted, and the others are those in the pipe,
in the same order; a byte whose `copyout` fails stays in the pipe; a `piperead` returns 0 only if it
asked for nothing, or found the pipe empty and its write end closed; and the bytes of a `pipewrite`
that fitted into the free space are contiguous in the stream. -/
theorem pipe_integrity {T : Type} [DecidableEq T] {s : PipeState T}
    (hs : (pipeSystem T).Reachable s) :
    (s.pipe.nwrite - s.pipe.nread).toNat ≤ PIPESIZE ∧
    s.delivered <+: s.accepted.map Prod.snd ∧
    s.accepted.map Prod.snd = s.delivered ++ s.pipe.contents ∧
    (∀ t n i killed copyin s', s.place t = .read n i →
      s.exec t (.round killed copyin false) = some s' →
      s'.pipe = s.pipe ∧ s'.delivered = s.delivered) ∧
    (∀ t n, s.place t = .readDone n 0 → 0 < n →
      s.pipe.nread = s.pipe.nwrite ∧ s.pipe.writeopen = false) ∧
    ∀ c, s.fits c = true → Contiguous c s.accepted := by
  have h := PipeInv.of_reachable hs
  refine ⟨h.count_le, ⟨s.pipe.contents, h.stream.symm⟩, h.stream, ?_, fun t n hplace hn => ?_,
    fun c hc => h.contiguous hc⟩
  · intro t n i killed copyin s' hplace hexec
    unfold PipeState.exec at hexec
    split at hexec
    · cases hexec
    · rw [hplace] at hexec
      obtain rfl := Option.some.inj hexec
      unfold PipeState.readRound
      by_cases hn : n ≤ i ∨ s.pipe.Empty
      · rw [if_pos hn]
        exact ⟨rfl, rfl⟩
      · rw [if_neg hn]
        exact ⟨rfl, rfl⟩
  · have hat := h.at_place t
    rw [hplace] at hat
    exact hat hn rfl

/-- A pipe after `pipealloc`, with two threads. -/
def newPipe : PipeState (Fin 2) where
  pipe := ⟨fun _ => 0, 0, 0, true, true⟩
  lock := none
  place _ := .outside
  calls := 0
  fits _ := false
  accepted := []
  delivered := []

/-- Thread `w` writes three bytes and closes the write end; thread `r` reads twice, and the second
time its buffer is not valid after one byte. -/
def threeBytes (w r : Fin 2) : List (Fin 2 × PipeAct) :=
  [(w, .pipewrite 3), (w, .acquire), (r, .piperead 1), (w, .round false (some 7) true),
    (w, .round false (some 8) true), (w, .round false (some 9) true), (w, .round false none true),
    (w, .release), (r, .acquire), (r, .round false none true), (r, .round false none true),
    (r, .round false none true), (r, .release), (w, .pipeclose true), (r, .piperead 5),
    (r, .acquire), (r, .round false none true), (r, .round false none true),
    (r, .round false none false)]

theorem pipe_integrity_three : ∃ s, (pipeSystem (Fin 2)).Reachable s ∧ s.delivered = [7, 8] ∧
    s.pipe.contents = [9] ∧ s.place 1 = .readDone 5 1 ∧ s.fits 0 = true ∧
    s.accepted.map Prod.snd = s.delivered ++ s.pipe.contents ∧ Contiguous 0 s.accepted := by
  have hrun : ((threeBytes 0 1).foldlM (fun (s : PipeState (Fin 2)) l => s.exec l.1 l.2)
      newPipe).any fun s => s.delivered = [7, 8] ∧ s.pipe.contents = [9] ∧
        s.place 1 = .readDone 5 1 ∧ s.fits 0 = true := by
    decide +kernel
  have hnew : (pipeSystem (Fin 2)).Reachable newPipe :=
    .init ⟨rfl, rfl, rfl, rfl, rfl, fun _ => rfl, rfl, rfl, rfl, fun _ => rfl⟩
  obtain ⟨s, hreach, hdel, hcont, hplace, hfit⟩ := hnew.exists_of_foldlM (fun _ _ _ => id) hrun
  obtain ⟨-, -, hstream, -, -, hcontig⟩ := pipe_integrity hreach
  exact ⟨s, hreach, hdel, hcont, hplace, hfit, hstream, hcontig 0 hfit⟩

end Xv6
