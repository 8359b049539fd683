import Xv6.Pipe.Model
import Xv6.VM.CopyRounds
import Xv6.VM.NoLeak
import Xv6.VM.SpinLocks

/-!
# Copies of user memory under a spinlock

Five kernel functions access user memory while they hold a spinlock: `kfork` copies the parent's
pages with `np->lock` held, `kwait` copies the exit status with `wait_lock` and the lock of the
child, `pipewrite` and `piperead` copy bytes with `pi->lock` and `consoleread` with `cons.lock`. If
the page is swapped out, or a frame for it must be freed by an eviction, the copy waits for the
disk, and `sched` panics because of that lock.

The functions are modelled round by round (`Task`), with the operations of the other processes
between the rounds. `sched_locks_unreachable` says that the copies that wait for the disk
(`LockAct.WaitsForDisk`) are the only way to this panic.
-/

namespace Xv6.VM

open Fallible Function Option Kernel

namespace Kernel

variable {σ : Type} {D : SwapDev σ} {k k' : Kernel σ} {p np : ProcId}
  {old new r va pa i n : ℕ}

/-! ## Waiting for the disk -/

/-- A fault of `p` at `va` waits for the disk: its page is not resident, and either a page has to be
evicted or it is swapped out. -/
def FaultWaits (k : Kernel σ) (p : ProcId) (va : ℕ) : Prop :=
  va < (k.proc p).sz ∧
    match k.walk (k.proc p).pagetable (pgrounddown va) with
    | .error _ => False
    | .ok o => (∀ q ∈ o, (k.pte q).flags.v = false) ∧
        (k.NeedsVictim ∨ ∃ q ∈ o, (k.pte q).flags.s = true)

instance (k : Kernel σ) (p : ProcId) (va : ℕ) : Decidable (k.FaultWaits p va) :=
  have : Decidable (match k.walk (k.proc p).pagetable (pgrounddown va) with
      | .error _ => False
      | .ok o => (∀ q ∈ o, (k.pte q).flags.v = false) ∧
          (k.NeedsVictim ∨ ∃ q ∈ o, (k.pte q).flags.s = true)) :=
    match k.walk (k.proc p).pagetable (pgrounddown va) with
    | .error _ => inferInstanceAs (Decidable False)
    | .ok _ => inferInstanceAs (Decidable (_ ∧ _))
  inferInstanceAs (Decidable (_ ∧ _))

/-- The round of `uvmcopy` for the page at `i` waits for the disk: the page is swapped out and there
are a slot and a buffer for its copy, or it is resident and a page has to be evicted for its copy.
-/
def CopyWaits (k : Kernel σ) (old i : ℕ) : Prop :=
  match k.walk old i with
  | .error _ => False
  | .ok o => ∃ q ∈ o, if (k.pte q).flags.s then ¬k.SlotsFull ∧ k.freelist ≠ []
      else (k.pte q).flags.v = true ∧ k.NeedsVictim

instance (k : Kernel σ) : Decidable k.SlotsFull := inferInstanceAs (Decidable (∀ j < _, _))

instance (k : Kernel σ) (old i : ℕ) : Decidable (k.CopyWaits old i) := by
  unfold CopyWaits
  split <;> infer_instance

/-- A free frame is taken without touching entries. -/
theorem kallocUser_room (D : SwapDev σ) (va : ℕ) (p : ProcId) (hroom : ¬k.NeedsVictim) :
    ∃ pg k1, k.kallocUser D va p = .ok (pg, k1) ∧ k1.ptes = k.ptes := by
  obtain ⟨j, pg, rest, -, -, hkalloc⟩ := kallocUser_of_room D va p hroom
  exact ⟨pg, _, hkalloc, rfl⟩

/-- A fault that does not wait does not panic in `sched`. -/
theorem vmfault_avoids_of_not_waits (D : SwapDev σ) (hwait : ¬k.FaultWaits p va) :
    Avoids "sched locks" (k.vmfault D p (k.proc p).pagetable va) := by
  unfold vmfault
  split_ifs with hsz
  · exact .ok _
  dsimp only
  refine ((stable_idle 0).ismapped k _ _).avoids.bind fun b hb => ?_
  split_ifs with hmapped
  · exact .ok _
  refine ((stable_idle 0).walk k _ _).avoids.bind fun o ho => ?_
  have hinvalid : ∀ q ∈ o, (k.pte q).flags.v = false := by
    rintro q rfl
    unfold ismapped at hb
    rw [bind_of_ok ho] at hb
    cases hb
    exact (Bool.not_eq_true _).mp hmapped
  have hquiet : ¬(k.NeedsVictim ∨ ∃ q ∈ o, (k.pte q).flags.s = true) := by
    intro hc
    refine hwait ⟨Nat.lt_of_not_le hsz, ?_⟩
    rw [ho]
    exact ⟨hinvalid, hc⟩
  obtain ⟨hroom, hswapped⟩ := not_or.mp hquiet
  obtain ⟨pg, k1, hkalloc, hptes⟩ := kallocUser_room D (pgrounddown va) p hroom
  rw [bind_of_ok hkalloc]
  dsimp only
  split_ifs
  · exact .ok _
  cases o with
  | none => exact ((stable_idle _).mapZeros rfl).avoids
  | some q =>
    have hs : ¬(k1.pte q).flags.s = true := by
      rw [show k1.pte q = k.pte q from congrArg (fun t => t q.1 q.2) hptes]
      exact fun hc => hswapped ⟨q, rfl, hc⟩
    dsimp only
    rw [if_neg hs]
    exact ((stable_idle _).mapZeros rfl).avoids

lemma userPa_avoids_of_not_waits (D : SwapDev σ) (hwait : ¬k.FaultWaits p va) :
    Avoids "sched locks" (k.userPa D p (k.proc p).pagetable va) := by
  unfold userPa
  refine ((stable_idle 0).walkaddr k _ _).avoids.bind fun pa0 _ => ?_
  split_ifs
  · exact vmfault_avoids_of_not_waits D hwait
  · exact .ok _

lemma copyPage_avoids_of_not_waits (D : SwapDev σ) (hwait : ¬k.CopyWaits old i) :
    Avoids "sched locks" (k.copyPage D old new i np) := by
  unfold copyPage
  refine ((stable_idle 0).walk k _ _).avoids.bind fun o ho => ?_
  unfold CopyWaits at hwait
  rw [ho] at hwait
  cases o with
  | none => exact .ok _
  | some q =>
    dsimp only at hwait ⊢
    split_ifs with hnone hs
    · exact .ok _
    · -- no slot or no buffer: the copy fails before it reads
      have hfail : k.SlotsFull ∨ k.freelist = [] := by
        by_contra hc
        rw [not_or] at hc
        exact hwait ⟨q, rfl, by rw [if_pos hs]; exact hc⟩
      unfold copySwapped
      split
      · exact .ok _
      · rename_i c k1 htake
        obtain ⟨-, -, rfl⟩ := takeSlot_eq_some htake
        rcases hfail with hfull | hempty
        · rw [takeSlot_of_slotsFull hfull] at htake
          cases htake
        · have hkalloc : (k.setSlot c { inUse := true, p := some np }).kalloc =
              (none, k.setSlot c { inUse := true, p := some np }) := by
            unfold kalloc
            rw [show (k.setSlot c _).freelist = [] from hempty]
          rw [hkalloc]
          exact .ok _
    · have hv : (k.pte q).flags.v = true := by
        by_contra hc
        exact hnone ⟨(Bool.not_eq_true _).mp hc, (Bool.not_eq_true _).mp hs⟩
      have hroom : ¬k.NeedsVictim := fun hneed =>
        hwait ⟨q, rfl, by rw [if_neg hs]; exact ⟨hv, hneed⟩⟩
      obtain ⟨pg, k1, hkalloc, hptes⟩ := kallocUser_room D i np hroom
      have hpte : k1.pte q = k.pte q := congrArg (fun t => t q.1 q.2) hptes
      unfold copyResident
      rw [bind_of_ok hkalloc]
      dsimp only
      split_ifs
      · exact .ok _
      · -- the parent's page is still resident and is copied from its frame
        unfold fillFrame
        rw [hpte, if_pos hv]
        refine ((stable_idle _).mappages rfl).avoids.bind fun res _ => ?_
        obtain ⟨b, k2⟩ := res
        cases b with
        | true => exact .ok _
        | false => exact ((stable_idle _).kfreeUser _ rfl).avoids.bind fun _ _ => .ok _

end Kernel

/-! ## The console -/

/-- `INPUT_BUF_SIZE`. -/
def INPUT_BUF_SIZE : ℕ := 128

/-- The input buffer of the console. -/
structure Console where
  buf : ℕ → UInt8
  r : UInt32
  w : UInt32
  e : UInt32

/-- `C('D')`, the end of the input. -/
def CTRL_D : UInt8 := 4

/-! ## Rounds -/

/-- Where a process is in a function that accesses user memory under a spinlock. -/
inductive Task where
  /-- In none of them; the last one returned `ret`. -/
  | user (ret : ℤ)
  /-- In `kfork`, with the lock of the child `np` held; `uvmcopy` has `n` pages left, from `i` on.
  -/
  | fork (np : ProcId) (n i : ℕ)
  /-- In `kwait`, with `wait_lock` and the lock of the child `pp` held; the bytes `src` of the exit
  status are left to copy to `dstva`. -/
  | wait (pp : ProcId) (dstva : ℕ) (src : List UInt8)
  /-- In the loop of `pipewrite(pi, addr, n)`, with `pi->lock` held. -/
  | pipewrite (pi addr : ℕ) (n : ℤ) (i : ℕ)
  /-- In the loop of `piperead(pi, addr, n)` that waits for data, with `pi->lock` held. -/
  | pipewait (pi addr : ℕ) (n : ℤ)
  /-- In the loop of `piperead(pi, addr, n)` that copies, with `pi->lock` held. -/
  | piperead (pi addr : ℕ) (n : ℤ) (i : ℕ)
  /-- In the loop of `consoleread(user_dst, dst, n)`, with `cons.lock` held. -/
  | consoleread (userDst : Bool) (dst : ℕ) (n : ℤ) (target : ℤ)

/-- The process is in none of the functions. -/
def Task.isUser : Task → Bool
  | .user _ => true
  | _ => false

/-- The number of spinlocks that the process holds. -/
def Task.locks : Task → ℕ
  | .user _ => 0
  | .fork _ _ _ => 1
  | .wait _ _ _ => 2
  | .pipewrite _ _ _ _ | .pipewait _ _ _ | .piperead _ _ _ _ | .consoleread _ _ _ _ => 1

namespace Kernel

variable {σ : Type}

/-- The round of `kfork` by `p`: a page of `uvmcopy`, or what comes after its last page. -/
def forkRound (D : SwapDev σ) (k : Kernel σ) (p np : ProcId) (i : ℕ) :
    ℕ → Except String (Task × Kernel σ)
  | 0 =>
    let k := k.setProc np
      { k.proc np with sz := (k.proc p).sz, regs := { (k.proc p).regs with a0 := 0 } }
    let k := k.release
    let k := k.setProc np { k.proc np with parent := some p }
    .ok (.user (k.proc np).pid, k.setProc np { k.proc np with state := .runnable })
  | n + 1 => do
    match ← k.copyPage D (k.proc p).pagetable (k.proc np).pagetable i np with
    | (true, k) => pure (.fork np n (i + PGSIZE), k)
    | (false, k) => do
      let k ← k.uvmunmap (k.proc np).pagetable 0 (i / PGSIZE) true
      let k ← k.freeproc np
      pure (.user (-1), k.release)

/-- The round of `kwait` by `p`: the copy of bytes in one page, or what comes after the copy. -/
def waitRound (D : SwapDev σ) (k : Kernel σ) (p pp : ProcId) (dstva : ℕ) (src : List UInt8) :
    Except String (Task × Kernel σ) :=
  if src = [] then do
    let pid := (k.proc pp).pid
    let k ← k.freeproc pp
    pure (.user pid, k.release.release)
  else do
    match ← CopyOut.round D p (k.proc p).pagetable ⟨k, dstva, src⟩ with
    | (none, k) => pure (.user (-1), k.release.release)
    | (some c, _) => pure (.wait pp c.dstva c.src, c.kernel)

/-- A round of the loop of `pipewrite`. The process does not leave its place while it sleeps. -/
def pipewriteRound (D : SwapDev σ) (k : Kernel σ) (p : ProcId) (pi addr : ℕ) (n : ℤ) (i : ℕ)
    (killed : Bool) (pipe : Pipe) : Except String (Task × Pipe × Kernel σ) :=
  if n ≤ i then .ok (.user i, pipe, k.release)
  else if pipe.readopen = false ∨ killed then .ok (.user (-1), pipe, k.release)
  else if pipe.Full then do
    sleep k.noff
    pure (.pipewrite pi addr n i, pipe, k)
  else do
    match ← k.copyin D p (k.proc p).pagetable ((addr + i) % 2 ^ 64) 1 with
    | (none, k) => pure (.user i, pipe, k.release)
    | (some ch, k) => pure (.pipewrite pi addr n (i + 1), pipe.put (ch.headD 0), k)

/-- A round of the loop of `piperead` that waits for data. -/
def pipewaitRound (k : Kernel σ) (pi addr : ℕ) (n : ℤ) (killed : Bool) (pipe : Pipe) :
    Except String (Task × Kernel σ) :=
  if pipe.Empty ∧ pipe.writeopen = true then
    if killed then .ok (.user (-1), k.release)
    else do
      sleep k.noff
      pure (.pipewait pi addr n, k)
  else .ok (.piperead pi addr n 0, k)

/-- A round of the loop of `piperead` that copies. -/
def pipereadRound (D : SwapDev σ) (k : Kernel σ) (p : ProcId) (pi addr : ℕ) (n : ℤ) (i : ℕ)
    (pipe : Pipe) : Except String (Task × Pipe × Kernel σ) :=
  if n ≤ i ∨ pipe.Empty then .ok (.user i, pipe, k.release)
  else do
    match ← k.copyout D p (k.proc p).pagetable ((addr + i) % 2 ^ 64) [pipe.next] with
    | (false, k) => pure (.user (if i = 0 then -1 else i), pipe, k.release)
    | (true, k) => pure (.piperead pi addr n (i + 1), pipe.skip, k)

/-- A round of the loop of `consoleread`. -/
def consolereadRound (D : SwapDev σ) (k : Kernel σ) (p : ProcId) (userDst : Bool) (dst : ℕ)
    (n target : ℤ) (killed : Bool) (cons : Console) : Except String (Task × Console × Kernel σ) :=
  if n ≤ 0 then .ok (.user (target - n), cons, k.release)
  else if cons.r = cons.w then
    if killed then .ok (.user (-1), cons, k.release)
    else do
      sleep k.noff
      pure (.consoleread userDst dst n target, cons, k)
  else
    let c := cons.buf (cons.r.toNat % INPUT_BUF_SIZE)
    if c = CTRL_D then
      -- an end of file after other characters is kept for the next call
      let cons := if n < target then cons else { cons with r := cons.r + 1 }
      .ok (.user (target - n), cons, k.release)
    else do
      let cons := { cons with r := cons.r + 1 }
      let (copied, k) ←
        (if userDst then k.copyout D p (k.proc p).pagetable dst [c] else pure (true, k))
      if copied then
        if c = 10 then pure (.user (target - (n - 1)), cons, k.release)
        else pure (.consoleread userDst ((dst + 1) % 2 ^ 64) (n - 1) target, cons, k)
      else pure (.user (target - n), cons, k.release)

end Kernel

/-! ## The system -/

/-- The kernel while processes are inside the functions that copy under a spinlock. `kernel.noff` is
the number of spinlocks held by a process that is not inside one. -/
structure Locked (σ : Type) where
  kernel : Kernel σ
  task : ProcId → Task
  pipe : ℕ → Pipe
  console : Console
  /-- The message of the panic that stopped the machine. -/
  panic : Option String

/-- A step of a process. -/
inductive LockAct where
  /-- A memory operation other than `fork` and `wait`, run to completion. -/
  | op (e : Event)
  /-- Enter `kfork`, up to `uvmcopy`. -/
  | fork (p : ProcId)
  /-- Enter `kwait`, up to the copy of the exit status. -/
  | wait (p : ProcId) (addr : ℕ) (killed : Bool)
  /-- Enter `pipewrite`. -/
  | pipewrite (p : ProcId) (pi addr : ℕ) (n : ℤ)
  /-- Enter `piperead`. -/
  | piperead (p : ProcId) (pi addr : ℕ) (n : ℤ)
  /-- Enter `consoleread`. -/
  | consoleread (p : ProcId) (userDst : Bool) (dst : ℕ) (n : ℤ)
  /-- The next round of the function in which `p` is. -/
  | round (p : ProcId) (killed : Bool)
  /-- `pipeclose`. -/
  | pipeclose (pi : ℕ) (writable : Bool)
  /-- `consoleintr` changes the input buffer. -/
  | consoleintr (buf : ℕ → UInt8) (w e : UInt32)

namespace Locked

variable {σ : Type}

/-- The kernel as the process `p` sees it, with the spinlocks that it holds. -/
def own (s : Locked σ) (p : ProcId) : Kernel σ := { s.kernel with noff := (s.task p).locks }

/-- `p` goes on with `t`, and the kernel is `k`. -/
def resume (s : Locked σ) (p : ProcId) (t : Task) (k : Kernel σ) : Locked σ :=
  { s with task := update s.task p t, kernel := { k with noff := 0 } }

/-- The next round of the function in which `p` is. -/
def round (D : SwapDev σ) (s : Locked σ) (p : ProcId) (killed : Bool) :
    Except String (Locked σ) :=
  match s.task p with
  | .user _ => .ok s
  | .fork np n i => do
    let (t, k) ← (s.own p).forkRound D p np i n
    pure (s.resume p t k)
  | .wait pp dstva src => do
    let (t, k) ← (s.own p).waitRound D p pp dstva src
    pure (s.resume p t k)
  | .pipewrite pi addr n i => do
    let (t, pipe, k) ← (s.own p).pipewriteRound D p pi addr n i killed (s.pipe pi)
    pure { s.resume p t k with pipe := update s.pipe pi pipe }
  | .pipewait pi addr n => do
    let (t, k) ← (s.own p).pipewaitRound pi addr n killed (s.pipe pi)
    pure (s.resume p t k)
  | .piperead pi addr n i => do
    let (t, pipe, k) ← (s.own p).pipereadRound D p pi addr n i (s.pipe pi)
    pure { s.resume p t k with pipe := update s.pipe pi pipe }
  | .consoleread userDst dst n target => do
    let (t, cons, k) ← (s.own p).consolereadRound D p userDst dst n target killed s.console
    pure { s.resume p t k with console := cons }

/-- `kfork` up to `uvmcopy`. -/
def enterFork (trampoline : ℕ) (s : Locked σ) (p : ProcId) : Except String (Locked σ) := do
  match ← s.kernel.allocproc trampoline with
  | (none, k) => pure (s.resume p (.user (-1)) k)
  | (some np, k) => pure (s.resume p (.fork np (pagesFrom 0 (k.proc p).sz) 0) k)

/-- `kwait` up to the copy of the exit status: a process without children, or that has been killed,
returns, and one without an exited child sleeps. -/
def enterWait (s : Locked σ) (p : ProcId) (addr : ℕ) (killed : Bool) :
    Except String (Locked σ) :=
  match s.kernel.zombieChild p with
  | some pp =>
    let status := toBytes 4 ((s.kernel.proc pp).xstate % 2 ^ 32).toNat
    .ok (s.resume p (.wait pp addr (if addr ≠ 0 then status else [])) s.kernel)
  | none =>
    if (∀ pp, (s.kernel.proc pp).parent ≠ some p) ∨ killed then
      .ok (s.resume p (.user (-1)) s.kernel)
    else do
      sleep (s.kernel.noff + 1)
      pure s

/-- `p` runs and is in none of the functions. -/
def Free (s : Locked σ) (p : ProcId) : Prop :=
  (s.kernel.proc p).state = .running ∧ (s.task p).isUser = true
  deriving Decidable

/-- The step can be taken. A process starts an operation when it is in none of the functions; `fork`
and `wait` are taken round by round. -/
def Enabled (s : Locked σ) : LockAct → Prop
  | .op e =>
    match e with
    | .fork _ _ | .wait _ _ _ => False
    | .schedule _ _ _ => True
    | .fault p _ _ | .load p _ _ | .store p _ _ | .sbrk p _ _ _ | .exec p _ _ _ | .exit p _ =>
      s.Free p
  | .fork p | .wait p _ _ | .pipewrite p _ _ _ | .piperead p _ _ _
  | .consoleread p _ _ _ => s.Free p
  | .round p _ => (s.kernel.proc p).state = .running
  | .pipeclose _ _ | .consoleintr _ _ _ => True

/-- What a step other than a memory operation does, for a process that may take it. -/
def act (D : SwapDev σ) (trampoline : ℕ) (s : Locked σ) : LockAct → Except String (Locked σ)
  | .op _ => .ok s
  | .fork p => s.enterFork trampoline p
  | .wait p addr killed => s.enterWait p addr killed
  | .pipewrite p pi addr n => .ok (s.resume p (.pipewrite pi addr n 0) s.kernel)
  | .piperead p pi addr n => .ok (s.resume p (.pipewait pi addr n) s.kernel)
  | .consoleread p userDst dst n => .ok (s.resume p (.consoleread userDst dst n n) s.kernel)
  | .round p killed => s.round D p killed
  | .pipeclose pi writable =>
    .ok { s with pipe := update s.pipe pi ((s.pipe pi).close writable) }
  | .consoleintr buf w e => .ok { s with console := { s.console with buf := buf, w := w, e := e } }

/-- One step of the system. A panic stops the machine. -/
def Step (D : SwapDev σ) (trampoline : ℕ) (s : Locked σ) (a : LockAct) (s' : Locked σ) : Prop :=
  s.panic = none ∧ s.Enabled a ∧
    match a with
    | .op e => (∃ k', s.kernel.Step D trampoline e k' ∧ s' = { s with kernel := k' }) ∨
        ∃ msg, s.kernel.Panics D trampoline e msg ∧ s' = { s with panic := some msg }
    | a => s.act D trampoline a = .ok s' ∨
        ∃ msg, s.act D trampoline a = .error msg ∧ s' = { s with panic := some msg }

/-- The access to user memory in the next round of `p` waits for the disk. -/
def WaitsForDisk (s : Locked σ) : LockAct → Prop
  | .round p killed =>
    match s.task p with
    | .fork _ n i => n ≠ 0 ∧ s.kernel.CopyWaits (s.kernel.proc p).pagetable i
    | .wait _ dstva src => src ≠ [] ∧ s.kernel.FaultWaits p (pgrounddown dstva)
    | .pipewrite pi addr n i => i < n ∧ (s.pipe pi).readopen = true ∧ killed = false ∧
        ¬(s.pipe pi).Full ∧ s.kernel.FaultWaits p (pgrounddown ((addr + i) % 2 ^ 64))
    | .piperead pi addr n i => i < n ∧ ¬(s.pipe pi).Empty ∧
        s.kernel.FaultWaits p (pgrounddown ((addr + i) % 2 ^ 64))
    | .consoleread userDst dst n _ => 0 < n ∧ s.console.r ≠ s.console.w ∧
        s.console.buf (s.console.r.toNat % INPUT_BUF_SIZE) ≠ CTRL_D ∧ userDst = true ∧
        s.kernel.FaultWaits p (pgrounddown dst)
    | .user _ | .pipewait _ _ _ => False
  | _ => False

end Locked

/-- The system, from the state after boot. -/
def lockedSystem {σ : Type} (D : SwapDev σ) (trampoline : ℕ) :
    TransitionSystem (Locked σ) LockAct where
  init s := (memorySystem D trampoline).init s.kernel ∧ (∀ p, s.task p = .user 0) ∧ s.panic = none
  step s a s' := s.Step D trampoline a s'

/-! ## Rounds that do not wait -/

namespace Kernel

variable {σ : Type} {D : SwapDev σ} {k k' : Kernel σ} {p np pp : ProcId}

lemma copyoutRound_avoids {dstva : ℕ} {src : List UInt8} (D : SwapDev σ)
    (hwait : ¬k.FaultWaits p (pgrounddown dstva)) :
    Avoids "sched locks" (CopyOut.round D p (k.proc p).pagetable ⟨k, dstva, src⟩) := by
  unfold CopyOut.round
  dsimp only
  split_ifs
  · exact .ok _
  · refine (userPa_avoids_of_not_waits D hwait).bind fun res _ => ?_
    split_ifs
    · exact .ok _
    · refine ((stable_idle 0).walk _ _ _).avoids.bind fun o _ => ?_
      cases o with
      | none => exact .error (by decide)
      | some pte =>
        dsimp only
        split_ifs
        · exact .ok _
        · exact .ok _

lemma copyout_avoids_of_not_waits {dstva : ℕ} {ch : UInt8} (D : SwapDev σ)
    (hwait : ¬k.FaultWaits p (pgrounddown dstva)) :
    Avoids "sched locks" (k.copyout D p (k.proc p).pagetable dstva [ch]) := by
  rw [copyout, List.length_singleton, copyoutLoop_eq_round 0 ⟨k, dstva, [ch]⟩,
    if_neg (List.cons_ne_nil _ _)]
  refine (copyoutRound_avoids D hwait).bind fun res _ => ?_
  obtain ⟨o, k1⟩ := res
  cases o with
  | none | some => exact .ok _

lemma copyin_avoids_of_not_waits {srcva : ℕ} (D : SwapDev σ)
    (hwait : ¬k.FaultWaits p (pgrounddown srcva)) :
    Avoids "sched locks" (k.copyin D p (k.proc p).pagetable srcva 1) := by
  change Avoids "sched locks" (copyinLoop _ p _ (0 + 1) srcva 1 [] k)
  unfold copyinLoop
  simp only [one_ne_zero, if_false]
  refine (userPa_avoids_of_not_waits D hwait).bind fun res _ => ?_
  split_ifs
  · exact .ok _
  · exact .ok _

/-- `sleep` with one spinlock held, the one that it releases. -/
theorem sleep_avoids : Avoids "sched locks" (sleep 1) := .ok ()

lemma forkRound_avoids {i n : ℕ} (D : SwapDev σ)
    (hwait : ¬(n ≠ 0 ∧ k.CopyWaits (k.proc p).pagetable i)) :
    Avoids "sched locks" (k.forkRound D p np i n) := by
  cases n with
  | zero => exact .ok _
  | succ n =>
    have hpage : ¬k.CopyWaits (k.proc p).pagetable i := fun hc => hwait ⟨n.succ_ne_zero, hc⟩
    unfold forkRound
    refine (copyPage_avoids_of_not_waits D hpage).bind fun res _ => ?_
    obtain ⟨b, k1⟩ := res
    cases b with
    | true => exact .ok _
    | false =>
      refine ((stable_idle _).uvmunmap rfl).avoids.bind fun k2 _ => ?_
      exact (freeproc_locks rfl).avoids.bind fun k3 _ => .ok _

lemma waitRound_avoids {dstva : ℕ} {src : List UInt8} (D : SwapDev σ)
    (hwait : ¬(src ≠ [] ∧ k.FaultWaits p (pgrounddown dstva))) :
    Avoids "sched locks" (k.waitRound D p pp dstva src) := by
  unfold waitRound
  split_ifs with hsrc
  · exact (freeproc_locks rfl).avoids.bind fun k1 _ => .ok _
  · refine (copyoutRound_avoids D fun hc => hwait ⟨hsrc, hc⟩).bind fun res _ => ?_
    obtain ⟨o, k1⟩ := res
    cases o with
    | none | some => exact .ok _

lemma pipewriteRound_avoids {pi addr i : ℕ} {n : ℤ} {killed : Bool} {pipe : Pipe}
    (D : SwapDev σ) (hnoff : k.noff = 1)
    (hwait : ¬(i < n ∧ pipe.readopen = true ∧ killed = false ∧ ¬pipe.Full ∧
      k.FaultWaits p (pgrounddown ((addr + i) % 2 ^ 64)))) :
    Avoids "sched locks" (k.pipewriteRound D p pi addr n i killed pipe) := by
  unfold pipewriteRound
  rw [hnoff]
  split_ifs with hn hopen hfull
  · exact .ok _
  · exact .ok _
  · exact sleep_avoids.bind fun _ _ => .ok _
  · rw [not_or, Bool.not_eq_false, Bool.not_eq_true] at hopen
    have hquiet : ¬k.FaultWaits p (pgrounddown ((addr + i) % 2 ^ 64)) := fun hc =>
      hwait ⟨not_le.mp hn, hopen.1, hopen.2, hfull, hc⟩
    refine (copyin_avoids_of_not_waits D hquiet).bind fun res _ => ?_
    obtain ⟨o, k1⟩ := res
    cases o with
    | none | some => exact .ok _

lemma pipewaitRound_avoids {pi addr : ℕ} {n : ℤ} {killed : Bool} {pipe : Pipe}
    (hnoff : k.noff = 1) : Avoids "sched locks" (k.pipewaitRound pi addr n killed pipe) := by
  unfold pipewaitRound
  rw [hnoff]
  split_ifs
  · exact .ok _
  · exact sleep_avoids.bind fun _ _ => .ok _
  · exact .ok _

lemma pipereadRound_avoids {pi addr i : ℕ} {n : ℤ} {pipe : Pipe} (D : SwapDev σ)
    (hwait : ¬(i < n ∧ ¬pipe.Empty ∧
      k.FaultWaits p (pgrounddown ((addr + i) % 2 ^ 64)))) :
    Avoids "sched locks" (k.pipereadRound D p pi addr n i pipe) := by
  unfold pipereadRound
  split
  · exact .ok _
  · rename_i hn
    rw [not_or] at hn
    have hquiet : ¬k.FaultWaits p (pgrounddown ((addr + i) % 2 ^ 64)) := fun hc =>
      hwait ⟨not_le.mp hn.1, hn.2, hc⟩
    refine (copyout_avoids_of_not_waits D hquiet).bind fun res _ => ?_
    obtain ⟨b, k1⟩ := res
    cases b with
    | true | false => exact .ok _

lemma consolereadRound_avoids {userDst killed : Bool} {dst : ℕ} {n target : ℤ} {cons : Console}
    (D : SwapDev σ) (hnoff : k.noff = 1)
    (hwait : ¬(0 < n ∧ cons.r ≠ cons.w ∧ cons.buf (cons.r.toNat % INPUT_BUF_SIZE) ≠ CTRL_D ∧
      userDst = true ∧ k.FaultWaits p (pgrounddown dst))) :
    Avoids "sched locks"
      (k.consolereadRound D p userDst dst n target killed cons) := by
  unfold consolereadRound
  rw [hnoff]
  dsimp only
  by_cases hn : n ≤ 0
  · rw [if_pos hn]
    exact .ok _
  rw [if_neg hn]
  by_cases hempty : cons.r = cons.w
  · rw [if_pos hempty]
    split_ifs
    · exact .ok _
    · exact sleep_avoids.bind fun _ _ => .ok _
  rw [if_neg hempty]
  by_cases heof : cons.buf (cons.r.toNat % INPUT_BUF_SIZE) = CTRL_D
  · rw [if_pos heof]
    exact .ok _
  rw [if_neg heof]
  -- only a copy to user memory can wait
  have hcopy : Avoids "sched locks"
      (if userDst then k.copyout D p (k.proc p).pagetable dst
        [cons.buf (cons.r.toNat % INPUT_BUF_SIZE)] else pure (true, k)) := by
    split_ifs with huser
    · exact copyout_avoids_of_not_waits D fun hc =>
        hwait ⟨not_le.mp hn, hempty, heof, huser, hc⟩
    · exact .ok _
  refine hcopy.bind fun res _ => ?_
  split_ifs
  · exact .ok _
  · exact .ok _
  · exact .ok _

end Kernel

/-! ## The only way to the panic -/

section Safety

variable {σ : Type} {D : SwapDev σ} {s s' : Locked σ} {trampoline : ℕ}
  {a : LockAct} {e : Event} {k k' : Kernel σ}

/-- A memory operation returns without spinlocks. -/
theorem Kernel.Step.noff (hD : D.SleepsAt 0) (hk : k.noff = 0) (he : s.Enabled (.op e))
    (hstep : k.Step D trampoline e k') : k'.noff = 0 := by
  cases e with
  | fault p va ok =>
    obtain ⟨-, pa, hrun, -⟩ := hstep
    exact ((stable_locks hD).vmfault hk).result _ hrun
  | load p va byte =>
    have hload := hstep.2
    unfold userLoad at hload
    split at hload
    · cases hload
    · split_ifs at hload
      cases hload
      exact hk
  | store p va byte =>
    have hstore := hstep.2
    unfold userStore at hstore
    split at hstore
    · cases hstore
    · split_ifs at hstore
      cases hstore
      exact hk
  | sbrk p n lazy ok => exact ((stable_locks hD).sysSbrk hk).result _ hstep.2
  | fork p child => exact he.elim
  | exec p ip argv ok => exact ((stable_locks hD).kexec (by decide) hk).result _ hstep.2.2
  | exit p status =>
    have hexit := hstep.2
    unfold kexit at hexit
    split_ifs at hexit
    cases hexit
    exact hk
  | wait p addr child => exact he.elim
  | schedule p state level =>
    obtain ⟨-, -, rfl⟩ := hstep
    exact hk

/-- A memory operation that is called without a spinlock does not panic in `sched`. -/
theorem Kernel.not_panics_of_sleepsAt (hD : D.SleepsAt 0) (hk : k.noff = 0)
    (he : s.Enabled (.op e)) : ¬k.Panics D trampoline e "sched locks" := by
  intro hpanic
  cases e with
  | fault p va ok => exact ((stable_locks hD).vmfault hk).avoids hpanic.2
  | load | store => exact hpanic
  | sbrk p n lazy ok => exact ((stable_locks hD).sysSbrk hk).avoids hpanic.2
  | fork p child => exact he.elim
  | exec p ip argv ok => exact ((stable_locks hD).kexec (by decide) hk).avoids hpanic.2.2
  | exit p status =>
    have hexit := hpanic.2
    unfold kexit at hexit
    split_ifs at hexit
    exact absurd (Except.error.inj hexit) (by decide)
  | wait p addr child => exact he.elim
  | schedule p state level => exact hpanic

/-- A round that does not wait does not panic in `sched`. -/
theorem Locked.round_avoids {p : ProcId} {killed : Bool} (D : SwapDev σ)
    (hwait : ¬s.WaitsForDisk (.round p killed)) :
    Avoids "sched locks" (s.round D p killed) := by
  dsimp only [WaitsForDisk] at hwait
  unfold round
  cases htask : s.task p with
  | user ret => exact .ok _
  | fork np n i =>
    rw [htask] at hwait
    exact (forkRound_avoids (k := s.own p) D hwait).bind fun _ _ => .ok _
  | wait pp dstva src =>
    rw [htask] at hwait
    exact (waitRound_avoids (k := s.own p) D hwait).bind fun _ _ => .ok _
  | pipewrite pi addr n i =>
    rw [htask] at hwait
    have hnoff : (s.own p).noff = 1 := congrArg Task.locks htask
    exact (pipewriteRound_avoids (k := s.own p) D hnoff hwait).bind fun _ _ => .ok _
  | pipewait pi addr n =>
    have hnoff : (s.own p).noff = 1 := congrArg Task.locks htask
    exact (pipewaitRound_avoids (k := s.own p) hnoff).bind fun _ _ => .ok _
  | piperead pi addr n i =>
    rw [htask] at hwait
    exact (pipereadRound_avoids (k := s.own p) D hwait).bind fun _ _ => .ok _
  | consoleread userDst dst n target =>
    rw [htask] at hwait
    have hnoff : (s.own p).noff = 1 := congrArg Task.locks htask
    exact (consolereadRound_avoids (k := s.own p) D hnoff hwait).bind fun _ _ => .ok _

/-- Between the steps no spinlock is held by a process that is in none of the functions, and none of
the steps stops the machine. -/
theorem Locked.round_result {p : ProcId} {killed : Bool} (hs : s.kernel.noff = 0)
    (hrun : s.round D p killed = .ok s') : s'.kernel.noff = 0 ∧ s'.panic = s.panic := by
  unfold round at hrun
  cases htask : s.task p with
  | user ret =>
    rw [htask] at hrun
    cases hrun
    exact ⟨hs, rfl⟩
  | _ =>
    rw [htask] at hrun
    obtain ⟨res, -, hrun⟩ := bind_eq_ok.mp hrun
    cases hrun
    exact ⟨rfl, rfl⟩

lemma Locked.enterFork_ensures {p : ProcId} (hs : s.kernel.noff = 0) :
    Within (· ≠ "sched locks") (s.enterFork trampoline p)
      fun s' => s'.kernel.noff = 0 ∧ s'.panic = s.panic := by
  refine (allocproc_locks hs).bind fun res _ => ?_
  obtain ⟨o, k⟩ := res
  cases o with
  | none | some => exact .ok ⟨rfl, rfl⟩

lemma Locked.enterWait_ensures {p : ProcId} {addr : ℕ} {killed : Bool} (hs : s.kernel.noff = 0) :
    Within (· ≠ "sched locks") (s.enterWait p addr killed)
      fun s' => s'.kernel.noff = 0 ∧ s'.panic = s.panic := by
  unfold enterWait
  rw [hs]
  cases s.kernel.zombieChild p with
  | some pp => exact .ok ⟨rfl, rfl⟩
  | none =>
    dsimp only
    split_ifs
    · exact .ok ⟨rfl, rfl⟩
    · exact .ok ⟨hs, rfl⟩

/-- A step other than a memory operation, if it does not wait for the disk. -/
theorem Locked.act_ensures (trampoline : ℕ) (D : SwapDev σ) (hs : s.kernel.noff = 0)
    (hwait : ¬s.WaitsForDisk a) :
    Within (· ≠ "sched locks") (s.act D trampoline a)
      fun s' => s'.kernel.noff = 0 ∧ s'.panic = s.panic := by
  cases a with
  | op e => exact .ok ⟨hs, rfl⟩
  | fork p => exact enterFork_ensures hs
  | wait p addr killed => exact enterWait_ensures hs
  | pipewrite | piperead | consoleread => exact .ok ⟨rfl, rfl⟩
  | round p killed =>
    exact ⟨(Within.of_avoids (round_avoids D hwait)).errors, fun s' hrun => round_result hs hrun⟩
  | pipeclose | consoleintr => exact .ok ⟨hs, rfl⟩

/-- The process that boots holds no spinlock when `userinit` is done. -/
theorem noff_of_init (hinit : (memorySystem D trampoline).init k) : k.noff = 0 := by
  obtain ⟨k0, hboot, hrun⟩ := hinit
  unfold userinit at hrun
  obtain ⟨⟨o, k1⟩, halloc, hrun⟩ := bind_eq_ok.mp hrun
  have hnoff := (allocproc_locks hboot.noff).result _ halloc
  cases o with
  | none => cases hrun
  | some p =>
    cases hrun
    exact congrArg (· - 1) hnoff

end Safety

/-- If no process accesses user memory under a spinlock in such a way that it has to wait for the
disk, no process ever gives up the CPU with a spinlock of another one held. -/
theorem sched_locks_unreachable {σ : Type} {D : SwapDev σ}
    {trampoline : ℕ} {s : Locked σ} (hD : D.Avoids "sched locks")
    (hs : ((lockedSystem (sleepingDev D) trampoline).restrict
      fun s a => ¬s.WaitsForDisk a).Reachable s) : s.panic ≠ some "sched locks" := by
  have hinv : s.kernel.noff = 0 ∧ s.panic ≠ some "sched locks" := by
    refine hs.invariant (I := fun s => s.kernel.noff = 0 ∧ s.panic ≠ some "sched locks") ?_ ?_
    · rintro s ⟨hinit, -, hnone⟩
      refine ⟨noff_of_init hinit, ?_⟩
      rw [hnone]
      simp
    · rintro s a s' - ⟨hnoff, hok⟩ ⟨hwait, -, hen, hstep⟩
      -- every step ends without spinlocks, or in a panic with another message
      cases a with
      | op e =>
        have hsleep := sleepingDev_sleepsAt hD
        rcases hstep with ⟨k', hstep, rfl⟩ | ⟨msg, hpanic, rfl⟩
        · exact ⟨hstep.noff hsleep hnoff hen, hok⟩
        · refine ⟨hnoff, fun heq => ?_⟩
          cases heq
          exact not_panics_of_sleepsAt hsleep hnoff hen hpanic
      | _ =>
        have hact := Locked.act_ensures trampoline (sleepingDev D) hnoff hwait
        rcases hstep with hrun | ⟨msg, hpanic, rfl⟩
        · obtain ⟨hnoff', hsame⟩ := hact.result _ hrun
          exact ⟨hnoff', by rw [hsame]; exact hok⟩
        · refine ⟨hnoff, fun heq => ?_⟩
          cases heq
          exact hact.avoids hpanic
  exact hinv.2

/-! ## Runs -/

namespace Locked

variable {σ : Type} {D : SwapDev σ} {trampoline : ℕ} {s s' : Locked σ}
  {a : LockAct}

instance (s : Locked σ) (a : LockAct) : Decidable (s.Enabled a) := by
  unfold Enabled
  split
  · split <;> infer_instance
  all_goals infer_instance

instance (s : Locked σ) (a : LockAct) : Decidable (s.WaitsForDisk a) := by
  unfold WaitsForDisk
  split
  · split <;> infer_instance
  · infer_instance

/-- Execute a step. -/
def perform (D : SwapDev σ) (trampoline : ℕ) (s : Locked σ) (a : LockAct) : Option (Locked σ) :=
  if s.panic = none ∧ s.Enabled a then
    match a with
    | .op e => (s.kernel.perform D trampoline e).map fun k => { s with kernel := k }
    | a =>
      match s.act D trampoline a with
      | .ok s' => some s'
      | .error msg => some { s with panic := some msg }
  else none

lemma step_of_perform (h : s.perform D trampoline a = some s') : s.Step D trampoline a s' := by
  unfold perform at h
  split_ifs at h with hen
  refine ⟨hen.1, hen.2, ?_⟩
  cases a with
  | op e =>
    obtain ⟨k', hk', rfl⟩ := map_eq_some_iff.mp h
    exact .inl ⟨k', step_of_perform hk', rfl⟩
  | _ =>
    dsimp only at h ⊢
    split at h
    · rename_i hrun
      cases h
      exact .inl hrun
    · rename_i msg hrun
      cases h
      exact .inr ⟨msg, hrun, rfl⟩

/-- The state after boot with `n` free pages. -/
def boot (n : ℕ) : Option (Locked (ℕ → Page)) :=
  (userinit 0x80000 (bootState (fun _ => 0) n)).toOption.map fun k =>
    { kernel := k, task := fun _ => .user 0, console := ⟨fun _ => 0, 0, 0, 0⟩, panic := none
      pipe := fun _ => ⟨fun _ => 0, 0, 0, true, true⟩ }

end Locked

/-- A swap device that is an array of pages. -/
abbrev arrayDisk : SwapDev (ℕ → Page) := sleepingDev arrayDev

/-- A run from boot, of steps that meet the decidable condition `cond`, that ends in a state with
the decidable property `P`. -/
theorem Locked.exists_reachable {n : ℕ} (cond : Locked (ℕ → Page) → LockAct → Prop)
    [∀ s, DecidablePred (cond s)] {P : Locked (ℕ → Page) → Prop} [DecidablePred P]
    (acts : List LockAct)
    (h : ((Locked.boot n).bind fun s => acts.foldlM (fun s a => if cond s a then
      s.perform arrayDisk 0x80000 a else none) s).any (fun s => decide (P s)) = true) :
    ∃ s, ((lockedSystem arrayDisk 0x80000).restrict cond).Reachable s ∧ P s := by
  obtain ⟨s0, hboot, hacts⟩ := any_eq_true _ _ |>.mp (any_bind ▸ h)
  obtain ⟨k0, hk0, hs0⟩ := map_eq_some_iff.mp hboot
  have hinit : (memorySystem arrayDisk 0x80000).init k0 :=
    ⟨bootState (fun _ => 0) n, booted_bootState _ n, toOption_eq_some.mp hk0⟩
  have hstart : ((lockedSystem arrayDisk 0x80000).restrict cond).Reachable s0 := by
    rw [← hs0]
    exact .init ⟨hinit, fun _ => rfl, rfl⟩
  exact hstart.exists_of_foldlM
    (TransitionSystem.restrict_step_of_ite fun _ _ _ => step_of_perform) hacts

/-- `init` forks twice, and the second child grows by `n` pages. -/
def growingActs (n : ℤ) : List LockAct :=
  let p0 : ProcId := ⟨0, nproc_pos⟩
  let p2 : ProcId := ⟨2, two_lt_nproc⟩
  [.op (.schedule p0 .running 0), .fork p0, .round p0 false, .fork p0, .round p0 false,
    .op (.schedule p2 .running 0), .op (.sbrk p2 (n * 4096) false true)]

/-- The second child fills all frames, and enters `fork`. -/
def forkingActs : List LockAct :=
  growingActs 64 ++ [.fork ⟨2, two_lt_nproc⟩, .round ⟨2, two_lt_nproc⟩ false]

/-- The second child has two pages and forks, while `init` writes a byte of a page that it has not
touched yet to a pipe. -/
def sharingActs : List LockAct :=
  let p0 : ProcId := ⟨0, nproc_pos⟩
  let p2 : ProcId := ⟨2, two_lt_nproc⟩
  growingActs 2 ++ [.op (.sbrk p0 4096 true true), .fork p2, .round p2 false, .pipewrite p0 0 100 5,
    .round p0 false, .round p2 false, .round p2 false]

/-- **A fork may sleep with the child's lock.** The second child fills all frames and forks. The
copy of its first page needs a victim, whose page is written to the disk, and `sched` finds the lock
of the new process held. -/
theorem fork_sleeps_with_lock : ∃ s, (lockedSystem arrayDisk 0x80000).Reachable s ∧
    s.panic = some "sched locks" := by
  obtain ⟨s, hs, hpanic⟩ := Locked.exists_reachable (n := 200) (fun _ _ => True)
    (P := fun s => s.panic = some "sched locks") forkingActs (by decide +kernel)
  exact ⟨s, hs.of_restrict, hpanic⟩

/-- As long as there are free frames, the copies do not wait. -/
theorem sched_locks_unreachable_growing : ∃ s,
    ((lockedSystem arrayDisk 0x80000).restrict fun s a =>
      ¬s.WaitsForDisk a).Reachable s ∧
    (s.kernel.proc ⟨3, by decide⟩).sz = 2 * 4096 ∧ (s.pipe 0).nwrite = 1 ∧
    s.panic ≠ some "sched locks" := by
  obtain ⟨s, hs, hsz, hwrite⟩ := Locked.exists_reachable (n := 200)
    (fun s a => ¬s.WaitsForDisk a)
    (P := fun s => (s.kernel.proc ⟨3, by decide⟩).sz = 2 * 4096 ∧ (s.pipe 0).nwrite = 1)
    sharingActs (by decide +kernel)
  have hD : arrayDev.Avoids "sched locks" := ⟨fun _ _ _ _ => .ok _, fun _ _ _ _ => .ok _⟩
  exact ⟨s, hs, hsz, hwrite, sched_locks_unreachable hD hs⟩

end Xv6.VM
