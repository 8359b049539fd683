import Xv6.VM.Pressure
import Xv6.VM.Traversal

/-!
# Spinlocks around disk I/O

`virtio_disk_rw` sleeps until the disk has finished, and `sched` panics if the process that gives up
the CPU holds any spinlock but its own. `sleepingDev` is a swap device with this check. The rest of
the module follows `noff`, the number of spinlocks held, through the memory system: each function
returns with the locks with which it was called, and transfers pages with the locks of its caller
and no others. So an operation that is called without a spinlock does not panic in `sched`, whatever
it swaps; what the callers hold decides.
-/

namespace Xv6.VM

open Fallible

/-! ## Sleeping -/

/-- `sched`, called with `noff` spinlocks held. -/
def sched (noff : ℕ) : Except String Unit := if noff ≠ 1 then .error "sched locks" else .ok ()

/-- `sleep(chan, lk)`, called with `noff` spinlocks held, `lk` among them: `p->lock` is acquired and
`lk` is released before the CPU is given up. -/
def sleep (noff : ℕ) : Except String Unit := sched (noff + 1 - 1)

/-- `virtio_disk_rw`, which acquires `vdisk_lock` and sleeps on it until the request is done. -/
def virtioDiskRw (noff : ℕ) : Except String Unit := sleep (noff + 1)

/-- The swap device `D` behind `virtio_disk_rw`. Every transfer counts as one that sleeps: a write
always waits for the disk, and a read of cached blocks still takes the sleep-locks of their buffers,
for which it sleeps if an eviction in progress holds one. -/
def sleepingDev {σ : Type} (D : SwapDev σ) : SwapDev σ where
  write noff slot pg s := do
    virtioDiskRw noff
    D.write noff slot pg s
  read noff slot old s := do
    virtioDiskRw noff
    D.read noff slot old s
  stored := D.stored

/-- With `n` spinlocks held the device does not panic in `sched`. -/
structure SwapDev.SleepsAt {σ : Type} (D : SwapDev σ) (n : ℕ) : Prop where
  write : ∀ slot pg s, Fallible.Avoids "sched locks" (D.write n slot pg s)
  read : ∀ slot pg s, Fallible.Avoids "sched locks" (D.read n slot pg s)

lemma sleepingDev_sleepsAt {σ : Type} {D : SwapDev σ} (hD : D.Avoids "sched locks") :
    (sleepingDev D).SleepsAt 0 := by
  have hfree : Avoids "sched locks" (virtioDiskRw 0) := .ok ()
  exact ⟨fun _ _ _ => hfree.bind fun _ _ => hD.write _ _ _ _,
    fun _ _ _ => hfree.bind fun _ _ => hD.read _ _ _ _⟩

namespace Kernel

variable {σ : Type} {D : SwapDev σ} {k k' : Kernel σ} {p np : ProcId} {n r va pa : ℕ}

/-! ## Locks through the memory system -/

lemma stable_locks (hD : D.SleepsAt n) : Stable D (· ≠ "sched locks") fun k => k.noff = n :=
  stable_noff (by decide) (by decide) (fun _ _ _ => .of_avoids (hD.write _ _ _))
    fun _ _ _ => .of_avoids (hD.read _ _ _)

lemma stable_idle (n : ℕ) :
    Stable (idleDev : SwapDev σ) (· ≠ "sched locks") fun k => k.noff = n :=
  stable_locks ⟨fun _ _ _ => .ok _, fun _ _ _ => .ok _⟩

section Processes

variable (hn : k.noff = n)

include hn

lemma freeproc_locks : Within (· ≠ "sched locks") (k.freeproc p) (·.noff = n) := by
  unfold freeproc
  refine Within.bind (P := fun k1 => k1.noff = n) ?_ fun k1 hk1 => ?_
  · split_ifs
    · exact (stable_idle n).kfree hn
    · exact .ok hn
  · refine Within.bind (P := fun k2 => k2.noff = n) ?_ fun k2 hk2 => .ok hk2
    dsimp only
    split_ifs
    · exact (stable_idle n).procFreepagetable (by decide) (k := k1.setProc p _) hk1
    · exact .ok hk1

/-- `allocproc` returns with one more lock, that of the process it found. -/
theorem allocproc_locks {trampoline : ℕ} : Within (· ≠ "sched locks") (k.allocproc trampoline)
    fun res => res.2.noff = if res.1.isSome then n + 1 else n := by
  unfold allocproc
  split
  · exact .ok hn
  · rename_i p hfind
    have htake : (k.takeProc p).noff = n + 1 := congrArg (· + 1) hn
    dsimp only
    generalize k.takeProc p = k1 at htake
    have hkalloc := (onlyTables_kalloc k1).alike.noff.trans htake
    cases hcreate : k1.kalloc with
    | mk o k2 =>
      rw [hcreate] at hkalloc
      cases o with
      | none =>
        refine (freeproc_locks (n := n + 1) (k := k2.setProc p _) hkalloc).bind fun k3 hk3 => .ok ?_
        change k3.noff - 1 = n
        omega
      | some pg =>
        refine ((stable_idle (n + 1)).procPagetable (by decide) (k := k2.setProc p _) hkalloc).bind
          fun res hres => ?_
        obtain ⟨o, k3⟩ := res
        cases o with
        | none =>
          refine (freeproc_locks (n := n + 1) hres).bind fun k4 hk4 => .ok ?_
          change k4.noff - 1 = n
          omega
        | some r => exact .ok hres

end Processes

end Kernel

end Xv6.VM
