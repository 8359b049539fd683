import Xv6.VM.Sbrk
import Xv6.VM.CopyPermissions

/-!
# Argument passing

A program that `kexec` starts finds its arguments on its stack: `argc` in `a0`, and in `a1` the
address of an array of addresses, which is also the stack pointer. `kexec_args` says what the
program can read there, and that `kexec` fails if the strings and the array do not fit into the
stack page. Whether it fails for another reason does not depend on the arguments.
-/

namespace Xv6.VM

open Fallible Kernel Function List AddressSpace

/-- What an image with arguments holds: the arguments, and below the stack page what was there. -/
theorem AddressSpace.buildStack_bytes {a a' : AddressSpace} {argv : List (List UInt8)}
    (hbuild : a.buildStack id argv = some a') :
    argBytes argv ≤ USERSTACK * PGSIZE ∧ a'.sz = pgroundup a.sz + (USERSTACK + 1) * PGSIZE ∧
      (∀ r ∈ pushedArgs a'.sz argv, ∀ i (hi : i < r.2.length), a'.page.byte (r.1 + i) = r.2[i]) ∧
      ∀ va < a'.sz - USERSTACK * PGSIZE,
        a'.page.byte va = if va < pgroundup a.sz then a.page.byte va else 0 := by
  rw [buildStack_eq] at hbuild
  split_ifs at hbuild with hfits
  cases hbuild
  -- the stack is the page above the guard page `n`
  obtain ⟨n, hn⟩ : ∃ n, n = pageCount a.sz := ⟨_, rfl⟩
  have hstart : pgroundup a.sz = n * PGSIZE := by rw [pgroundup_eq, hn]
  have hpages : pageCount (n * PGSIZE + (USERSTACK + 1) * PGSIZE) = n + 2 := by
    rw [← Nat.add_mul, pageCount_mul]
    rfl
  have hsize : USERSTACK * PGSIZE = 4096 ∧ (USERSTACK + 1) * PGSIZE = 8192 := by decide
  have hle : argBytes argv ≤ n * PGSIZE + (USERSTACK + 1) * PGSIZE := by omega
  obtain ⟨hpair, hin⟩ := pushedArgs_layout hle
  rw [hstart, ← hn]
  generalize hs : (a.page.alloc (n * PGSIZE) (n * PGSIZE + (USERSTACK + 1) * PGSIZE)
    lazyPerm).clearU n = s
  have hpage : ∀ v, v ≠ n → s v = if v = n + 1 then some (.zeros lazyPerm) else a.page v := by
    intro v hv
    rw [← hs, Space.clearU, update_of_ne hv, Space.alloc, Space.fill, pageCount_mul, hpages]
    exact if_congr (by omega) rfl rfl
  obtain ⟨hother, hread, -⟩ := Space.byte_stores (v := n + 1)
    (pushedArgs (n * PGSIZE + (USERSTACK + 1) * PGSIZE) argv) (s := s)
    (by rw [hpage _ (by omega), if_pos rfl]; rfl)
    (fun r hr => by
      have := hin r hr
      have hne : r.2 ≠ [] := by
        rcases mem_append.mp hr with hr | hr
        · have : r.2 ∈ argv.map (· ++ [0]) :=
            map_snd_pushedStrings _ argv ▸ mem_map_of_mem hr
          obtain ⟨arg, -, harg⟩ := mem_map.mp this
          rw [← harg]
          simp
        · rw [mem_singleton.mp hr]
          exact ne_nil_of_length_pos (by rw [length_pointerBytes]; omega)
      refine ⟨hne, ?_, ?_⟩
      all_goals unfold PGSIZE at *; omega) hpair
  refine ⟨hfits.2, rfl, hread, fun va hva => ?_⟩
  dsimp only at hva ⊢
  have hdiv : va / PGSIZE ≠ n + 1 ∧ (va < n * PGSIZE ↔ va / PGSIZE ≠ n) := by
    unfold PGSIZE at *
    omega
  unfold Space.byte
  rw [hother _ hdiv.1]
  by_cases hlow : va < n * PGSIZE
  · rw [if_pos hlow, hpage _ (hdiv.2.mp hlow), if_neg hdiv.1]
  · rw [if_neg hlow, not_not.mp (mt hdiv.2.mpr hlow), ← hs, Space.clearU, update_self,
      Space.alloc, Space.fill, pageCount_mul, hpages, if_pos (by omega)]
    rfl

section Exec

variable {σ : Type} {D : SwapDev σ} {m : List ℕ} {k k' : Kernel σ} {p : ProcId}
  {trampoline : ℕ} {ip : File} {argv : List (List UInt8)}

/-- The process `p` starts in `k` with the arguments `argv`: each string and the array of their
addresses, which ends with 0, can be read where they are on the stack page. Below it there is only
what has been loaded from the file. -/
structure Kernel.ArgsPassed (D : SwapDev σ) (ip : File) (argv : List (List UInt8)) (k : Kernel σ)
    (p : ProcId) : Prop where
  argc : (k.proc p).regs.a0 = argv.length
  argv_eq : (k.proc p).regs.a1 = (k.proc p).regs.sp
  aligned : (k.proc p).regs.sp % 16 = 0
  stored : ∃ strings : List (ℕ × List UInt8), strings.map Prod.snd = argv.map (· ++ [0]) ∧
    (strings ++ [((k.proc p).regs.a1, pointerBytes strings)]).Pairwise Below ∧
    ∀ r ∈ strings ++ [((k.proc p).regs.a1, pointerBytes strings)],
      (k.proc p).sz - USERSTACK * PGSIZE ≤ r.1 ∧ r.1 + r.2.length ≤ (k.proc p).sz ∧
      ∀ i (hi : i < r.2.length), k.userByte D p (r.1 + i) = r.2[i]
  below : ∃ a : AddressSpace, AddressSpace.loadHeaders id ip
      (ElfHdr.ofBytes (ip.readi 0 ELFHDR_SIZE)).phnum
      ((ElfHdr.ofBytes (ip.readi 0 ELFHDR_SIZE)).phoff % 2 ^ 32) ⟨0, fun _ => none⟩ = some a ∧
    ∀ va < (k.proc p).sz - USERSTACK * PGSIZE,
      k.userByte D p va = if va < pgroundup a.sz then a.page.byte va else 0

/-- The parts of an image. -/
theorem AddressSpace.exec_eq_some {a : AddressSpace} (hexec : exec id ip argv = some a) :
    ∃ a0 : AddressSpace, AddressSpace.loadHeaders id ip
      (ElfHdr.ofBytes (ip.readi 0 ELFHDR_SIZE)).phnum
      ((ElfHdr.ofBytes (ip.readi 0 ELFHDR_SIZE)).phoff % 2 ^ 32) ⟨0, fun _ => none⟩ = some a0 ∧
      a0.buildStack id argv = some a := by
  unfold exec at hexec
  dsimp only at hexec
  split_ifs at hexec
  exact Option.bind_eq_some_iff.mp hexec

lemma Idle.argsPassed (hk : Idle D m k) (hD : D.Lawful) (hp : (k.proc p).state ≠ .unused)
    (hargs : ∀ arg ∈ argv, arg.length < PGSIZE)
    (hrun : k.kexec D trampoline p ip argv = .ok (true, k')) :
    argBytes argv ≤ USERSTACK * PGSIZE ∧ k'.ArgsPassed D ip argv p := by
  obtain ⟨-, ⟨hfalse, -⟩ | ⟨-, a, r, regs, hexec, hregs, -, -, -, -, -, hrest⟩⟩ :=
    kexec_spec hk.inv hk.attached (hk.owner hp) (hk.top p) (fun v hv => hk.above hv) hargs hrun
  · cases hfalse
  rw [SwapDev.seen_of_lawful hD] at hexec
  obtain ⟨hk', hstep⟩ := hk.kexec hp hargs hrun
  have hview : k'.view D p = some a := by
    have hstep := hstep hD
    rw [Unlimited.step, if_pos rfl, Unlimited.modify_eq (Idle.view_eq hp) hexec] at hstep
    rw [← Option.some.inj hstep, update_self]
  obtain ⟨hsz, hpage⟩ := hk'.userPage_eq hD hview
  have hregs' : (k'.proc p).regs = regs := by
    have := congrFun (congrArg Rest.proc hrest) p
    rw [show k'.proc p = k'.rest.proc p from rfl, this]
    simp
  obtain ⟨a0, hload, hbuild⟩ := exec_eq_some hexec
  obtain ⟨hfits, hsz', hread, hbelow⟩ := buildStack_bytes hbuild
  have hsize : USERSTACK * PGSIZE = 4096 ∧ (USERSTACK + 1) * PGSIZE = 8192 := by decide
  obtain ⟨hpair, hin⟩ := pushedArgs_layout (show argBytes argv ≤ a.sz by omega)
  have hbyte : ∀ va < a.sz, k'.userByte D p va = a.page.byte va := by
    intro va hva
    unfold userByte
    rw [hpage _ (by unfold PGSIZE; omega)]
    rfl
  have hmod : argBytes argv % 16 = 0 ∧ a.sz % 16 = 0 := by
    have := stringBytes_mod argv
    rw [hsz']
    unfold argBytes padded pgroundup PGSIZE
    omega
  refine ⟨hfits,
    ⟨?_, ?_, ?_, ⟨pushedStrings a.sz argv, map_snd_pushedStrings _ _, ?_, fun r hr => ?_⟩,
    a0, hload, fun va hva => ?_⟩⟩
  · rw [hregs', hregs.1]
  · rw [hregs', hregs.2.2]
  · rw [hregs', hregs.2.2, hregs.2.1]
    omega
  · rw [hregs', hregs.2.1]
    exact hpair
  · rw [hregs', hregs.2.1] at hr
    have := hin r hr
    rw [← hsz]
    refine ⟨by omega, this.2, fun i hi => ?_⟩
    rw [hbyte _ (by omega), hread r hr i hi]
  · rw [← hsz] at hva
    rw [hbyte va (by omega), hbelow va hva]

/-- If `kexec` panics, then as it does with any other arguments. -/
theorem Idle.kexec_error (hk : Idle D m k) (hrange : k.rest.InRange)
    (hp : (k.proc p).state ≠ .unused) (hargs : ∀ arg ∈ argv, arg.length < PGSIZE) {msg : String}
    (hrun : k.kexec D trampoline p ip argv = .error msg) (argv' : List (List UInt8)) :
    k.kexec D trampoline p ip argv' = .error msg := by
  obtain ⟨r, k1, hlen, hmagic, htable, himage⟩ : ∃ r k1,
      (ip.readi 0 ELFHDR_SIZE).length = ELFHDR_SIZE ∧
      (ElfHdr.ofBytes (ip.readi 0 ELFHDR_SIZE)).magic = ELF_MAGIC ∧
      k.procPagetable trampoline p = .ok (some r, k1) ∧
      k1.buildImage D p ip (ElfHdr.ofBytes (ip.readi 0 ELFHDR_SIZE)) r argv = .error msg := by
    by_contra hno
    exact hk.kexec_avoids_of_buildImage (.inr hrange) hp hargs
      (fun hlen hmagic r k1 htable herror =>
      hno ⟨r, k1, hlen, hmagic, htable, herror⟩) hrun
  rcases procPagetable_spec (D := D) hk.inv htable with ⟨hnone, -⟩ | ⟨r', heq, hnew⟩
  · cases hnone
  cases heq
  rcases buildImage_spec hnew.owner hnew.framed (hnew.unattached hk.attached)
      (hnew.attached hk.attached) ip (ElfHdr.ofBytes (ip.readi 0 ELFHDR_SIZE)) argv hnew.building
      hnew.resident hargs with ⟨o, k2, a, hok, -⟩ | ⟨msg', hmsg⟩
  · rw [hok] at himage
    cases himage
  · rw [hmsg] at himage
    cases himage
    unfold Kernel.kexec
    dsimp only
    rw [if_neg (not_not.mpr hlen), if_neg (not_not.mpr hmagic), bind_of_ok htable]
    exact bind_of_error (hmsg argv') _

/-- **Arguments are passed or do not fit.** `kexec` with fewer than `MAXARG` strings starts the
program with these arguments, or fails because they do not fit into the stack page. All other
failures are those that it has with any arguments. -/
theorem kexec_args (trampoline : ℕ) (ip : File) (argv : List (List UInt8)) (hk : Idle D m k)
    (hD : D.Lawful) (hrange : k.rest.InRange) (hp : (k.proc p).state ≠ .unused)
    (hlen : argv.length < MAXARG) (hargs : ∀ arg ∈ argv, arg.length < PGSIZE) :
    (∃ k', k.kexec D trampoline p ip argv = .ok (true, k') ∧
      argBytes argv ≤ USERSTACK * PGSIZE ∧ k'.ArgsPassed D ip argv p) ∨
    (∃ k', k.kexec D trampoline p ip argv = .ok (false, k') ∧
      USERSTACK * PGSIZE < argBytes argv) ∨
    ((∀ k', k.kexec D trampoline p ip argv ≠ .ok (true, k')) ∧
      ∀ argv', k.kexec D trampoline p ip argv' = k.kexec D trampoline p ip argv) := by
  cases hrun : k.kexec D trampoline p ip argv with
  | error msg => exact .inr (.inr ⟨nofun, hk.kexec_error hrange hp hargs hrun⟩)
  | ok res =>
    obtain ⟨ok, k'⟩ := res
    cases ok with
    | true => exact .inl ⟨k', rfl, hk.argsPassed hD hp hargs hrun⟩
    | false =>
      right
      obtain ⟨-, ⟨-, -, -, hnone | hsame⟩ | ⟨htrue, -⟩⟩ := kexec_spec hk.inv hk.attached
        (hk.owner hp) (hk.top p) (fun v hv => hk.above hv) hargs hrun
      · obtain ⟨a, hnone⟩ := hnone
        rw [buildStack_eq, ite_eq_right_iff] at hnone
        refine .inl ⟨k', rfl, Nat.lt_of_not_le fun hle => ?_⟩
        exact absurd (hnone ⟨hlen.le, hle⟩) (by simp)
      · exact .inr ⟨nofun, hsame⟩
      · cases htrue

end Exec

/-- The arguments of `echo hi`. -/
def echoArgs : List (List UInt8) := [[101, 99, 104, 111], [104, 105]]

/-- A child of `init` starts a program with these arguments. -/
theorem kexec_args_echo : ∃ (p : ProcId) (k k' : Kernel (ℕ → Page)),
    (memorySystem arrayDev 0x80000).Reachable k ∧
    k.kexec arrayDev 0x80000 p emptyProgram echoArgs = .ok (true, k') ∧
    k'.ArgsPassed arrayDev emptyProgram echoArgs p := by
  let p1 : ProcId := ⟨1, by decide⟩
  have heval : (bootRun arrayDev (fun _ => 0) 0x80000 200
      [.schedule ⟨0, by decide⟩ .running 0, .fork ⟨0, by decide⟩ (some p1)]).any (fun k =>
        decide ((k.proc p1).state ≠ .unused ∧
          ∀ pg ∈ k.managed, k.kernelEnd ≤ pg ∧ pg < PHYSTOP_PAGE) &&
        (returning (k.kexec arrayDev 0x80000 p1 emptyProgram echoArgs) id).isSome) = true := by
    decide +kernel
  obtain ⟨k, hk, heval⟩ := Option.any_eq_true _ _ |>.mp heval
  simp only [Bool.and_eq_true, decide_eq_true_eq] at heval
  obtain ⟨⟨hlive, hrange⟩, hstart⟩ := heval
  obtain ⟨k', hk'⟩ := Option.isSome_iff_exists.mp hstart
  obtain ⟨ok, hexec, rfl⟩ := returning_eq_some hk'
  obtain ⟨k0, hinit, hrun⟩ := run_of_bootRun hk
  have hreach := hrun.reachable (.init hinit)
  rcases kexec_args 0x80000 emptyProgram echoArgs (idle_of_reachable hreach) arrayDev_lawful
    hrange hlive (by decide) (by decide) with
    ⟨k2, hok, -, hpassed⟩ | ⟨k2, hfail, -⟩ | ⟨hne, -⟩
  · rw [hok] at hexec
    cases hexec
    exact ⟨p1, k, _, hreach, hok, hpassed⟩
  · rw [hfail] at hexec
    cases hexec
  · exact absurd hexec (hne _)

end Xv6.VM
