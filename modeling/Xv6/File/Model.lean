import Xv6.Foundations.TokenPrograms
import Xv6.VM.State

/-!
# Open files and in-memory inodes

The file table of `kernel/file.c`, the inode table of `kernel/fs.c`, the two ends of each pipe, and
the calls that create and drop references to them: `sys_open`, `sys_dup`, `sys_close`, `sys_pipe` of
`kernel/sysfile.c`, and `kfork` and `kexit` of `kernel/proc.c`.

A step is one section that runs under `ftable.lock`, `itable.lock`, the lock of a pipe, of a process
or of a sleep-lock, or a write to a file that only its process can see. A process's descriptors and
its current directory are accessed by the process alone (by its parent before it first runs), so
that a call has them in local variables and stores them when it is done.

What the disk holds is left open: whether an inode is a directory, what a directory lookup finds,
whether `ialloc` and `dirlink` succeed, and whether the last reference to an inode frees it, are
answers that the surroundings give to a step; so are failures of memory allocation and of the access
to user memory.
-/

namespace Xv6.Files

open Function

open VM (ProcId)

/-! ## The tables -/

/-- Open files per process. -/
def NOFILE : ℕ := 16

/-- Open files per system. -/
def NFILE : ℕ := 100

/-- Maximum number of active inodes. -/
def NINODE : ℕ := 50

/-- Device number of the file system root disk. -/
def ROOTDEV : ℕ := 1

/-- The inode number of the root directory. -/
def ROOTINO : ℕ := 1

/-- A file descriptor. -/
abbrev Fd : Type := Fin NOFILE

/-- An entry of the file table. -/
abbrev FileId : Type := Fin NFILE

/-- An entry of the inode table. -/
abbrev InodeId : Type := Fin NINODE

/-- The type of an open file, with the `pipe` or `ip` that goes with it. -/
inductive FileType where
  | none
  | pipe (pi : ℕ)
  | inode (ip : InodeId)
  | device (ip : InodeId)
  deriving DecidableEq

/-- `struct file`. -/
structure File where
  type : FileType := .none
  ref : ℤ := 0
  readable : Bool := false
  writable : Bool := false
  deriving DecidableEq

/-- The fields of `struct inode` that concern references to it. -/
structure Inode where
  dev : ℕ := 0
  inum : ℕ := 0
  ref : ℤ := 0
  /-- The process that holds the sleep-lock. -/
  lock : Option ProcId := none
  deriving DecidableEq

/-- The ends of a pipe, and whether its page is allocated. -/
structure PipeEnds where
  allocated : Bool := false
  readopen : Bool := false
  writeopen : Bool := false
  deriving DecidableEq

/-- The descriptors and the current directory of a process. -/
structure Own where
  ofile : Fd → Option FileId
  cwd : InodeId

/-- What becomes of an entry of the process table. -/
inductive Life where
  | unused
  /-- Allocated by `kfork`. -/
  | used
  | live
  deriving DecidableEq

/-- The tables. -/
structure Tables where
  file : FileId → File
  inode : InodeId → Inode
  pipe : ℕ → PipeEnds
  life : ProcId → Life
  /-- What a process has when it is in no call. -/
  own : ProcId → Own
  /-- The process is in a call. -/
  busy : ProcId → Bool
  /-- How often an entry of the file table was given an inode or a pipe end. -/
  gained : FileId → ℕ
  /-- How often `fileclose` has released what the entry had. -/
  released : FileId → ℕ

/-- Set a descriptor. -/
def Own.set (own : Own) (fd : Fd) (f : Option FileId) : Own :=
  { own with ofile := update own.ofile fd f }

@[simp]
lemma Own.set_set (own : Own) (fd : Fd) (f g : Option FileId) :
    (own.set fd f).set fd g = own.set fd g := by
  simp [set]

lemma Own.set_comm (own : Own) {fd fd' : Fd} (h : fd ≠ fd') (f g : Option FileId) :
    (own.set fd f).set fd' g = (own.set fd' g).set fd f := by
  simp [set, update_comm h]

lemma Own.set_eq_self {own : Own} {fd : Fd} {f : Option FileId} (h : own.ofile fd = f) :
    own.set fd f = own := by
  simp [set, ← h]

namespace Tables

def setFile (s : Tables) (f : FileId) (x : File) : Tables :=
  { s with file := update s.file f x }

def setInode (s : Tables) (i : InodeId) (x : Inode) : Tables :=
  { s with inode := update s.inode i x }

def setPipe (s : Tables) (pi : ℕ) (x : PipeEnds) : Tables :=
  { s with pipe := update s.pipe pi x }

@[simp]
lemma setFile_self (s : Tables) (f : FileId) (x : File) : (s.setFile f x).file f = x :=
  update_self ..

@[simp]
lemma setFile_of_ne (s : Tables) {f g : FileId} (x : File) (h : g ≠ f) :
    (s.setFile f x).file g = s.file g :=
  update_of_ne h ..

@[simp]
lemma setInode_self (s : Tables) (i : InodeId) (x : Inode) : (s.setInode i x).inode i = x :=
  update_self ..

@[simp]
lemma setInode_of_ne (s : Tables) {i j : InodeId} (x : Inode) (h : j ≠ i) :
    (s.setInode i x).inode j = s.inode j :=
  update_of_ne h ..

/-- The entry is given an inode or a pipe end. -/
def gain (s : Tables) (f : FileId) (x : File) : Tables :=
  { s.setFile f x with gained := update s.gained f (s.gained f + 1) }

end Tables

/-! ## The sections -/

/-- A section. -/
inductive Sec where
  /-- The surroundings decide. -/
  | choose
  /-- A directory lookup, or the search of `ialloc` for a free inode. -/
  | lookup
  | iget (dev inum : ℕ)
  | idup (ip : InodeId)
  | ilock (ip : InodeId)
  | iunlock (ip : InodeId)
  /-- The first section of `iput`. -/
  | iput (ip : InodeId)
  /-- `releasesleep(&ip->lock)` in `iput`. -/
  | iputRelease (ip : InodeId)
  /-- The last section of `iput`. -/
  | iputDrop (ip : InodeId)
  | filealloc
  | filedup (f : FileId)
  /-- The section of `fileclose` under `ftable.lock`. -/
  | fileclose (f : FileId)
  /-- `fileclose` has released what the entry had. -/
  | noteReleased (f : FileId)
  /-- `kalloc` and the initialisation of a pipe. -/
  | newPipe
  /-- `pipealloc` fills in an entry of the file table. -/
  | setPipe (f : FileId) (pi : ℕ) (writable : Bool)
  /-- `sys_open` fills in an entry of the file table, and `iunlock(ip)`. -/
  | setInode (f : FileId) (ip : InodeId) (device readable writable : Bool)
  | pipeclose (pi : ℕ) (writable : Bool)
  | allocproc
  | freeproc (np : ProcId)
  /-- The child of `kfork` becomes runnable. -/
  | publish (np : ProcId) (own : Own)
  /-- A call returns. -/
  | finish (own : Own)
  /-- `kexit` ends the process. The descriptors that it has cleared are dropped with the process. -/
  | exit

/-- What a section returns. -/
abbrev Sec.Res : Sec → Type
  | .choose => Bool
  | .lookup => Option ℕ
  | .iget _ _ => InodeId
  | .iput _ => Bool
  | .filealloc => Option FileId
  | .fileclose _ => Option File
  | .newPipe => Option ℕ
  | .allocproc => Option ProcId
  | _ => Unit

/-- A system call. -/
inductive Call where
  /-- `sys_open` of a path of `len` elements. -/
  | openPath (absolute : Bool) (len : ℕ) (create rdonly readable writable : Bool)
  | dup (fd : ℤ)
  | close (fd : ℤ)
  | pipe
  | fork
  | exit

/-- What a process does next, or what the surroundings answer. -/
inductive Answer where
  | go
  | call (c : Call)
  | yes (b : Bool)
  | found (inum : Option ℕ)
  | page (pi : Option ℕ)

namespace Tables

/-- The entry of the inode table for an inode. -/
def findInode (s : Tables) (dev inum : ℕ) : Option InodeId :=
  (List.finRange NINODE).find? fun i =>
    0 < (s.inode i).ref ∧ (s.inode i).dev = dev ∧ (s.inode i).inum = inum

/-- The first free entry of the inode table. -/
def emptyInode (s : Tables) : Option InodeId :=
  (List.finRange NINODE).find? fun i => (s.inode i).ref = 0

/-- The first free entry of the file table. -/
def emptyFile (s : Tables) : Option FileId :=
  (List.finRange NFILE).find? fun f => (s.file f).ref = 0

/-- The first unused entry of the process table. -/
def unusedProc (s : Tables) : Option ProcId :=
  (List.finRange NPROC).find? fun p => s.life p = .unused

/-- `iget`. -/
def iget (s : Tables) (dev inum : ℕ) : Except String (InodeId × Tables) :=
  match s.findInode dev inum with
  | some i => .ok (i, s.setInode i { s.inode i with ref := (s.inode i).ref + 1 })
  | none =>
    match s.emptyInode with
    | some i => .ok (i, s.setInode i { s.inode i with dev := dev, inum := inum, ref := 1 })
    | none => .error "iget: no inodes"

/-- `iunlock`, as long as it does not panic. -/
def iunlock (s : Tables) (p : ProcId) (ip : InodeId) : Except String (Unit × Tables) :=
  if (s.inode ip).lock ≠ some p ∨ (s.inode ip).ref < 1 then .error "iunlock"
  else .ok ((), s.setInode ip { s.inode ip with lock := none })

/-- The section of `fileclose` under `ftable.lock`; returns the entry if this was the last
reference to it. -/
def fileclose (s : Tables) (f : FileId) : Except String (Option File × Tables) :=
  if (s.file f).ref < 1 then .error "fileclose"
  else if 0 < (s.file f).ref - 1 then
    .ok (none, s.setFile f { s.file f with ref := (s.file f).ref - 1 })
  else .ok (some (s.file f), s.setFile f { s.file f with ref := 0, type := .none })

/-- `pipeclose`. -/
def pipeclose (s : Tables) (pi : ℕ) (writable : Bool) : Tables :=
  let x := s.pipe pi
  let x := if writable then { x with writeopen := false } else { x with readopen := false }
  -- `kfree((char*)pi)` once both ends are closed
  s.setPipe pi { x with allocated := x.readopen || x.writeopen }

/-- One section of the process `p`: `none` if it has to wait. -/
def act (s : Tables) (p : ProcId) (a : Answer) :
    (sec : Sec) → Option (Except String (sec.Res × Tables))
  | .choose =>
    match a with
    | .yes b => some (.ok (b, s))
    | _ => none
  | .lookup =>
    match a with
    | .found inum => some (.ok (inum, s))
    | _ => none
  | .iget dev inum => some (s.iget dev inum)
  | .idup ip => some (.ok ((), s.setInode ip { s.inode ip with ref := (s.inode ip).ref + 1 }))
  | .ilock ip =>
    if (s.inode ip).ref < 1 then some (.error "ilock")
    else if (s.inode ip).lock = none then
      match a with
      | .yes true => some (.ok ((), s.setInode ip { s.inode ip with lock := some p }))
      -- the inode on disk is free
      | .yes false => some (.error "ilock: no type")
      | _ => none
    else none
  | .iunlock ip => some (s.iunlock p ip)
  | .iput ip =>
    match a with
    | .yes unlinked =>
      -- `unlinked` is `ip->valid && ip->nlink == 0`
      if (s.inode ip).ref = 1 ∧ unlinked then
        if (s.inode ip).lock = none then
          some (.ok (true, s.setInode ip { s.inode ip with lock := some p }))
        else none
      else some (.ok (false, s.setInode ip { s.inode ip with ref := (s.inode ip).ref - 1 }))
    | _ => none
  | .iputRelease ip => some (.ok ((), s.setInode ip { s.inode ip with lock := none }))
  | .iputDrop ip =>
    some (.ok ((), s.setInode ip { s.inode ip with ref := (s.inode ip).ref - 1 }))
  | .filealloc =>
    match s.emptyFile with
    | some f => some (.ok (some f, s.setFile f { s.file f with ref := 1 }))
    | none => some (.ok (none, s))
  | .filedup f =>
    if (s.file f).ref < 1 then some (.error "filedup")
    else some (.ok ((), s.setFile f { s.file f with ref := (s.file f).ref + 1 }))
  | .fileclose f => some (s.fileclose f)
  | .noteReleased f =>
    some (.ok ((), { s with released := update s.released f (s.released f + 1) }))
  | .newPipe =>
    match a with
    | .page none => some (.ok (none, s))
    | .page (some pi) =>
      if (s.pipe pi).allocated then none
      else some (.ok (some pi, s.setPipe pi ⟨true, true, true⟩))
    | _ => none
  | .setPipe f pi writable =>
    some (.ok ((), s.gain f { s.file f with
      type := .pipe pi, readable := !writable, writable := writable }))
  | .setInode f ip device readable writable =>
    let s := s.gain f { s.file f with
      type := if device then .device ip else .inode ip, readable := readable, writable := writable }
    some (s.iunlock p ip)
  | .pipeclose pi writable => some (.ok ((), s.pipeclose pi writable))
  | .allocproc =>
    match a, s.unusedProc with
    | .yes true, some np => some (.ok (some np, { s with life := update s.life np .used }))
    -- no entry is free, or there is no memory
    | .yes _, _ => some (.ok (none, s))
    | _, _ => none
  | .freeproc np => some (.ok ((), { s with life := update s.life np .unused }))
  | .publish np own =>
    some (.ok ((), { s with
      life := update s.life np .live, own := update s.own np own }))
  | .finish own =>
    some (.ok ((), { s with
      own := update s.own p own, busy := update s.busy p false }))
  | .exit =>
    some (.ok ((), { s with
      life := update s.life p .unused, busy := update s.busy p false }))

end Tables

/-! ## The calls -/

/-- A kernel function. -/
abbrev Prog : Type → Type := SectionProg Sec Sec.Res

/-- Run a section. -/
def sec (s : Sec) : Prog s.Res := SectionProg.atomically s

/-- `iput`. -/
def iput (ip : InodeId) : Prog Unit := do
  if ← sec (.iput ip) then
    -- truncate and free
    sec (.iputRelease ip)
    sec (.iputDrop ip)

/-- `iunlockput`. -/
def iunlockput (ip : InodeId) : Prog Unit := do
  sec (.iunlock ip)
  iput ip

/-- `dirlookup`. -/
def dirlookup (dev : ℕ) : Prog (Option InodeId) := do
  match ← sec .lookup with
  | some inum =>
    let ip ← sec (.iget dev inum)
    return some ip
  | none => return none

/-- `dirlink`; returns whether it succeeds. -/
def dirlink (dev : ℕ) : Prog Bool := do
  match ← dirlookup dev with
  | some ip =>
    -- the name is present
    iput ip
    return false
  | none => sec .choose

/-- The loop of `namex`, from the inode `ip` on with `len` path elements left. -/
def walkPath (nameiparent : Bool) : ℕ → InodeId → Prog (Option InodeId)
  | 0, ip =>
    if nameiparent then do
      iput ip
      return none
    else return some ip
  | len + 1, ip => do
    sec (.ilock ip)
    let isDir ← sec .choose
    if !isDir then
      iunlockput ip
      return none
    else if nameiparent && len == 0 then
      -- stop one level early
      sec (.iunlock ip)
      return some ip
    else
      match ← dirlookup ROOTDEV with
      | none =>
        iunlockput ip
        return none
      | some next =>
        iunlockput ip
        walkPath nameiparent len next

/-- `namex`. -/
def namex (cwd : InodeId) (absolute : Bool) (len : ℕ) (nameiparent : Bool) :
    Prog (Option InodeId) := do
  if absolute then
    let ip ← sec (.iget ROOTDEV ROOTINO)
    walkPath nameiparent len ip
  else
    sec (.idup cwd)
    walkPath nameiparent len cwd

/-- The end of `create` when something went wrong. -/
def createFail (ip dp : InodeId) : Prog (Option InodeId) := do
  iunlockput ip
  iunlockput dp
  return none

/-- `create` of a file; the inode that it returns is locked. -/
def create (cwd : InodeId) (absolute : Bool) (len : ℕ) : Prog (Option InodeId) := do
  match ← namex cwd absolute len true with
  | none => return none
  | some dp =>
    sec (.ilock dp)
    match ← dirlookup ROOTDEV with
    | some ip =>
      iunlockput dp
      sec (.ilock ip)
      let isFileOrDevice ← sec .choose
      if isFileOrDevice then return some ip
      else
        iunlockput ip
        return none
    | none =>
      -- `ialloc`
      match ← sec .lookup with
      | none =>
        iunlockput dp
        return none
      | some inum =>
        let ip ← sec (.iget ROOTDEV inum)
        sec (.ilock ip)
        if ← dirlink ROOTDEV then
          iunlockput dp
          return some ip
        else createFail ip dp

/-- `fileclose`. -/
def fileclose (f : FileId) : Prog Unit := do
  match ← sec (.fileclose f) with
  | none => return
  | some ff =>
    match ff.type with
    | .none => return
    | .pipe pi =>
      sec (.pipeclose pi ff.writable)
      sec (.noteReleased f)
    | .inode ip | .device ip =>
      iput ip
      sec (.noteReleased f)

/-- The lowest free descriptor. -/
def Own.freeFd (own : Own) : Option Fd := (List.finRange NOFILE).find? fun fd => own.ofile fd = none

/-- `fdalloc`. -/
def fdalloc (own : Own) (f : FileId) : Option (Fd × Own) :=
  own.freeFd.map fun fd => (fd, own.set fd (some f))

/-- `argfd`. -/
def argfd (own : Own) (fd : ℤ) : Option (Fd × FileId) :=
  if h : 0 ≤ fd ∧ fd < NOFILE then
    let fd : Fd := ⟨fd.toNat, by omega⟩
    (own.ofile fd).map fun f => (fd, f)
  else none

/-- `sys_open` once the inode is locked. -/
def openInode (own : Own) (ip : InodeId) (readable writable : Bool) : Prog (ℤ × Own) := do
  let isDevice ← sec .choose
  let badMajor ← sec .choose
  if isDevice && badMajor then
    iunlockput ip
    return (-1, own)
  else
    match ← sec .filealloc with
    | none =>
      iunlockput ip
      return (-1, own)
    | some f =>
      match fdalloc own f with
      | none =>
        fileclose f
        iunlockput ip
        return (-1, own)
      | some (fd, own) =>
        sec (.setInode f ip isDevice readable writable)
        return (fd, own)

/-- `sys_open`. -/
def sysOpen (own : Own) (absolute : Bool) (len : ℕ) (creates rdonly readable writable : Bool) :
    Prog (ℤ × Own) := do
  let badPath ← sec .choose
  if badPath then return (-1, own)
  else if creates then
    match ← create own.cwd absolute len with
    | none => return (-1, own)
    | some ip => openInode own ip readable writable
  else
    match ← namex own.cwd absolute len false with
    | none => return (-1, own)
    | some ip =>
      sec (.ilock ip)
      let isDir ← sec .choose
      if isDir && !rdonly then
        iunlockput ip
        return (-1, own)
      else openInode own ip readable writable

/-- `sys_dup`. -/
def sysDup (own : Own) (fd : ℤ) : Prog (ℤ × Own) := do
  match argfd own fd with
  | none => return (-1, own)
  | some (_, f) =>
    match fdalloc own f with
    | none => return (-1, own)
    | some (fd, own) =>
      sec (.filedup f)
      return (fd, own)

/-- `sys_close`. -/
def sysClose (own : Own) (fd : ℤ) : Prog (ℤ × Own) := do
  match argfd own fd with
  | none => return (-1, own)
  | some (fd, f) =>
    let own := own.set fd none
    fileclose f
    return (0, own)

/-- `pipealloc`. -/
def pipealloc : Prog (Option (FileId × FileId)) := do
  match ← sec .filealloc with
  | none => return none
  | some f0 =>
    match ← sec .filealloc with
    | none =>
      fileclose f0
      return none
    | some f1 =>
      match ← sec .newPipe with
      | none =>
        fileclose f0
        fileclose f1
        return none
      | some pi =>
        sec (.setPipe f0 pi false)
        sec (.setPipe f1 pi true)
        return some (f0, f1)

/-- `sys_pipe`. -/
def sysPipe (own : Own) : Prog (ℤ × Own) := do
  match ← pipealloc with
  | none => return (-1, own)
  | some (rf, wf) =>
    match fdalloc own rf with
    | none =>
      fileclose rf
      fileclose wf
      return (-1, own)
    | some (fd0, own0) =>
      match fdalloc own0 wf with
      | none =>
        fileclose rf
        fileclose wf
        return (-1, own0.set fd0 none)
      | some (fd1, own1) =>
        let badArray ← sec .choose
        if badArray then
          fileclose rf
          fileclose wf
          return (-1, (own1.set fd0 none).set fd1 none)
        else return (0, own1)

/-- The loop of `kfork` over the descriptors `fds`; returns those of the child. -/
def dupFiles (own : Own) : List Fd → (Fd → Option FileId) → Prog (Fd → Option FileId)
  | [], ofile => return ofile
  | fd :: fds, ofile => do
    match own.ofile fd with
    | none => dupFiles own fds ofile
    | some f =>
      sec (.filedup f)
      dupFiles own fds (update ofile fd (some f))

/-- `kfork`. The child starts with no descriptor; those of its entry were cleared by `kexit`. -/
def kfork (own : Own) : Prog (ℤ × Own) := do
  match ← sec .allocproc with
  | none => return (-1, own)
  | some np =>
    let copied ← sec .choose
    if !copied then
      sec (.freeproc np)
      return (-1, own)
    else
      let ofile ← dupFiles own (List.finRange NOFILE) fun _ => none
      sec (.idup own.cwd)
      sec (.publish np ⟨ofile, own.cwd⟩)
      return (np, own)

/-- The loop of `kexit` over the descriptors `fds`. -/
def closeFiles : List Fd → Own → Prog Own
  | [], own => return own
  | fd :: fds, own => do
    match own.ofile fd with
    | none => closeFiles fds own
    | some f =>
      fileclose f
      closeFiles fds (own.set fd none)

/-- `kexit`. -/
def kexit (own : Own) : Prog Unit := do
  let own ← closeFiles (List.finRange NOFILE) own
  iput own.cwd
  sec .exit

/-- A call returns, and the process stores its descriptors. -/
def andFinish (call : Prog (ℤ × Own)) : Prog Unit := do
  let (_, own) ← call
  sec (.finish own)

/-- The program of a call. -/
def Call.prog (own : Own) : Call → Prog Unit
  | .openPath absolute len creates rdonly readable writable =>
    andFinish (sysOpen own absolute len creates rdonly readable writable)
  | .dup fd => andFinish (sysDup own fd)
  | .close fd => andFinish (sysClose own fd)
  | .pipe => andFinish (sysPipe own)
  | .fork => andFinish (kfork own)
  | .exit => kexit own

/-- A process begins a call. -/
def Tables.enter (s : Tables) (p : ProcId) : Answer → Option (Prog Unit × Tables)
  | .call c =>
    if s.life p = .live ∧ s.busy p = false then
      some (c.prog (s.own p), { s with busy := update s.busy p true })
    else none
  | _ => none

/-- All processes, from the first one on, which has the root directory as its current directory. -/
def fileSystem : SectionSystem Tables ProcId Answer Sec Sec.Res where
  init s := (∀ f, s.file f = {}) ∧ (∀ pi, s.pipe pi = {}) ∧ (∀ p, s.busy p = false) ∧
    (∀ f, s.gained f = 0 ∧ s.released f = 0) ∧
    ∃ p i, s.life p = .live ∧ (∀ q, q ≠ p → s.life q = .unused) ∧
      s.own p = ⟨fun _ => none, i⟩ ∧ s.inode i = { dev := ROOTDEV, inum := ROOTINO, ref := 1 } ∧
      ∀ j, j ≠ i → s.inode j = {}
  enter := Tables.enter
  act := Tables.act

end Xv6.Files
