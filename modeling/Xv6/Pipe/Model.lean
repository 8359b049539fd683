import Xv6.Foundations.RingBuffer

/-!
# Pipes

The data structure of `kernel/pipe.c` and the accesses to it by `pipewrite`, `piperead` and
`pipeclose`: a ring buffer of `PIPESIZE` bytes with free-running 32-bit counters, and a flag for
each end.
-/

namespace Xv6

/-- `PIPESIZE`. -/
def PIPESIZE : ℕ := 512

/-- `struct pipe`. -/
structure Pipe where
  data : ℕ → UInt8
  /-- The number of bytes read, modulo `2 ^ 32`. -/
  nread : UInt32
  /-- The number of bytes written, modulo `2 ^ 32`. -/
  nwrite : UInt32
  readopen : Bool
  writeopen : Bool

namespace Pipe

/-- `pi->nwrite == pi->nread + PIPESIZE`. -/
def Full (pi : Pipe) : Prop := pi.nwrite = pi.nread + UInt32.ofNat PIPESIZE
  deriving Decidable

/-- `pi->nread == pi->nwrite`. -/
def Empty (pi : Pipe) : Prop := pi.nread = pi.nwrite
  deriving Decidable

/-- `pi->data[pi->nwrite++ % PIPESIZE] = ch`. -/
def put (pi : Pipe) (ch : UInt8) : Pipe :=
  { pi with
    data := Function.update pi.data (pi.nwrite.toNat % PIPESIZE) ch
    nwrite := pi.nwrite + 1 }

/-- `pi->data[pi->nread % PIPESIZE]`. -/
def next (pi : Pipe) : UInt8 := pi.data (pi.nread.toNat % PIPESIZE)

/-- `pi->nread++`. -/
def skip (pi : Pipe) : Pipe := { pi with nread := pi.nread + 1 }

/-- The flags after `pipeclose`. -/
def close (pi : Pipe) (writable : Bool) : Pipe :=
  if writable then { pi with writeopen := false } else { pi with readopen := false }

end Pipe

end Xv6
