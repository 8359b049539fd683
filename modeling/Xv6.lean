import Xv6.Bcache.Exhaustion
import Xv6.Disk.Protocol
import Xv6.Disk.Selection
import Xv6.File.Counting
import Xv6.Fs.ByteArrays
import Xv6.Log.GroupCommit
import Xv6.Log.Reservation
import Xv6.Memmove
import Xv6.Pipe.Integrity
import Xv6.Printf
import Xv6.Proc.Parenthood
import Xv6.Raid.DegradedRead
import Xv6.Raid.SlotStore
import Xv6.Raid.SwapDevice
import Xv6.Sched.Boost
import Xv6.Sleep.Wakeup
import Xv6.User.GrepLines
import Xv6.User.HeapSafety
import Xv6.VM.CopyRace
import Xv6.VM.EvictionRace
import Xv6.VM.ForkCopy
import Xv6.VM.LockedCopies
import Xv6.VM.ReapRace
import Xv6.VM.ResidentPages
import Xv6.VM.ExecArgs
import Xv6.VM.TableMap
