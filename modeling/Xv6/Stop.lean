import Xv6.Lib.Machine

/-!
# How a kernel path can stop

A path through the kernel that does not return has called `panic`, has gone to
sleep on a condition only another process can change, waits for a sleep-lock
that it holds itself, or has read through a null pointer, after which the C
program means nothing.
-/

namespace Xv6

inductive Stop where
  | panic (msg : String)
  | sleep
  | deadlock
  | nullDeref
  deriving DecidableEq, Repr

end Xv6
