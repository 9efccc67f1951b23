import Xv6.Bcache
import Xv6.Console
import Xv6.Genrand
import Xv6.Ide.Refine
import Xv6.Log.Atomicity
import Xv6.Log.Capacity
import Xv6.Log.Isolation
import Xv6.Mp
import Xv6.Pipe.Sleepers
import Xv6.Proc.Arguments
import Xv6.Proc.CloneStack
import Xv6.Proc.PipePair
import Xv6.Proc.Spaces
import Xv6.Sched.Pids
import Xv6.Sched.Share
import Xv6.Sched.Sleep
import Xv6.Sched.Winners
import Xv6.Spinlock
import Xv6.User.Frisbee
import Xv6.User.Grep
import Xv6.User.Sh.Line
import Xv6.User.Umalloc.Sizes
import Xv6.Vm.Life
import Xv6.Writers
