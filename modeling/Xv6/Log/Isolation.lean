import Xv6.Log.Ops

/-!
# Operations and commits do not overlap
-/

namespace Xv6
namespace Log

section Quiet

variable {ι : Type} [DecidableEq ι] {s s' : Shared ι} {ops : Finset ι}

end Quiet

end Log
end Xv6
