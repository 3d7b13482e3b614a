import RecoveryPlanner.Selection
set_option autoImplicit false

/-! Planning in rounds. Candidates that a decision passed over never matter to another one, so
the candidates of a request can be divided among planners, and the candidates that these
choose compared at last. -/

namespace RecoveryPlanner

section Smaller

variable {ctx : PlannerContext} {request : RecoveryRequest} {now : Timestamp}
  {cs cs' : List RecoveryCandidate} {c : RecoveryCandidate}

end Smaller

namespace Impl

end Impl

section Rounds

variable {request : RecoveryRequest} {now : Timestamp}

end Rounds

end RecoveryPlanner
