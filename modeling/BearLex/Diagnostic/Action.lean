import BearLex.Diagnostic.Reporter
import BearLex.Source.Scan

/-! What can be done with a reporter, as data, so that a history is a list of actions. -/

namespace BearLex

inductive Action
  | report (d : Diagnostic)
  | scan (source : Text)
  | clear
  | setLimit (limit : Int)
  | readReport
  | raise
  deriving DecidableEq

namespace Reporter

/-- The reporter after an action. Reading the report and raising leave it as it is. -/
def after (r : Reporter) : Action → Reporter
  | .report d => r.report d
  | .scan source => r.reportAll (Scan.ofSource source).diagnostics
  | .clear => r.clear
  | .setLimit limit => r.setLimit limit
  | .readReport => r
  | .raise => r

def afterAll (r : Reporter) (actions : List Action) : Reporter :=
  actions.foldl after r

end Reporter

end BearLex
