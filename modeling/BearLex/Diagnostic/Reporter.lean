import BearLex.Diagnostic.Basic

/-! A collector of diagnostics. It keeps those reported while it is below its limit, remembers
whether any was reported, and echoes all of them. -/

namespace BearLex

/-- The diagnostics collected since the last clearing, and the texts echoed so far; `none` stands
for a reporter without an echo. -/
structure Reporter where
  limit : Int
  hadError : Bool
  stored : Array Diagnostic
  echoed : Option (Array Text)

/-- What a raise hands out: the report and the diagnostics of that moment. -/
structure LexicalError where
  message : Text
  diagnostics : List Diagnostic

namespace Reporter

def defaultLimit : Int := 100

def fresh (limit : Int) (echoes : Bool) : Reporter :=
  ⟨limit, false, #[], if echoes then some #[] else none⟩

/-- No further diagnostic is kept. -/
def isFull (r : Reporter) : Bool :=
  decide (r.limit ≤ r.stored.size)

/-- Takes note of a diagnostic, echoes it, and keeps it unless the reporter is full. -/
def report (r : Reporter) (d : Diagnostic) : Reporter :=
  { r with
    hadError := true
    stored := if r.isFull then r.stored else r.stored.push d
    echoed := r.echoed.map (·.push d.render) }

def reportAll (r : Reporter) (ds : List Diagnostic) : Reporter :=
  ds.foldl report r

/-- Forgets the diagnostics. The echo stays as it is. -/
def clear (r : Reporter) : Reporter :=
  { r with hadError := false, stored := #[] }

def setLimit (r : Reporter) (limit : Int) : Reporter :=
  { r with limit }

/-- The last line of a report: the number of diagnostics. -/
def summary (count : Nat) : Text :=
  Numeral.ofNat count ++ (if count = 1 then " error".toList else " errors".toList)

/-- The kept diagnostics, one after the other, and their number. -/
def reportText (r : Reporter) : Text :=
  Text.join ['\n'] (r.stored.toList.map Diagnostic.render ++ [summary r.stored.size])

/-- The error to raise, if a diagnostic was reported. -/
def error? (r : Reporter) : Option LexicalError :=
  if r.hadError then some ⟨r.reportText, r.stored.toList⟩ else none

end Reporter

end BearLex
