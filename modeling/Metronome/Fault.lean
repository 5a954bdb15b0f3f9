/-!
# Faults

A fault ends a run at once. Every operation that can be asked for something it has no answer to
returns `Except Fault`, and `Fault.message` holds the wording of all of them.
-/

namespace Metronome

/-- Why a run is abandoned. -/
inductive Fault
  /-- The index of the invalid tick was asked for. -/
  | indexOfInvalid
  /-- The invalid tick was advanced. -/
  | advancingInvalid
  /-- The invalid tick was moved back. -/
  | rewindingInvalid
  /-- The invalid tick took part in a comparison of ticks. -/
  | comparingInvalid
  /-- A counter passed the largest value of its word. -/
  | additionOverflow
  /-- A counter passed zero on its way down. -/
  | subtractionOverflow
  /-- An element was asked for at a position past the end. -/
  | outOfBounds (length index : Nat)
  /-- A negative number of seconds was to be a duration. -/
  | negativeDuration
  /-- A number of seconds that no duration holds was to be one. -/
  | durationTooBig
  /-- A scope was closed and none was open. -/
  | scopeUnderflow
  /-- A frame ended with scopes still open. -/
  | scopesOpen (depth : Nat)
  /-- A burst ended elsewhere than on the confirmed tick; both positions as they are written. -/
  | burstMissed (reached expected : String)
  /-- A burst flagged another number of final invocations than one. -/
  | finalCount (count : Nat)
deriving DecidableEq

namespace Fault

/-- The lead of the faults that a broken rule of the scheduler gives. -/
private def ofInvariant (what : String) : String :=
  "scheduler invariant violated: " ++ what

/-- What an exit without a matching enter is reported as. -/
def underflowText : String :=
  "scope stack underflow: exit without a matching enter"

/-- What scopes left open at the end of a frame are reported as. -/
def leakText (depth : Nat) : String :=
  toString depth ++ " scope(s) still open at frame end"

/-- The report of a fault. -/
def message : Fault → String
  | indexOfInvalid => "index of an invalid tick"
  | advancingInvalid => "advancing an invalid tick"
  | rewindingInvalid => "rewinding an invalid tick"
  | comparingInvalid => "assertion failed: self.is_valid() && older.is_valid()"
  | additionOverflow => "attempt to add with overflow"
  | subtractionOverflow => "attempt to subtract with overflow"
  | outOfBounds length index =>
    "index out of bounds: the len is " ++ toString length ++ " but the index is " ++ toString index
  | negativeDuration => "cannot convert float seconds to Duration: value is negative"
  | durationTooBig => "cannot convert float seconds to Duration: value is either too big or NaN"
  | scopeUnderflow => ofInvariant underflowText
  | scopesOpen depth => ofInvariant (leakText depth)
  | burstMissed reached expected =>
    ofInvariant ("prediction ended at " ++ reached ++ " instead of confirmed " ++ expected)
  | finalCount count =>
    ofInvariant (toString count ++ " invocations flagged final in one burst")

end Fault

/-- The sum of two counters, unless it passes the largest word. -/
def addChecked (a b : UInt32) : Except Fault UInt32 :=
  if a.toNat + b.toNat < UInt32.size then .ok (a + b) else .error .additionOverflow

/-- The difference of two counters, unless it passes zero. -/
def subChecked (a b : UInt32) : Except Fault UInt32 :=
  if b ≤ a then .ok (a - b) else .error .subtractionOverflow

theorem addChecked_eq_ok {a b : UInt32} (h : a.toNat + b.toNat < UInt32.size) :
    addChecked a b = .ok (a + b) := by
  simp [addChecked, h]

theorem subChecked_eq_ok {a b : UInt32} (h : b ≤ a) : subChecked a b = .ok (a - b) := by
  simp [subChecked, h]

end Metronome
