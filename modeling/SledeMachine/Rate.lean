import SledeMachine.Binary64

/-!
The clock rate of a paced run, in instructions per second, and the period that belongs to it. The
period is the reciprocal of the rate, rounded to the nearest representable number of seconds and
then to whole nanoseconds. A rate is refused if it is not a positive number, if its period is
beyond the clock, or if its period is no time at all.
-/

namespace SledeMachine

abbrev Rate := Binary64

inductive RateError
  | notPositive (rate : Rate)
  | tooSlow (rate : Rate)
  | tooFast (rate : Rate)
  deriving DecidableEq, Repr

namespace RateError

def message : RateError → Text
  | .notPositive rate => "clock rate must be positive, got ".toList ++ rate.text
  | .tooSlow rate => "clock rate ".toList ++ rate.text ++ " is too slow".toList
  | .tooFast rate => "clock rate ".toList ++ rate.text ++ " is too fast".toList

/-- The reason behind the refusal, where there is one to give. -/
def cause? : RateError → Option Text
  | .tooSlow _ =>
      some ("cannot convert float seconds to Duration: value is either too big or NaN".toList)
  | _ => none

end RateError

namespace Rate

/-- The clock counts fewer than so many seconds. -/
def secondsLimit : Nat := Nat.pow 2 64

/-- The period of a rate in nanoseconds, at least one. -/
def period (rate : Rate) : Except RateError Nat :=
  match rate with
  | .finite false (m + 1) e =>
      let (n, d) := Binary64.scale 2 (-e) 1 (m + 1)
      match Binary64.ofRatio false n d with
      | .finite _ significand exponent =>
          let (seconds, unit) := Binary64.scale 2 exponent significand 1
          if secondsLimit * unit ≤ seconds then .error (.tooSlow rate)
          else
            let nanoseconds := Binary64.roundDiv (1000000000 * seconds) unit
            if nanoseconds = 0 then .error (.tooFast rate) else .ok nanoseconds
      | _ => .error (.tooSlow rate)
  | _ => .error (.notPositive rate)

end Rate
end SledeMachine
