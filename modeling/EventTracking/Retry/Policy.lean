import EventTracking.Duration

set_option autoImplicit false

namespace EventTracking.Retry

structure Policy where
  -- How many attempts there are, the first one included.
  maxAttempts : Nat := 10
  -- The time for all attempts together.
  maxRetryTime : Option Duration := none
  minTimeout : Duration := Duration.perSecond
  maxTimeout : Duration := 30 * Duration.perSecond
  factor : Float := 2
  deriving Inhabited

-- `x ^ n` by squaring: the order of the multiplications settles how they round.
def powerFrom (r a : Float) (n : Nat) : Float :=
  let r := if n % 2 = 1 then r * a else r
  if n / 2 = 0 then r else powerFrom r (a * a) (n / 2)
termination_by n
decreasing_by omega

def power (x : Float) (n : Nat) : Float := powerFrom 1 x n

def maxExponent : Nat := Nat.pow 2 31 - 1

namespace Policy

def withMaxAttempts (p : Policy) (n : Nat) : Policy := { p with maxAttempts := max n 1 }

def withMaxRetryTime (p : Policy) (d : Duration) : Policy := { p with maxRetryTime := some d }

def withTimeouts (p : Policy) (least greatest : Duration) : Policy :=
  { p with minTimeout := least, maxTimeout := max greatest least }

def withFactor (p : Policy) (x : Float) : Policy := { p with factor := x }

def fixed (d : Duration) : Policy := (({} : Policy).withTimeouts d d).withFactor 1

def delayFor (p : Policy) (n : Nat) : Duration :=
  let seconds := p.minTimeout.toSeconds * power p.factor (min n maxExponent)
  if !seconds.isFinite || seconds ≥ p.maxTimeout.toSeconds then p.maxTimeout
  else Duration.ofSeconds seconds

end Policy

inductive Decision where
  | retryAfter (d : Duration)
  | giveUp
  deriving Repr, DecidableEq

structure State where
  policy : Policy
  attempts : Nat := 0

namespace State

def start (s : State) : State := { s with attempts := s.attempts + 1 }

-- What follows a failed attempt, `elapsed` after the start of the first one; nothing where that
-- and the wait do not add up to a duration.
def recordFailure (s : State) (elapsed : Duration) : Option Decision :=
  if s.policy.maxAttempts ≤ s.attempts then some .giveUp
  else
    let delay := s.policy.delayFor (s.attempts - 1)
    match s.policy.maxRetryTime with
    | none => some (.retryAfter delay)
    | some budget => do
      let total ← Duration.add? elapsed delay
      return if budget < total then .giveUp else .retryAfter delay

end State

end EventTracking.Retry
