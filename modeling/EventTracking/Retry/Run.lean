import EventTracking.Error
import EventTracking.Retry.Policy
import EventTracking.Signal

set_option autoImplicit false

namespace EventTracking

structure Cancellation where
  cancelled : Bool := false
  signal : Signal := {}
  deriving Repr, Inhabited

namespace Cancellation

def raise (c : Cancellation) : Cancellation := { c with cancelled := true }

def notify (c : Cancellation) : List TaskId × Cancellation :=
  let (tasks, signal) := c.signal.notify
  (tasks, { c with signal })

def cancel (c : Cancellation) : List TaskId × Cancellation := c.raise.notify

def reset (c : Cancellation) : Cancellation := { c with cancelled := false }

def register (c : Cancellation) (task : TaskId) : Nat × Cancellation :=
  let (ticket, signal) := c.signal.register task
  (ticket, { c with signal })

def isWatching (c : Cancellation) (ticket : Nat) : Bool := c.signal.isWaiting ticket

def leave (c : Cancellation) (ticket : Nat) : Cancellation :=
  { c with signal := c.signal.leave ticket }

end Cancellation

namespace Retry

def transportName : String := "RetryTransport"

def cancelledError (attempts : Nat) : Error :=
  .cancelled (transportName ++ " cancelled after " ++ toString attempts ++ " attempts")

inductive Next where
  | fail (e : Error)
  | pause (d : Duration)

inductive Phase where
  | attempting (s : State)
  | pausing (s : State) (d : Duration)

namespace State

def attempt (cancelled : Bool) (s : State) : Except Error State :=
  if cancelled then .error (cancelledError s.attempts) else .ok s.start

def failed (s : State) (e : Error) (elapsed : Duration) : Next :=
  match s.recordFailure elapsed with
  | none => .fail .durationOverflow
  | some .giveUp => .fail (.exhausted s.attempts e)
  | some (.retryAfter d) => .pause d

end State

end Retry

end EventTracking
