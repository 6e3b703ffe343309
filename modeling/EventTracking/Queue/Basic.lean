import EventTracking.Queue.Store
import EventTracking.Transport.Basic

set_option autoImplicit false

namespace EventTracking

structure Queue where
  batchSize : Nat := 10
  batchDelay : Duration := Duration.ofMillis 1000
  store : StoreId
  processing : Bool := false
  stopping : Bool := false
  transport : Option Transport := none
  loop : Option TaskId := none
  deriving Inhabited

namespace Ticker

-- Why a loop breaks down.
inductive Fault where
  -- The clock cannot hold the first tick.
  | beyondClock
  | noPeriod
  -- So long after its time a tick does not come that the delay cannot be counted.
  | tooLate
  deriving Repr, DecidableEq

def Fault.message : Fault → String
  | beyondClock => "overflow when adding duration to instant"
  | noPeriod => "`period` must be non-zero."
  | tooLate =>
    "too much time has elapsed since the interval was supposed to tick: TryFromIntError(())"

def fault? (period : Duration) : Option Fault :=
  if Duration.clockRange ≤ period then some .beyondClock
  else if period = 0 then some .noPeriod
  else none

-- How late a tick may be without any being left out.
def tolerance : Duration := Duration.ofMillis 5

-- Delays are counted in a word of nanoseconds.
def countable : Duration := Nat.pow 2 64

-- The tick after the one that was due at `due` and came at `now`. Ticks that were missed are left
-- out: the next one is the first that is due after now.
def next? (period due now : Duration) : Option Duration :=
  if due + tolerance < now then
    let late := (now - due) % period
    if late < countable then some (now + period - late) else none
  else some (due + period)

end Ticker

namespace Queue

def setTransport (q : Queue) (t : Transport) : Queue := { q with transport := some t }

def hasTransport (q : Queue) : Bool := q.transport.isSome

def isRunning (q : Queue) : Bool := q.loop.isSome

def noTransport : Error := .queue "No transport configured for the queue"

def alreadyRunning : Error := .queue "Queue already running"

def noRuntime : Error :=
  .queue ("Queue needs a tokio runtime to run: there is no reactor running, " ++
    "must be called from the context of a Tokio 1.x runtime")

def stopFailed (task : TaskId) (fault : Ticker.Fault) : Error :=
  .queue ("Failed to stop queue: task " ++ toString task ++ " panicked with message " ++
    Text.literal fault.message)

def start (q : Queue) : Option TaskId → Except Error Unit × Queue
  | none => (.error noRuntime, q)
  | some task => (.ok (), { q with stopping := false, loop := some task })

def run (q : Queue) (t : Transport) (task : Option TaskId) : Except Error Unit × Queue :=
  if q.isRunning then (.error alreadyRunning, q) else (q.setTransport t).start task

def ensureRunning (q : Queue) (task : Option TaskId) : Except Error Unit × Queue :=
  if q.isRunning then (.ok (), q)
  else if q.hasTransport then q.start task
  else (.error noTransport, q)

theorem ensureRunning_eq (q : Queue) (task : Option TaskId) :
    ∃ stopping loop, (q.ensureRunning task).2 = { q with stopping, loop } := by
  unfold ensureRunning
  split
  · exact ⟨_, _, rfl⟩
  · split
    · cases task <;> exact ⟨_, _, rfl⟩
    · exact ⟨_, _, rfl⟩

def stop (q : Queue) : Option TaskId × Queue :=
  match q.loop with
  | none => (none, q)
  | some task => (some task, { q with stopping := true, loop := none })

def summary (q : Queue) (storeName : String) : String :=
  "TrackerQueue \x7b store: " ++ Text.literal storeName ++ ", config: TrackerQueueConfig \x7b " ++
    "batch_size: " ++ toString q.batchSize ++ ", batch_delay: " ++ Duration.text q.batchDelay ++
    " \x7d, running: " ++ (if q.isRunning then "true" else "false") ++ " \x7d"

end Queue

end EventTracking
