import EventTracking.Duration
import EventTracking.Signal

set_option autoImplicit false

namespace EventTracking

structure Timer where
  id : Nat
  due : Nat
  task : TaskId
  deriving Repr

def foreground : TaskId := 0

def allowance : Nat := 128

structure Scheduler where
  now : Nat := 0
  running : TaskId := foreground
  foregroundReady : Bool := false
  ready : List TaskId := []
  -- Timers that have not gone off, in the order in which they were set.
  timers : List Timer := []
  nextTimer : Nat := 0
  -- Tasks that go on once nothing else can, before the clock moves.
  yielding : List TaskId := []
  left : Nat := allowance
  -- Tasks that gave way because their allowance was spent.
  spent : List TaskId := []
  deriving Repr, Inhabited

namespace Scheduler

def wake (s : Scheduler) (task : TaskId) : Scheduler :=
  if task = foreground then { s with foregroundReady := true }
  else if s.ready.contains task then s
  else { s with ready := s.ready ++ [task] }

def wakeAll (s : Scheduler) (tasks : List TaskId) : Scheduler := tasks.foldl wake s

-- Waits longer than thirty years are cut to that where the clock cannot hold their end.
def longest : Duration := 86400 * 365 * 30 * Duration.perSecond

def dueAfter (s : Scheduler) (d : Duration) : Nat :=
  let d := if Duration.clockRange ≤ d then longest else d
  s.now + (d + 999999) / Nat.pow 10 6

def setTimer (s : Scheduler) (due : Nat) : Option Nat × Scheduler :=
  if due ≤ s.now then (none, s)
  else
    (some s.nextTimer,
      { s with
        timers := s.timers ++ [⟨s.nextTimer, due, s.running⟩]
        nextTimer := s.nextTimer + 1 })

def isSet (s : Scheduler) (timer : Nat) : Bool := s.timers.any fun t => t.id == timer

def clearTimer (s : Scheduler) (timer : Nat) : Scheduler :=
  { s with timers := s.timers.filter fun t => t.id != timer }

def nextDue (s : Scheduler) : Option Nat := (s.timers.map Timer.due).min?

def advance? (s : Scheduler) : Option Scheduler :=
  s.nextDue.map fun due =>
    let (gone, left) := s.timers.partition fun t => t.due ≤ due
    { s with now := due, timers := left }.wakeAll (gone.map Timer.task)

def yield (s : Scheduler) : Scheduler := { s with yielding := s.yielding ++ [s.running] }

def endYield (s : Scheduler) : Scheduler :=
  { s with yielding := [] }.wakeAll s.yielding

def spend? (s : Scheduler) : Option Scheduler :=
  match s.left with
  | 0 => none
  | left + 1 => some { s with left }

def giveWay (s : Scheduler) : Scheduler := { s with spent := s.spent ++ [s.running] }

def endTurn (s : Scheduler) : Scheduler := { s with spent := [] }.wakeAll s.spent.reverse

def run (s : Scheduler) (task : TaskId) : Scheduler := { s with running := task, left := allowance }

def turnLength : Nat := 61

end Scheduler

end EventTracking
