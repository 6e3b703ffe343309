import EventTracking.Session.Perform

set_option autoImplicit false

namespace EventTracking

structure Runtime where
  session : Session
  suspended : List (TaskId × Session.Task Answer) := []

structure StepResult where
  answer : Answer
  -- The clock at the end, if it has moved.
  clock : Option Nat
  observed : List Observation

namespace Session

def queuesOf : Transport → List QueueId
  | .leaf _ => []
  | .group members => ofMembers members
  | .switch _ routes => ofRoutes routes
  | .retry _ _ _ inner => queuesOf inner
  | .queued queue inner => queue :: queuesOf inner
where
  ofMembers : List Transport → List QueueId
    | [] => []
    | t :: rest => queuesOf t ++ ofMembers rest
  ofRoutes : List (Matcher × Transport) → List QueueId
    | [] => []
    | (_, t) :: rest => queuesOf t ++ ofRoutes rest

def liveTrackers (s : Session) : List SessionTracker :=
  let named := s.names.trackers.entries.map (·.2)
  let repositories := s.names.repositories.entries.map (·.2) ++
    s.holdings.flatMap fun h => h.2.repositories
  let registered := repositories.flatMap fun id => (s.repositories.getD id default).repository.all
  let held := s.holdings.flatMap fun h => h.2.trackers
  (named ++ registered ++ held).filterMap s.tracker?

def reach (s : Session) : Nat → List QueueId → List QueueId
  | 0, live => live
  | fuel + 1, live =>
    let next := live.flatMap fun id => ((s.queue id).transport.map queuesOf).getD []
    match next.filter fun id => !live.contains id with
    | [] => live
    | id :: rest => s.reach fuel (live ++ id :: rest)

def liveQueues (s : Session) : List QueueId :=
  let trackers := s.liveTrackers
  let handoffs := (List.range s.handoffs.size).filter fun id =>
    (s.handoff id).isOpen || trackers.any fun t => t.handoff == some id
  let transports := s.names.transports.entries.map (·.2) ++
    (s.holdings.flatMap fun h => h.2.transports) ++
    handoffs.map fun id => (s.handoff id).transport
  s.reach (s.queues.size + 1)
    (s.names.queues.entries.map (·.2) ++ (s.holdings.flatMap fun h => h.2.queues) ++
      trackers.filterMap Tracker.queue ++ transports.flatMap queuesOf)

def retire : Change Unit := do
  let s ← get
  let trackers := s.liveTrackers
  for id in List.range s.handoffs.size do
    let h := s.handoff id
    if h.isOpen && !h.isClosed && !trackers.any (fun t => t.handoff == some id) then
      setHandoff id { h with isClosed := true, receiver := none }
      wakeAll h.receiver.toList
  let live := (← get).liveQueues
  for id in List.range s.queues.size do
    if (s.queue id).isRunning && !live.contains id then
      let _ ← stopLoop id

def brokenHandoffs (s : Session) : List HandoffId :=
  (List.range s.handoffs.size).filter fun id => (s.handoff id).isBroken

def closeBroken : Change Unit := do
  let broken := (← get).brokenHandoffs
  if !broken.isEmpty then
    broken.forM closeChannel
    retire

def begin? (s : Session) (task : TaskId) : Option (Job × Session) :=
  (s.jobs.find? fun j => j.1 == task).map fun (_, job) =>
    (job, { s with jobs := s.jobs.filter fun j => j.1 != task })

end Session

namespace Runtime

def pollFuel : Nat := Nat.pow 10 12

def change {α : Type} (rt : Runtime) (f : Session.Change α) : Runtime :=
  { rt with session := (f rt.session).2 }

def take? (rt : Runtime) (task : TaskId) : Option (Session.Task Answer × Runtime) :=
  match rt.suspended.find? fun p => p.1 == task with
  | some (_, program) =>
    some (program, { rt with suspended := rt.suspended.filter fun p => p.1 != task })
  | none =>
    (rt.session.begin? task).map fun (job, session) =>
      (Session.Job.task job, { rt with session })

def runTask (rt : Runtime) (task : TaskId) : Runtime :=
  match rt.take? task with
  | none => rt
  | some (program, rt) =>
    if rt.session.aborted.contains task then
      let session := program.abandon rt.session
      let aborted := session.aborted.filter (· != task)
      { rt with session := { session with aborted } }.change do
        Session.finishTask task .done
        Session.retire
    else
      let session := { rt.session with scheduler := rt.session.scheduler.run task }
      match program.poll pollFuel session with
      | (.ready a, session) =>
        { rt with session }.change do
          Session.finishTask task a
          Session.retire
      | (.pending program, session) =>
        { session := (Session.closeBroken session).2
          suspended := rt.suspended ++ [(task, program)] }

def runReady : Nat → Runtime → Runtime
  | 0, rt => rt
  | turns + 1, rt =>
    match rt.session.scheduler.ready with
    | [] => rt
    | task :: ready =>
      let scheduler := { rt.session.scheduler with ready }
      runReady turns (runTask { rt with session := { rt.session with scheduler } } task)

-- What happens when no background task can go on: first those go on that gave way, then the
-- foreground, then files are written, and at last the clock moves. Nothing may be left to happen.
def idle? (rt : Runtime) : Option Runtime :=
  let scheduler := rt.session.scheduler
  if !scheduler.yielding.isEmpty then
    some { rt with session := { rt.session with scheduler := scheduler.endYield } }
  else if scheduler.foregroundReady then some rt
  else if !rt.session.writes.isEmpty then some (rt.change Session.completeWrites)
  else scheduler.advance?.map fun scheduler => { rt with session := { rt.session with scheduler } }

def resume {α : Type} (a : Session.Task α) (rt : Runtime) : Async.Polled Session α × Runtime :=
  let scheduler := { rt.session.scheduler with foregroundReady := false }
  match a.poll pollFuel { rt.session with scheduler } with
  | (polled, session) => (polled, { rt with session })

-- The end of a turn of the background tasks: those that gave way can go on. Where no task can,
-- something else happens, if anything can.
def afterTurn? (rt : Runtime) : Option Runtime :=
  let scheduler := rt.session.scheduler
  if scheduler.ready.isEmpty && scheduler.spent.isEmpty then rt.idle?
  else some { rt with session := { rt.session with scheduler := scheduler.endTurn } }

def drive {α : Type} : Nat → Session.Task α → Runtime → Option α × Runtime
  | 0, _, rt => (none, rt)
  | fuel + 1, a, rt =>
    let rt := runReady Scheduler.turnLength rt
    match rt.afterTurn? with
    | none => (none, rt)
    | some rt =>
      if rt.session.scheduler.foregroundReady then
        let scheduler := rt.session.scheduler.run foreground
        match resume a { rt with session := { rt.session with scheduler } } with
        | (.ready x, rt) => (some x, rt)
        | (.pending a, rt) => drive fuel a rt
      else drive fuel a rt

-- Runs a task in the foreground to its end, unless it waits for what never happens. It begins with
-- what its predecessor left of the allowance.
def run {α : Type} (a : Session.Task α) (rt : Runtime) : Option α × Runtime :=
  let scheduler := { rt.session.scheduler with running := foreground }
  match resume a { rt with session := { rt.session with scheduler } } with
  | (.ready x, rt) => (some x, rt)
  | (.pending a, rt) => drive pollFuel a rt

def step (rt : Runtime) (c : Command) : StepResult × Runtime :=
  let before := rt.session.scheduler.now
  let rt := { rt with session := { rt.session with observed := [] } }
  let (answer, rt) := rt.run (Session.perform c)
  let rt := rt.change do
    Session.letGo foreground
    Session.retire
  let clock := rt.session.scheduler.now
  (⟨answer.getD .stuck, if clock = before then none else some clock, rt.session.observed.reverse⟩,
    rt)

def steps (rt : Runtime) : List Command → List StepResult
  | [] => []
  | c :: rest =>
    let (r, rt) := rt.step c
    r :: rt.steps rest

end Runtime

end EventTracking
