import EventTracking.Disk
import EventTracking.Scheduler
import EventTracking.Session.Components
import EventTracking.Session.Ledger
import EventTracking.Session.Observation

set_option autoImplicit false

namespace EventTracking

inductive Job where
  | drains (queue : QueueId)
  | forwards (handoff : HandoffId)
  | errand (e : Errand)

structure Directory where
  consoles : Fields ConsoleId := ∅
  transports : Fields Transport := ∅
  cancellations : Fields CancellationId := ∅
  stores : Fields StoreId := ∅
  queues : Fields QueueId := ∅
  plugins : Fields PluginRef := ∅
  pipelines : Fields Nat := ∅
  trackers : Fields TrackerRef := ∅
  repositories : Fields Nat := ∅
  occurrences : Fields Occurrence := ∅
  trees : Fields Nat := ∅
  tasks : Fields TaskId := ∅

structure Holding where
  trackers : List TrackerRef := []
  repositories : List Nat := []
  queues : List QueueId := []
  transports : List Transport := []

structure FileWrite where
  ticket : Nat
  file : String
  text : String
  task : TaskId

structure Session where
  -- Whether tasks can run in the background.
  hasRuntime : Bool := true
  time : Int := 0
  -- The milliseconds that the system's own clock shows. A session does not move it.
  systemTime : Nat := 0
  -- What is read as the time since the first attempt of a call. A session does not move it, but it
  -- is never read before it has moved at all.
  attemptTime : Duration := 1
  -- The directory of the files, as messages show it.
  path : String := "."
  network : Http.Request → Option Nat := fun _ => none
  scheduler : Scheduler := {}
  disk : Disk := {}
  consoles : Array Console := #[]
  leaves : Array Leaf := #[]
  pausers : Array Pauser := #[]
  cancellations : Array Cancellation := #[]
  stores : Array Store := #[]
  queues : Array Queue := #[]
  handoffs : Array Handoff := #[]
  plugins : Array Plugin := #[]
  pipelines : Array ReportingPipeline := #[]
  trackers : Array (Tracker PluginRef) := #[]
  repositories : Array ReportingRepository := #[]
  trees : Array ReportingTree := #[]
  instances : Nat := 0
  labels : List (InstanceId × String) := []
  names : Directory := {}
  stamps : Nat := 0
  nextTask : TaskId := foreground + 1
  -- Jobs that have not begun.
  jobs : List (TaskId × Job) := []
  -- Tasks that are to be given up where they stand.
  aborted : List TaskId := []
  results : List (TaskId × Answer) := []
  holdings : List (TaskId × Holding) := []
  -- Tasks that wait for the end of others: the one that is waited for comes first.
  joiners : List (TaskId × TaskId) := []
  writes : List FileWrite := []
  writeResults : List (Nat × Except FileFault Unit) := []
  nextWrite : Nat := 0
  -- What was observed, newest first.
  observed : List Observation := []
  ledger : Ledger := []

namespace Session

abbrev Change := StateM Session

def wakeAll (tasks : List TaskId) : Change Unit :=
  modify fun s => { s with scheduler := s.scheduler.wakeAll tasks }

def observe (o : Observation) : Change Unit :=
  modify fun s => { s with observed := o :: s.observed }

def note (m : Milestone) : Change Unit := modify fun s => { s with ledger := m :: s.ledger }

def report (console : ConsoleId) (e : Entry) : Change Unit :=
  modify fun s =>
    let (c, reports) := (s.consoles.getD console default).write e
    { s with
      consoles := s.consoles.set! console c
      observed := reports.foldl (fun l r => .report r :: l) s.observed }

def addConsole (c : Console) : Change ConsoleId :=
  modifyGet fun s => (s.consoles.size, { s with consoles := s.consoles.push c })

def consoleOr : Option ConsoleId → Change ConsoleId
  | some c => return c
  | none => addConsole .default

def addLeaf (l : Leaf) : Change LeafId :=
  modifyGet fun s => (s.leaves.size, { s with leaves := s.leaves.push l })

def addCancellation : Change CancellationId :=
  modifyGet fun s => (s.cancellations.size, { s with cancellations := s.cancellations.push {} })

def addStore (x : Store) : Change StoreId :=
  modifyGet fun s => (s.stores.size, { s with stores := s.stores.push x })

def leaf (s : Session) (id : LeafId) : Leaf := s.leaves.getD id default

def cancellation (s : Session) (id : CancellationId) : Cancellation :=
  s.cancellations.getD id default

def store (s : Session) (id : StoreId) : Store := s.stores.getD id default

def queue (s : Session) (id : QueueId) : Queue := s.queues.getD id default

def handoff (s : Session) (id : HandoffId) : Handoff := s.handoffs.getD id default

def setCancellation (id : CancellationId) (c : Cancellation) : Change Unit :=
  modify fun s => { s with cancellations := s.cancellations.set! id c }

def setStore (id : StoreId) (x : Store) : Change Unit :=
  modify fun s => { s with stores := s.stores.set! id x }

def setQueue (id : QueueId) (q : Queue) : Change Unit :=
  modify fun s => { s with queues := s.queues.set! id q }

def setHandoff (id : HandoffId) (h : Handoff) : Change Unit :=
  modify fun s => { s with handoffs := s.handoffs.set! id h }

def isLeafUsable (s : Session) (id : LeafId) : Bool := (s.leaf id).isUsable

def isUsable (s : Session) (t : Transport) : Bool := t.isUsable s.isLeafUsable

def transportName (s : Session) (t : Transport) : String := t.name fun id => (s.leaf id).name

def spawn? (job : Job) : Change (Option TaskId) :=
  modifyGet fun s =>
    if s.hasRuntime then
      (some s.nextTask,
        { s with
          nextTask := s.nextTask + 1
          jobs := s.jobs ++ [(s.nextTask, job)]
          scheduler := s.scheduler.wake s.nextTask })
    else (none, s)

def isFinished (s : Session) (task : TaskId) : Bool := s.results.any fun r => r.1 == task

def result? (s : Session) (task : TaskId) : Option Answer :=
  (s.results.find? fun r => r.1 == task).map (·.2)

def abort (task : TaskId) : Change Unit :=
  modify fun s =>
    if s.isFinished task then s
    else { s with aborted := task :: s.aborted, scheduler := s.scheduler.wake task }

def hold (task : TaskId) (h : Holding) : Change Unit :=
  modify fun s => { s with holdings := (task, h) :: s.holdings }

def letGo (task : TaskId) : Change Unit :=
  modify fun s => { s with holdings := s.holdings.filter fun h => h.1 != task }

def finishTask (task : TaskId) (a : Answer) : Change Unit := do
  let waiting := (← get).joiners.filter fun j => j.1 == task
  modify fun s =>
    { s with
      results := (task, a) :: s.results
      joiners := s.joiners.filter fun j => j.1 != task }
  letGo task
  wakeAll (waiting.map (·.2))

def cancel (id : CancellationId) : Change Unit := do
  let (tasks, c) := ((← get).cancellation id).cancel
  setCancellation id c
  wakeAll tasks

def cancelAt (n : Nat) (cancelOn : Option (CancelOn CancellationId)) : Change Unit := do
  if let some c := cancelOn then
    if c.n = n then cancel c.cancellation

def stamp (e : UntrackedEvent) : Change Event := do
  let e ← modifyGet fun s =>
    let n := s.stamps + 1
    (Event.stamp e ("#" ++ toString n) s.time, { s with stamps := n })
  note (.stamped e)
  return e

def startLoop (id : QueueId)
    (start : Queue → Option TaskId → Except Error Unit × Queue) : Change (Except Error Unit) := do
  let s ← get
  let next := if s.hasRuntime then some s.nextTask else none
  let (r, q) := start (s.queue id) next
  setQueue id q
  if q.loop != (s.queue id).loop then
    let _ ← spawn? (.drains id)
  return r

def ensureRunning (id : QueueId) : Change (Except Error Unit) := startLoop id Queue.ensureRunning

def stopLoop (id : QueueId) : Change (Option TaskId) := do
  let (task, q) := ((← get).queue id).stop
  setQueue id q
  if let some task := task then abort task
  return task

def wire (id : QueueId) (inner : Transport) : Change Transport := do
  setQueue id (((← get).queue id).setTransport inner)
  let _ ← ensureRunning id
  return .queued id inner

def seen (c : Contexts) : SeenContexts :=
  ⟨c.locations.map Context.type, c.globals.map Context.type⟩

def plugin (s : Session) (id : Nat) : Plugin := s.plugins.getD id default

def setPlugin (id : Nat) (p : Plugin) : Change Unit :=
  modify fun s => { s with plugins := s.plugins.set! id p }

def addPlugin (p : Plugin) : Change PluginRef :=
  modifyGet fun s => (⟨s.plugins.size, p.name⟩, { s with plugins := s.plugins.push p })

def hooks (ref : PluginRef) : Hooks Change where
  isUsable := return ((← get).plugin ref.id).isUsable
  attach owner := do
    match (← get).plugin ref.id with
    | .journal name _ _ => observe (.hook name (.attached owner.trackerId))
    | .application p => setPlugin ref.id (.application (p.attach owner))
    | .taxonomy p => setPlugin ref.id (.taxonomy (p.attach owner))
    | .path _ => return
  validate e := do
    match (← get).plugin ref.id with
    | .journal name _ _ => observe (.hook name (.validated e.type (seen e.contexts)))
    | _ => return
  enrich contexts := do
    match (← get).plugin ref.id with
    | .journal name _ own =>
      observe (.hook name (.enriched (seen contexts)))
      return contexts ++ own
    | .application p =>
      match p.enrich? contexts with
      | some contexts => return contexts
      | none =>
        report (← consoleOr p.console) (.error ApplicationPlugin.uninitializedMessage)
        return contexts
    | .path p => return p.enrich contexts
    | .taxonomy _ => return contexts
  beforeTransport e := do
    match (← get).plugin ref.id with
    | .journal name _ _ => observe (.hook name (.beforeTransport e.type (seen e.contexts)))
    | .taxonomy p =>
      let console ← consoleOr p.console
      (p.reports e).forM (report console)
    | _ => return

end Session

end EventTracking
