import EventTracking.Session.Perform.Consoles
import EventTracking.Session.Perform.Plugins
import EventTracking.Session.Perform.Queues
import EventTracking.Session.Perform.Repositories
import EventTracking.Session.Perform.Transports
import EventTracking.Session.Perform.Trees

set_option autoImplicit false

namespace EventTracking.Session

def holdingOf : Errand → Holding
  | .handle t _ => { transports := [t] }
  | .stopQueue q | .push q _ | .drain q | .flush q | .awaitIdle q _ | .describeQueue q =>
    { queues := [q] }
  | .deliver t _ _ | .flushTracker t | .awaitTracker t _ => { trackers := [t] }
  | .flushAll r | .awaitAll r _ => { repositories := [r] }
  | _ => {}

def prepare : Command → Step Errand
  | .console c => Step.answer (consoleStep c)
  | .transport c => transportErrand c
  | .cancel c => cancelErrand c
  | .store c => storeErrand c
  | .disk c => Step.answer (diskStep c)
  | .queue c => queueErrand c
  | .plugin c => Step.answer (pluginStep c)
  | .pipeline c => Step.answer (pipelineStep c)
  | .tracker c => trackerErrand c
  | .repository c => repositoryErrand c
  | .tree c => Step.answer (treeStep c)
  | .sleep ms => return .sleep ms
  | .yield => return .yield
  | .spawn _ (.refused e) => return .answered (.failed (.json e))
  | .spawn name c => do
    let e ← prepare c
    if let some task ← spawn? (.errand e) then
      hold task (holdingOf e)
      setNames fun d => { d with tasks := d.tasks.insert name task }
    return .answered .done
  | .isDone task => Step.answer do
    let task ← known Directory.tasks task
    return .flag ((← get).isFinished task)
  | .join task => return .join (← known Directory.tasks task)
  | .refused e => return .answered (.failed (.json e))

def queueStatus (id : QueueId) : Task QueueStatus := do
  let q ← .get fun s => s.queue id
  let length ← storeLength q.store
  let idle ← isIdle id
  let events ← readStore q.store (Nat.pow 2 64 - 1) 0
  return {
    length, idle
    running := q.isRunning
    hasTransport := q.hasTransport
    ids := events.map (·.map Event.id) }

def withTracker (ref : TrackerRef) (k : SessionTracker → Task Answer) : Task Answer := do
  match ← .get fun s => s.tracker? ref with
  | some t => k t
  | none => return .unknown ref.id

def withTrackersOf (repository : Nat) (k : List SessionTracker → Task Answer) : Task Answer := do
  let r ← .get fun s => (s.repositories.getD repository default).repository
  now do hold (← get).scheduler.running { trackers := r.all }
  k (← .get fun s => s.trackersOf r)

def carryOut : Errand → Task Answer
  | .answered a => return a
  | .handle t batch => return .ofUnit (← handle t batch)
  | .awaitCancel id => do
    cancelled id
    return .flag (← .get fun s => (s.cancellation id).cancelled)
  | .readStore id count position => do
    match ← readStore id count position with
    | .ok events => return .texts (events.map Event.id)
    | .error e => return .failed e
  | .editStore id e => return .ofUnit (← editStore id e)
  | .measureStore id => return .ofCount (← storeLength id)
  | .stopQueue id => return .ofUnit (← stop id)
  | .push id events => return .ofUnit (← push id events)
  | .drain id => do
    match ← drain id with
    | .ok outcome => return .drained outcome
    | .error e => return .failed e
  | .flush id => return .ofCount (← flush id)
  | .awaitIdle id timeout => return .flag (← waitUntilIdle id timeout)
  | .describeQueue id => return .queueStatus (← queueStatus id)
  | .deliver ref e extra =>
    withTracker ref fun t => do
      match ← trackAndDeliver t e extra with
      | .ok e => return .json e.json
      | .error err => return .failed err
  | .flushTracker ref => withTracker ref fun t => return .ofCount (← flushTracker t)
  | .awaitTracker ref timeout => withTracker ref fun t => return .flag (← waitForTracker t timeout)
  | .flushAll r => withTrackersOf r fun trackers => return .ofCount (← flushAll trackers)
  | .awaitAll r timeout =>
    withTrackersOf r fun trackers => return .flag (← waitForAll trackers timeout)
  | .sleep ms => do
    sleep (Duration.ofMillis ms)
    return .done
  | .yield => do
    yield
    return .done
  | .join task => join task

def perform (c : Command) : Task Answer := do
  match ← now (prepare c).run with
  | .ok e => carryOut e
  | .error name => return .unknown name

def Job.task : Job → Task Answer
  | .drains queue => Session.drains queue
  | .forwards handoff => Session.forwards handoff
  | .errand e => carryOut e

end EventTracking.Session
