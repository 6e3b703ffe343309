import EventTracking.Session.Delivering

set_option autoImplicit false

namespace EventTracking.Session

abbrev SessionTracker := Tracker PluginRef

def tracker? (s : Session) (ref : TrackerRef) : Option SessionTracker := s.trackers[ref.index]?

def addTracker (t : SessionTracker) : Change TrackerRef :=
  modifyGet fun s => (⟨s.trackers.size, t.trackerId⟩, { s with trackers := s.trackers.push t })

def addHandoff (transport : Transport) : Change HandoffId :=
  modifyGet fun s => (s.handoffs.size, { s with handoffs := s.handoffs.push { transport } })

def trackerTransport (c : TrackerConfig PluginRef) (console : ConsoleId) :
    Change (Option Transport) :=
  match c.transport, c.queue with
  | some t, some q => some <$> wire q t
  | some t, none => return some t
  | none, some _ => do
    report console (.error (TrackerConfig.undeliverableMessage c.trackerId))
    return none
  | none, none => return none

def assemble (c : TrackerConfig PluginRef) (console : ConsoleId) (plugins : List PluginRef) :
    Change TrackerRef := do
  let transport ← trackerTransport c console
  let (pipeline, taken) := Pipeline.ofList plugins
  taken.forM fun name => report console (.error (Pipeline.takenMessage name))
  let handoff ← transport.mapM addHandoff
  let t : SessionTracker :=
    { applicationId := c.applicationId
      trackerId := c.trackerId
      active := c.active
      contexts := c.contexts
      plugins := pipeline
      handoff
      queue := c.queue
      console }
  pipeline.attach hooks t.owner
  addTracker t

def makeTracker (c : TrackerConfig PluginRef) : Change TrackerRef := do
  let console ← consoleOr c.console
  if c.hasApplicationPlugin then assemble c console c.plugins
  else assemble c console (c.allPlugins (← addPlugin (.application {})))

def deriveTracker (t : SessionTracker) (scope : Contexts) : Change TrackerRef := do
  let t := t.derive scope
  t.plugins.attach hooks t.owner
  addTracker t

def finalize (t : SessionTracker) (e : UntrackedEvent) (extra : List Contexts) : Change Event :=
  t.finalize hooks stamp e extra

def usableHandoff (s : Session) (t : SessionTracker) : Option HandoffId :=
  t.handoff.filter fun id => s.isUsable (s.handoff id).transport

def handOver (t : SessionTracker) (e : Event) : Change Unit := do
  if t.active then
    if let some id := (← get).usableHandoff t then
      if !(← send id e) then
        report t.console (.error (t.undeliveredMessage e))

def track (t : SessionTracker) (e : UntrackedEvent) (extra : List Contexts) : Change Event := do
  let e ← finalize t e extra
  handOver t e
  return e

def trackAndDeliver (t : SessionTracker) (e : UntrackedEvent) (extra : List Contexts) :
    Task (Except Error Event) := do
  let e ← now (finalize t e extra)
  if !t.active then return .ok e
  match ← .get fun s => s.usableHandoff t with
  | none => return .ok e
  | some id =>
    let transport ← settled id (callTransport id (.delivered id e))
    match ← handle transport [e] with
    | .ok () => return .ok e
    | .error err => return .error err

def flushTracker (t : SessionTracker) : Task (Except Error Nat) :=
  match t.queue with
  | none => return .ok 0
  | some q => do
    if let some id := t.handoff then settled id (pure ())
    flush q

def waitForTracker (t : SessionTracker) (timeout : Nat) : Task Bool := do
  let started ← .get Session.systemTime
  if let some id := t.handoff then
    if !(← settledWithin id timeout) then
      return false
  match t.queue with
  | none => return true
  | some q => waitUntilIdle q (timeout - ((← .get Session.systemTime) - started))

def total : List (Except Error Nat) → Except Error Nat
  | [] => .ok 0
  | .ok n :: rest => (total rest).map (n + ·)
  | .error e :: _ => .error e

def flushAll (trackers : List SessionTracker) : Task (Except Error Nat) := do
  return total (← Async.gather (trackers.map flushTracker))

def waitForAll (trackers : List SessionTracker) (timeout : Nat) : Task Bool := do
  return (← Async.gather (trackers.map fun t => waitForTracker t timeout)).all id

def trackersOf (s : Session) (r : Repository TrackerRef) : List SessionTracker :=
  r.all.filterMap s.tracker?

def setActive (ref : TrackerRef) (active : Bool) : Change Unit :=
  modify fun s => { s with trackers := s.trackers.modify ref.index fun t => { t with active } }

def trackerStatus (s : Session) (t : SessionTracker) : TrackerStatus where
  applicationId := t.applicationId
  trackerId := t.trackerId
  active := t.active
  contexts := t.contexts
  plugins := t.plugins.names
  transport := t.handoff.map fun id => s.transportName (s.handoff id).transport
  hasQueue := t.queue.isSome

def register (r : ReportingRepository) (ref : TrackerRef) :
    Change (ReportingRepository × Option TrackerRef) :=
  match r.repository.register? ref with
  | some repository => return ({ r with repository }, some ref)
  | none => do
    report r.console (.error (Repository.takenMessage ref.id))
    return (r, none)

def registerNew (r : ReportingRepository) (c : TrackerConfig PluginRef) :
    Change (ReportingRepository × Option TrackerRef) := do
  match ← r.repository.make? c.trackerId (makeTracker c) with
  | some (repository, ref) => return ({ r with repository }, some ref)
  | none => do
    report r.console (.error (Repository.takenMessage c.trackerId))
    return (r, none)

def getOrMake (r : ReportingRepository) (c : TrackerConfig PluginRef) :
    Change (ReportingRepository × TrackerRef) := do
  if let some ref := r.repository.trackers.find? c.trackerId then
    if !((← get).tracker? ref).any c.agreesWith then
      report r.console (.warn (Repository.differentMessage c.trackerId))
  let (repository, ref) ← r.repository.getOrMake c.trackerId (makeTracker c)
  return ({ r with repository }, ref)

def setDefault (r : ReportingRepository) (id : String) : Change (ReportingRepository × Bool) :=
  match r.repository.setDefault? id with
  | some repository => return ({ r with repository }, true)
  | none => do
    report r.console (.error (Repository.noDefaultMessage id))
    return (r, false)

def setDefaultConfig (r : ReportingRepository) (c : TrackerConfig PluginRef) :
    Change (ReportingRepository × TrackerRef) := do
  let (r, ref) ← getOrMake r c
  return ({ r with repository := r.repository.assignDefault ref.id }, ref)

def unregister (r : ReportingRepository) (id : String) : Change (ReportingRepository × Bool) :=
  match r.repository.delete? id with
  | some repository => return ({ r with repository }, true)
  | none => do
    report r.console (.error (Repository.undeletableMessage id))
    return (r, false)

end EventTracking.Session
