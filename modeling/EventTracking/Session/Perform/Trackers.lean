import EventTracking.Session.Perform.Lookup
import EventTracking.Session.Tracking

set_option autoImplicit false

namespace EventTracking.Session

def configOf (spec : TrackerSpec) : Step (TrackerConfig PluginRef) := do
  return {
    applicationId := spec.applicationId
    trackerId? := spec.trackerId
    active := spec.active
    contexts := spec.contexts
    plugins := ← spec.plugins.mapM (known Directory.plugins)
    transport := ← spec.transport.mapM (known Directory.transports)
    queue := ← spec.queue.mapM (known Directory.queues)
    console := ← knownConsole spec.console }

def knownTracker (name : String) : Step (TrackerRef × SessionTracker) := do
  let ref ← known Directory.trackers name
  match (← get).tracker? ref with
  | some t => return (ref, t)
  | none => throw name

def trackerAnswer (ref : TrackerRef) : Change Answer := do
  let s ← get
  match s.tracker? ref with
  | some t => return .tracker (s.trackerStatus t)
  | none => return .nothing

def trackerErrand : TrackerCommand → Step Errand
  | .new name spec => Step.answer do
    let ref ← makeTracker (← configOf spec)
    nameTracker ref (some name)
    trackerAnswer ref
  | .derive name source scope => Step.answer do
    let (_, t) ← knownTracker source
    let ref ← deriveTracker t scope
    nameTracker ref (some name)
    trackerAnswer ref
  | .info tracker => Step.answer do trackerAnswer (← known Directory.trackers tracker)
  | .setActive tracker active => Step.answer do
    setActive (← known Directory.trackers tracker) active
    return .done
  | .agrees tracker spec => Step.answer do
    let (_, t) ← knownTracker tracker
    return .flag ((← configOf spec).agreesWith t)
  | .drop tracker => Step.answer do
    let _ ← known Directory.trackers tracker
    setNames fun d => { d with trackers := d.trackers.erase tracker }
    return .done
  | .track tracker e extra => Step.answer do
    let (_, t) ← knownTracker tracker
    return .json (← Session.track t e extra).json
  | .deliver tracker e extra => return .deliver (← known Directory.trackers tracker) e extra
  | .finalize e => Step.answer do return .json (← stamp e).json
  | .flush tracker => return .flushTracker (← known Directory.trackers tracker)
  | .wait tracker timeout => return .awaitTracker (← known Directory.trackers tracker) timeout

end EventTracking.Session
