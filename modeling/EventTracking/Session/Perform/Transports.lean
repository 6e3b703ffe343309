import EventTracking.Session.Perform.Lookup
import EventTracking.Session.Delivering

set_option autoImplicit false

namespace EventTracking.Session

def knownCancelOn (c : CancelOn String) : Step (CancelOn CancellationId) :=
  return ⟨c.n, ← known Directory.cancellations c.cancellation⟩

def makeTransport (name : String) : TransportSpec → Step Transport
  | .scripted script => do
    let cancelOn ← script.cancelOn.mapM knownCancelOn
    return .leaf (← addLeaf (.scripted { name, script := { script with cancelOn } }))
  | .group members => return .group (← members.mapM (known Directory.transports))
  | .debug console => return .leaf (← addLeaf (.debug (← consoleOr (← knownConsole console))))
  | .queued queue inner => do
    let inner ← known Directory.transports inner
    wire (← known Directory.queues queue) inner
  | .collector endpoint => return .leaf (← addLeaf (.collector { endpoint }))
  | .switch console routes => do
    let console ← consoleOr (← knownConsole console)
    return .switch console
      (← routes.mapM fun r => return (r.1, ← known Directory.transports r.2))
  | .retry inner policy pauser cancellation => do
    let inner ← known Directory.transports inner
    let cancellation ← match cancellation with
      | some c => known Directory.cancellations c
      | none => addCancellation
    let pauser : Pauser ← match pauser with
      | .clock => pure .clock
      | .recording cancelOn => .recording name 0 <$> cancelOn.mapM knownCancelOn
      | .stalled => pure .stalled
    setNames fun d => { d with cancellations := d.cancellations.insert name cancellation }
    let id ← modifyGet fun s => (s.pausers.size, { s with pausers := s.pausers.push pauser })
    return .retry policy id cancellation inner

def transportDetail (s : Session) : Transport → TransportDetail
  | .leaf id => match s.leaf id with
    | .scripted x => .calls x.calls
    | _ => .none
  | .group members =>
    .group (members.map s.transportName)
      ((Transport.firstUsable? s.isLeafUsable members).map s.transportName)
  | .switch _ routes => .switch routes.length
  | .retry .. => .none
  | .queued queue inner => .queued (s.transportName inner) (s.queue queue).isRunning

def transportStatus (s : Session) (t : Transport) : TransportStatus :=
  ⟨s.transportName t, s.isUsable t⟩

def transportErrand : TransportCommand → Step Errand
  | .new name spec => Step.answer do
    let t ← makeTransport name spec
    nameTransport name t
    return .transport ((← get).transportStatus t) .none
  | .set transport usable failures => Step.answer do
    if let .leaf id ← known Directory.transports transport then
      if let .scripted x := (← get).leaf id then
        let script :=
          { x.script with
            usable := usable.getD x.script.usable
            failures := failures.getD x.script.failures }
        modify fun s => { s with leaves := s.leaves.set! id (.scripted { x with script }) }
    return .done
  | .handle transport batch => return .handle (← known Directory.transports transport) batch
  | .info transport => Step.answer do
    let t ← known Directory.transports transport
    let s ← get
    return .transport (s.transportStatus t) (s.transportDetail t)

def cancelErrand : CancelCommand → Step Errand
  | .new name => Step.answer do
    let id ← addCancellation
    setNames fun d => { d with cancellations := d.cancellations.insert name id }
    return .done
  | .cancel name => Step.answer do
    let id ← known Directory.cancellations name
    cancel id
    return .flag ((← get).cancellation id).cancelled
  | .reset name => Step.answer do
    let id ← known Directory.cancellations name
    setCancellation id ((← get).cancellation id).reset
    return .flag ((← get).cancellation id).cancelled
  | .state name => Step.answer do
    let id ← known Directory.cancellations name
    return .flag ((← get).cancellation id).cancelled
  | .wait name => return .awaitCancel (← known Directory.cancellations name)

end EventTracking.Session
