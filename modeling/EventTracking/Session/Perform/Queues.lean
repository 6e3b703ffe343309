import EventTracking.Session.Perform.Lookup
import EventTracking.Session.Delivering

set_option autoImplicit false

namespace EventTracking.Session

def openStore (kind : Store.Kind) : Change (Except Error StoreId) := do
  match kind with
  | .file file =>
    let s ← get
    match Store.load (s.path ++ "/" ++ file) (s.disk.read file) with
    | .ok events => .ok <$> addStore { kind, events }
    | .error e => return .error e
  | _ => .ok <$> addStore { kind }

def storeErrand : StoreCommand → Step Errand
  | .new name kind => Step.answer do
    match ← openStore kind with
    | .ok id =>
      setNames fun d => { d with stores := d.stores.insert name id }
      return .storeName kind.name
    | .error e => return .failed e
  | .fail store methods => Step.answer do
    let id ← known Directory.stores store
    let x := (← get).store id
    if let .flaky _ := x.kind then
      setStore id { x with kind := .flaky methods }
    return .done
  | .read store count position =>
    return .readStore (← known Directory.stores store) count position
  | .write store events => return .editStore (← known Directory.stores store) (.append events)
  | .delete store ids => return .editStore (← known Directory.stores store) (.remove ids)
  | .clear store => return .editStore (← known Directory.stores store) .clear
  | .length store => return .measureStore (← known Directory.stores store)

def diskStep : DiskCommand → Step Answer
  | .write file text => do
    let s ← get
    if let .ok disk := s.disk.write file text then set { s with disk }
    return .done
  | .writeBytes file bytes => do
    let s ← get
    if let .ok disk := s.disk.writeBytes file bytes then set { s with disk }
    return .done
  | .read file => do
    match (← get).disk.read file with
    | .ok text => return .text text
    | .error _ => return .nothing
  | .makeDirectory file => do
    modify fun s => { s with disk := s.disk.makeDirectory file }
    return .done
  | .remove file => do
    modify fun s => { s with disk := s.disk.remove file }
    return .done

def queueErrand : QueueCommand → Step Errand
  | .new name batchSize batchDelay store => Step.answer do
    let store ← match store with
      | some name => known Directory.stores name
      | none => addStore {}
    let q : Queue := { store }
    let q : Queue :=
      { q with
        batchSize := batchSize.getD q.batchSize
        batchDelay := batchDelay.getD q.batchDelay }
    let id ← modifyGet fun s => (s.queues.size, { s with queues := s.queues.push q })
    setNames fun d => { d with queues := d.queues.insert name id }
    let storeName := ((← get).store store).kind.name
    return .queueSettings {
      batchSize := q.batchSize
      batchDelay := q.batchDelay
      storeName
      summary := q.summary storeName }
  | .setTransport queue transport => Step.answer do
    let id ← known Directory.queues queue
    let t ← known Directory.transports transport
    setQueue id (((← get).queue id).setTransport t)
    return .done
  | .run queue transport => Step.answer do
    let id ← known Directory.queues queue
    let t ← known Directory.transports transport
    return .ofUnit (← startLoop id fun q task => q.run t task)
  | .ensureRunning queue => Step.answer do
    return .ofUnit (← ensureRunning (← known Directory.queues queue))
  | .stop queue => return .stopQueue (← known Directory.queues queue)
  | .push queue events => return .push (← known Directory.queues queue) events
  | .drop queue => Step.answer do
    let _ ← known Directory.queues queue
    setNames fun d => { d with queues := d.queues.erase queue }
    return .done
  | .drain queue => return .drain (← known Directory.queues queue)
  | .flush queue => return .flush (← known Directory.queues queue)
  | .wait queue timeout => return .awaitIdle (← known Directory.queues queue) timeout
  | .info queue => return .describeQueue (← known Directory.queues queue)

end EventTracking.Session
