import EventTracking.Retry.Cancelling
import EventTracking.Session.State

set_option autoImplicit false

namespace EventTracking.Session

abbrev Task (α : Type) := Async Session α

def now {α : Type} (change : Change α) : Task α := .act change

def leaving (change : Change Unit) (s : Session) : Session := (change s).2

def when (happened : Session → Bool) (s : Session) : Option Unit × Session :=
  (if happened s then some () else none, s)

def whenAllowed {α : Type} (ready : Session → Option α × Session) (s : Session) :
    Option α × Session :=
  if !s.hasRuntime then ready s
  else match s.scheduler.spend? with
    | none => (none, { s with scheduler := s.scheduler.giveWay })
    | some scheduler =>
      match ready s with
      | (none, s) => (none, s)
      | (some a, s) => (some a, { s with scheduler := { s.scheduler with left := scheduler.left } })

def proceed : Task Unit := Async.await (whenAllowed fun s => (some (), s))

def breathe : Task Unit :=
  Async.await fun s =>
    if s.hasRuntime && s.scheduler.left == 0 then
      (none, { s with scheduler := s.scheduler.giveWay })
    else (some (), s)

def sleepUntil (due : Nat) : Task Unit := do
  breathe
  let timer ← .act fun s =>
    let (timer, scheduler) := s.scheduler.setTimer due
    (timer, { s with scheduler })
  match timer with
  | none => proceed
  | some timer =>
    Async.await (whenAllowed (when fun s => !s.scheduler.isSet timer))
      fun s => { s with scheduler := s.scheduler.clearTimer timer }

def sleep (d : Duration) : Task Unit := do
  sleepUntil (← .get fun s => s.scheduler.dueAfter d)

def yield : Task Unit := do
  .modify fun s => { s with scheduler := s.scheduler.yield }
  Async.await (when fun s => !s.scheduler.yielding.contains s.scheduler.running)

def stall : Task Unit := Async.await (when fun _ => false)

def place (id : CancellationId) : CancellationPlace Session where
  look s := s.cancellation id
  put c := leaving (setCancellation id c)
  running s := s.scheduler.running

def cancelled (id : CancellationId) : Task Unit := (place id).awaited

def join (task : TaskId) : Task Answer :=
  Async.await <| whenAllowed fun s =>
    match s.result? task with
    | some a => (some a, s)
    | none =>
      let joiner := (task, s.scheduler.running)
      (none, { s with
        joiners := if s.joiners.contains joiner then s.joiners else s.joiners ++ [joiner] })

def writeFile (file text : String) : Task (Except FileFault Unit) := do
  let ticket ← now do
    modifyGet fun s =>
      (s.nextWrite,
        { s with
          nextWrite := s.nextWrite + 1
          writes := s.writes ++ [⟨s.nextWrite, file, text, s.scheduler.running⟩] })
  Async.await <| whenAllowed fun s =>
    ((s.writeResults.find? fun r => r.1 == ticket).map (·.2), s)

def completeWrites : Change Unit := do
  let writes := (← get).writes
  modify fun s => { s with writes := [] }
  for w in writes do
    let r ← modifyGet fun s => match s.disk.write w.file w.text with
      | .ok disk => (.ok (), { s with disk })
      | .error fault => (.error fault, s)
    modify fun s => { s with writeResults := (w.ticket, r) :: s.writeResults }
    wakeAll [w.task]

def setLock (id : StoreId) (l : Lock) : Change Unit := do
  setStore id { (← get).store id with lock := l }

def releaseLock (id : StoreId) : Change Unit := do
  let (tasks, l) := ((← get).store id).lock.release
  setLock id l
  wakeAll tasks

def locked {α : Type} (id : StoreId) (a : Task α) : Task α := do
  let ticket ← now do
    let s ← get
    let (ticket, l) := (s.store id).lock.take s.scheduler.running
    setLock id l
    return ticket
  if let some ticket := ticket then
    Async.await (when fun s => !(s.store id).lock.queue.isWaiting ticket)
      (leaving do
        let (tasks, l) := ((← get).store id).lock.leave ticket
        setLock id l
        wakeAll tasks)
  Async.ensuring (leaving (releaseLock id)) a

def onStore {α : Type} (id : StoreId) (method : Store.Method) (run : Task (Except Error α)) :
    Task (Except Error α) := do
  let s ← .get fun s => s.store id
  match s.refusal? method with
  | some e => return .error e
  | none => do
    proceed
    match s.kind with
    | .file _ => locked id run
    | _ => run

def readStore (id : StoreId) (count position : Nat) : Task (Except Error (List Event)) :=
  onStore id .read (.get fun s => .ok (Store.window count position (s.store id).events))

def storeLength (id : StoreId) : Task (Except Error Nat) :=
  onStore id .length (.get fun s => .ok (s.store id).events.length)

def applyEdit (id : StoreId) (e : Store.Edit) : Change Store := do
  let x := ((← get).store id).edit e
  setStore id x
  note (.edited id e)
  return x

def editStore (id : StoreId) (e : Store.Edit) : Task (Except Error Unit) :=
  onStore id e.method do
    let x ← now (applyEdit id e)
    match x.file? with
    | none => return .ok ()
    | some (file, text) =>
      match ← writeFile file text with
      | .ok () => return .ok ()
      | .error fault => return .error (.file fault)

end EventTracking.Session
