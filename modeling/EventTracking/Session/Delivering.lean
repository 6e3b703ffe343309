import EventTracking.Session.Waiting
import EventTracking.Transport.Delivery
import EventTracking.Waiting

set_option autoImplicit false

namespace EventTracking.Session

def beginCall (id : LeafId) (x : ScriptedLeaf) (batch : List Event) : Change Duration := do
  let n := x.calls + 1
  let script := x.script
  let usable := script.usable && script.unusableAfter != some n
  let x := { x with calls := n, script := { script with usable } }
  modify fun s => { s with leaves := s.leaves.set! id (.scripted x) }
  observe (.call x.name (batch.map Event.id))
  cancelAt n script.cancelOn
  return Duration.ofMillis script.delay

def endCall (id : LeafId) : Change (Except Error Unit) := do
  match (← get).leaf id with
  | .scripted x =>
    if x.script.failures = 0 then
      observe (.accept x.name)
      return .ok ()
    else
      let script := { x.script with failures := x.script.failures - 1 }
      modify fun s => { s with leaves := s.leaves.set! id (.scripted { x with script }) }
      observe (.reject x.name)
      return .error (script.rejection (x.name ++ " rejected the batch"))
  | _ => return .ok ()

def deliverToLeaf (id : LeafId) (batch : List Event) : Task (Except Error Unit) := do
  match ← .get fun s => s.leaf id with
  | .scripted x => do
    sleep (← now (beginCall id x batch))
    now (endCall id)
  | .debug console =>
    now do
      batch.forM fun e => (Leaf.debugEntries e).forM (report console)
      return .ok ()
  | .collector c => .get fun s => c.deliver s.network batch s.time

def push (id : QueueId) (events : List Event) : Task (Except Error Unit) := do
  editStore (← .get fun s => (s.queue id).store) (.append events)

def enqueue (id : QueueId) (batch : List Event) : Task (Except Error Unit) := do
  match ← push id batch with
  | .ok () => now (ensureRunning id)
  | .error e => return .error e

def pause (id : PauserId) (d : Duration) : Task Unit := do
  breathe
  match ← .get fun s => s.pausers.getD id default with
  | .clock => sleep d
  | .stalled => stall
  | .recording transport pauses cancelOn =>
    now do
      let n := pauses + 1
      modify fun s => { s with pausers := s.pausers.set! id (.recording transport n cancelOn) }
      observe (.pause transport d)
      cancelAt n cancelOn

def surroundings : Surroundings Session where
  leafUsable id s := s.isLeafUsable id
  deliver := deliverToLeaf
  enqueue := enqueue
  warn console message := leaving (report console (.warn message))
  isCancelled id s := (s.cancellation id).cancelled
  cancelled := cancelled
  pause := pause
  elapsed s := (s.attemptTime, s)

def handle (t : Transport) (batch : List Event) : Task (Except Error Unit) :=
  t.handle surroundings batch

def drainPhase (id : QueueId) :
    Drain.Phase → Task (Drain.Phase ⊕ Except Error Drain.Outcome)
  | .reading t => do
    let q ← .get fun s => s.queue id
    return .inl (Drain.read t (← readStore q.store q.batchSize 0))
  | .delivering t batch => do
    let r ← handle t batch
    if r.isOk then now (note (.accepted id batch))
    return .inl (Drain.answered batch r)
  | .deleting ids => do
    let q ← .get fun s => s.queue id
    return .inr (Drain.deleted ids (← editStore q.store (.remove ids)))
  | .ended r => return .inr r

def claim (id : QueueId) : Change (Option Drain.Phase) := do
  let s ← get
  match (s.queue id).claim? with
  | none => return none
  | some q =>
    setQueue id q
    return some (Drain.opening s.isUsable q)

def unclaim (id : QueueId) : Change Unit := do setQueue id ((← get).queue id).release

def drain (id : QueueId) : Task (Except Error Drain.Outcome) := do
  match ← now (claim id) with
  | none => return .ok .skipped
  | some phase =>
    Async.ensuring (leaving (unclaim id)) (Async.iterate (drainPhase id) phase)

def pollInterval : Duration := Duration.ofMillis Waiting.defaultInterval

def flushRound (id : QueueId) : Flush.Next → Task (Flush.Next ⊕ Except Error Nat)
  | .drain delivered => return .inl (Flush.next delivered (← drain id))
  | .pause delivered => do
    sleep pollInterval
    return .inl (.drain delivered)
  | .ended r => return .inr r

def flush (id : QueueId) : Task (Except Error Nat) :=
  Async.iterate (flushRound id) (.drain 0)

def isIdle (id : QueueId) : Task Bool := do
  let q ← .get fun s => s.queue id
  if q.processing then return false
  match ← storeLength q.store with
  | .ok n => return n == 0
  | .error _ => return false

def idleRound (id : QueueId) (start timeout : Nat) : Task (Unit ⊕ Bool) := do
  let holds ← isIdle id
  match Waiting.judge timeout holds ((← .get fun s => s.scheduler.now) - start) with
  | .held => return .inr true
  | .expired => return .inr false
  | .askAgain =>
    sleep pollInterval
    return .inl ()

def waitUntilIdle (id : QueueId) (timeout : Nat) : Task Bool := do
  let start ← .get fun s => s.scheduler.now
  Async.iterate (fun () => idleRound id start timeout) ()

-- What follows a tick, given the time of the next one.
def drainTick (id : QueueId) : Option Duration → Task (Duration ⊕ Answer)
  | none => return .inr (.broken .tooLate)
  | some next => do
    if ← .get fun s => (s.queue id).stopping then
      return .inr .done
    let _ ← drain id
    return .inl next

def drainRound (id : QueueId) (period due : Duration) : Task (Duration ⊕ Answer) := do
  if ← .get fun s => (s.queue id).stopping then
    return .inr .done
  sleepUntil ((due + 999999) / Nat.pow 10 6)
  drainTick id (← .get fun s => Ticker.next? period due (Duration.ofMillis s.scheduler.now))

def drains (id : QueueId) : Task Answer := do
  let period ← .get fun s => (s.queue id).batchDelay
  match Ticker.fault? period with
  | some fault => return .broken fault
  | none => do
    let start ← .get fun s => Duration.ofMillis s.scheduler.now
    Async.iterate (drainRound id period) (start + period)

def stop (id : QueueId) : Task (Except Error Unit) := do
  match ← now (stopLoop id) with
  | none => return .ok ()
  | some task =>
    match ← join task with
    | .broken fault => return .error (Queue.stopFailed task fault)
    | _ => return .ok ()

def takeNext (id : HandoffId) : Change (Option Event) := do
  match ((← get).handoff id).receive? with
  | none => return none
  | some (e, h) =>
    setHandoff id h
    note (.received id e)
    return some e

def lookForNext (id : HandoffId) (s : Session) : Option (Option Event) × Session :=
  match takeNext id s with
  | (some e, s) => (some (some e), s)
  | (none, s) =>
    let h := s.handoff id
    if h.isClosed then (some none, s)
    else (none, leaving (setHandoff id { h with receiver := some s.scheduler.running }) s)

def receive (id : HandoffId) : Task (Option Event) :=
  Async.await (whenAllowed (lookForNext id))
    (leaving do setHandoff id { (← get).handoff id with receiver := none })

def gatherRound (id : HandoffId) (batch : List Event) : Task (List Event ⊕ List Event) := do
  match ← now (takeNext id) with
  | some e => return .inl (batch ++ [e])
  | none => return .inr batch

def callTransport (id : HandoffId) (m : Milestone) : Change Transport := do
  note m
  return ((← get).handoff id).transport

-- A call of the transport in which the forwarding task breaks down does not come back to it.
def comeBack (id : HandoffId) : Except Error Unit → Task Unit
  | .error .durationOverflow => do
    now do setHandoff id { (← get).handoff id with isBroken := true }
    stall
  | _ => return ()

def countBatch (id : HandoffId) (batch : List Event) : Change Bool := do
  let (nothing, h) := ((← get).handoff id).subtract batch.length
  setHandoff id h
  note (.counted id batch)
  return nothing

def announceSettled (id : HandoffId) : Change Unit := do
  let (tasks, h) := ((← get).handoff id).announce
  setHandoff id h
  wakeAll tasks

def settleBatch (id : HandoffId) (batch : List Event) : Task Unit := do
  if ← now (countBatch id batch) then
    now (announceSettled id)

def forwardRound (id : HandoffId) : Task (Unit ⊕ Answer) := do
  match ← receive id with
  | none => return .inr .done
  | some e =>
    let batch ← Async.iterate (gatherRound id) [e]
    let t ← now (callTransport id (.forwarded id batch))
    comeBack id (← handle t batch)
    now (note (.returned id batch))
    settleBatch id batch
    return .inl ()

def closeChannel (id : HandoffId) : Change Unit := do
  setHandoff id ((← get).handoff id).closeChannel
  note (.closed id)

-- Forwards the events of a hand-off, those that wait together as one batch. The channel closes
-- when this ends, however it ends.
def forwards (id : HandoffId) : Task Answer :=
  Async.ensuring (leaving (closeChannel id)) (Async.iterate (fun () => forwardRound id) ())

def send (id : HandoffId) (e : Event) : Change Bool := do
  let s ← get
  let h := s.handoff id
  match h.send? s.hasRuntime e with
  | none => return false
  | some sent =>
    if !h.isOpen then
      let _ ← spawn? (.forwards id)
    setHandoff id { sent with receiver := none }
    note (.sent id e)
    wakeAll sent.receiver.toList
    return true

def watchSettled (id : HandoffId) : Change Nat := do
  let s ← get
  let (ticket, h) := (s.handoff id).watch s.scheduler.running
  setHandoff id h
  return ticket

def leaveSettled (id : HandoffId) (ticket : Nat) : Change Unit := do
  setHandoff id (((← get).handoff id).leave ticket)

def lookSettled {α : Type} (id : HandoffId) (ticket : Nat) (m : Change α) : Change (Option α) := do
  if ((← get).handoff id).pending = 0 then
    leaveSettled id ticket
    some <$> m
  else return none

def parkSettled (id : HandoffId) (ticket : Nat) : Task Unit :=
  Async.await (when fun s => !(s.handoff id).isWatching ticket) (leaving (leaveSettled id ticket))

def settledRound {α : Type} (id : HandoffId) (m : Change α) : Task (Unit ⊕ α) := do
  let ticket ← now (watchSettled id)
  match ← now (lookSettled id ticket m) with
  | some a => return .inr a
  | none =>
    parkSettled id ticket
    return .inl ()

def settled {α : Type} (id : HandoffId) (m : Change α) : Task α :=
  Async.iterate (fun () => settledRound id m) ()

def settledWithin (id : HandoffId) (timeout : Nat) : Task Bool := do
  match ← Async.firstOf (settled id (pure ())) (sleep (Duration.ofMillis timeout)) with
  | .inl () => return true
  | .inr () => return false

end EventTracking.Session
