import EventTracking.Transport.Basic

set_option autoImplicit false

namespace EventTracking

abbrev HandoffId := Nat

structure Handoff where
  transport : Transport
  channel : List Event := []
  -- Whether the channel is open: there is a task that receives.
  isOpen : Bool := false
  -- Events that are not through the transport yet.
  pending : Nat := 0
  settled : Signal := {}
  -- The forwarding task, while it waits for an event.
  receiver : Option TaskId := none
  isClosed : Bool := false
  -- Whether the forwarding task broke down in a call of the transport.
  isBroken : Bool := false
  deriving Inhabited

namespace Handoff

def openChannel (h : Handoff) : Handoff :=
  { h with channel := [], isOpen := true, receiver := none }

-- What the end of the forwarding task leaves behind: events in the channel go with it.
def closeChannel (h : Handoff) : Handoff :=
  { h with channel := [], isOpen := false, receiver := none, isBroken := false }

def push (h : Handoff) (e : Event) : Handoff :=
  { h with channel := h.channel ++ [e], pending := h.pending + 1 }

-- Sends an event. A channel that is not open is opened first, which takes a new forwarding task;
-- where that cannot be had, nothing is sent.
def send? (canStart : Bool) (h : Handoff) (e : Event) : Option Handoff :=
  if h.isOpen then some (h.push e)
  else if canStart then some (h.openChannel.push e)
  else none

def receive? (h : Handoff) : Option (Event × Handoff) :=
  match h.channel with
  | [] => none
  | e :: rest => some (e, { h with channel := rest })

def subtract (h : Handoff) (count : Nat) : Bool × Handoff :=
  (h.pending == count, { h with pending := h.pending - count })

def announce (h : Handoff) : List TaskId × Handoff :=
  let (tasks, settled) := h.settled.notify
  (tasks, { h with settled })

def watch (h : Handoff) (task : TaskId) : Nat × Handoff :=
  let (ticket, settled) := h.settled.register task
  (ticket, { h with settled })

def isWatching (h : Handoff) (ticket : Nat) : Bool := h.settled.isWaiting ticket

def leave (h : Handoff) (ticket : Nat) : Handoff := { h with settled := h.settled.leave ticket }

end Handoff

end EventTracking
