import EventTracking.Console
import EventTracking.Event.Basic
import EventTracking.Retry.Run

set_option autoImplicit false

namespace EventTracking

abbrev LeafId := Nat
abbrev QueueId := Nat
abbrev CancellationId := Nat
abbrev PauserId := Nat

abbrev Matcher := Event → Bool

inductive Transport where
  | leaf (id : LeafId)
  | group (members : List Transport)
  | switch (console : ConsoleId) (routes : List (Matcher × Transport))
  | retry (policy : Retry.Policy) (pauser : PauserId) (cancellation : CancellationId)
      (inner : Transport)
  | queued (queue : QueueId) (inner : Transport)
  deriving Inhabited

namespace Matcher

def byType (type : String) : Matcher := fun e => e.type == type

def byId (id : String) : Matcher := fun e => e.id == id

def interactive : Matcher := Event.isInteractive

def hasGlobal (type : String) : Matcher := fun e => e.contexts.globals.any fun c => c.type == type

def hasProperty (key : String) : Matcher := fun e => e.properties.contains key

def nothing : Matcher := fun _ => false

def anything : Matcher := fun _ => true

end Matcher

namespace Transport

mutual

def isUsable (leafUsable : LeafId → Bool) : Transport → Bool
  | leaf id => leafUsable id
  | group members => anyUsable leafUsable members
  | switch _ routes => anyRouteUsable leafUsable routes
  | retry _ _ _ inner => isUsable leafUsable inner
  | queued _ inner => isUsable leafUsable inner

def anyUsable (leafUsable : LeafId → Bool) : List Transport → Bool
  | [] => false
  | t :: rest => isUsable leafUsable t || anyUsable leafUsable rest

def anyRouteUsable (leafUsable : LeafId → Bool) : List (Matcher × Transport) → Bool
  | [] => false
  | (_, t) :: rest => isUsable leafUsable t || anyRouteUsable leafUsable rest

end

def groupName : String := "TransportGroup"

def switchName : String := "TransportSwitch"

def queuedName : String := "QueuedTransport"

def name (leafName : LeafId → String) : Transport → String
  | leaf id => leafName id
  | group _ => groupName
  | switch _ _ => switchName
  | retry .. => Retry.transportName
  | queued _ _ => queuedName

def firstUsable? (leafUsable : LeafId → Bool) (members : List Transport) : Option Transport :=
  members.find? (isUsable leafUsable)

def groupError (members : Nat) : Error :=
  .unusable ("None of the " ++ toString members ++ " transports in the group is usable")

def switchError : Error := .unusable (switchName ++ " has no usable route")

end Transport

namespace Switch

def routeOf? (routes : List (Matcher × Bool)) (e : Event) : Option Nat :=
  routes.findIdx? fun (accepts, usable) => usable && accepts e

def bucket (routes : List (Matcher × Bool)) (batch : List Event) (route : Nat) : List Event :=
  batch.filter fun e => routeOf? routes e == some route

def dropped (routes : List (Matcher × Bool)) (batch : List Event) : List Event :=
  batch.filter fun e => routeOf? routes e == none

def dropMessage (e : Event) : String :=
  Transport.switchName ++ ": no route for " ++ e.type ++ " (" ++ e.id ++ "), dropping it."

def collect : List (Except Error Unit) → Except Error Unit
  | [] => .ok ()
  | .ok () :: rest => collect rest
  | .error e :: _ => .error e

end Switch

end EventTracking
