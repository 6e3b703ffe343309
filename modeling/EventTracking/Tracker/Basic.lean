import EventTracking.Plugin.BuiltIn
import EventTracking.Tracker.Handoff

set_option autoImplicit false

namespace EventTracking

structure TrackerConfig (π : Type) where
  applicationId : String
  -- The application id where none is given.
  trackerId? : Option String := none
  active : Bool := true
  contexts : Contexts := {}
  plugins : List π := []
  transport : Option Transport := none
  queue : Option QueueId := none
  console : Option ConsoleId := none

structure Tracker (π : Type) where
  applicationId : String
  trackerId : String
  active : Bool
  contexts : Contexts
  plugins : Pipeline π
  handoff : Option HandoffId
  queue : Option QueueId
  console : ConsoleId

namespace TrackerConfig

variable {π : Type}

def trackerId (c : TrackerConfig π) : String := c.trackerId?.getD c.applicationId

def hasApplicationPlugin [Named π] (c : TrackerConfig π) : Bool :=
  c.plugins.any fun p => Named.name p == ApplicationPlugin.name

-- The plugins of the tracker: the one that gives the application's context is put in front unless
-- it is configured.
def allPlugins [Named π] (c : TrackerConfig π) (application : π) : List π :=
  if c.hasApplicationPlugin then c.plugins else application :: c.plugins

def agreesWith (c : TrackerConfig π) (t : Tracker π) : Bool :=
  c.applicationId == t.applicationId && c.trackerId == t.trackerId && c.contexts.same t.contexts

def undeliverableMessage (trackerId : String) : String :=
  "Tracker " ++ trackerId ++ ": a TrackerQueue was configured without a TrackerTransport, " ++
    "events will not be delivered."

end TrackerConfig

namespace Tracker

variable {π : Type}

def owner (t : Tracker π) : Owner := ⟨t.applicationId, t.trackerId, t.console⟩

def derive (t : Tracker π) (scope : Contexts) : Tracker π :=
  { t with contexts := t.contexts ++ scope }

def compose (t : Tracker π) (e : UntrackedEvent) (extra : List Contexts) : UntrackedEvent :=
  let inner := Contexts.merge extra e.contexts
  { e with
    contexts := ⟨t.contexts.locations ++ inner.locations, inner.globals ++ t.contexts.globals⟩ }

variable {m : Type → Type} [Monad m]

-- Composes an event, runs it through the plugins and stamps it. A tracker that is not active
-- leaves the plugins out.
def finalize (hooks : π → Hooks m) (stamp : UntrackedEvent → m Event) (t : Tracker π)
    (e : UntrackedEvent) (extra : List Contexts) : m Event := do
  let e := t.compose e extra
  if !t.active then stamp e
  else
    t.plugins.validate hooks e
    let contexts ← t.plugins.enrich hooks e.contexts
    let finished ← stamp { e with contexts }
    t.plugins.beforeTransport hooks finished
    return finished

def undeliveredMessage (t : Tracker π) (e : Event) : String :=
  "Tracker " ++ t.trackerId ++ ": no tokio runtime available, " ++ e.type ++ " (" ++ e.id ++
    ") was not delivered."

end Tracker

end EventTracking
