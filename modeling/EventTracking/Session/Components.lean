import EventTracking.Session.Answer
import EventTracking.Session.Command
import EventTracking.Tracker.Basic
import EventTracking.Tracker.Repository
import EventTracking.Transport.Http

set_option autoImplicit false

namespace EventTracking

structure ScriptedLeaf where
  name : String
  script : Script CancellationId
  calls : Nat := 0

inductive Leaf where
  | scripted (s : ScriptedLeaf)
  | debug (console : ConsoleId)
  | collector (c : Http.Collector)
  deriving Inhabited

namespace Leaf

def debugName : String := "DebugTransport"

def name : Leaf → String
  | scripted s => s.name
  | debug _ => debugName
  | collector _ => Http.name

def isUsable : Leaf → Bool
  | scripted s => s.script.usable
  | debug _ => true
  | collector _ => true

def debugEntries (e : Event) : List Entry :=
  [.group (debugName ++ ": " ++ e.type ++ " (" ++ e.id ++ ")"), .log e.wire.lines, .groupEnd]

end Leaf

inductive Pauser where
  | clock
  | recording (transport : String) (pauses : Nat) (cancelOn : Option (CancelOn CancellationId))
  | stalled
  deriving Inhabited

inductive Plugin where
  | journal (name : String) (usable : Bool) (contexts : Contexts)
  | application (p : ApplicationPlugin)
  | taxonomy (p : TaxonomyPlugin)
  | path (p : PathPlugin)
  deriving Inhabited

namespace Plugin

def name : Plugin → String
  | journal name _ _ => name
  | application _ => ApplicationPlugin.name
  | taxonomy _ => TaxonomyPlugin.name
  | path _ => PathPlugin.name

def isUsable : Plugin → Bool
  | journal _ usable _ => usable
  | application _ => true
  | taxonomy _ => true
  | path p => p.isUsable

def detail : Plugin → PluginDetail
  | application p => .applicationId p.applicationId
  | taxonomy p => .attached p.initialized
  | _ => .none

end Plugin

structure PluginRef where
  id : Nat
  name : String
  deriving Inhabited

instance : Named PluginRef := ⟨PluginRef.name⟩

structure TrackerRef where
  index : Nat
  id : String
  deriving Inhabited

instance : Identified TrackerRef := ⟨TrackerRef.id⟩

structure ReportingPipeline where
  pipeline : Pipeline PluginRef
  console : ConsoleId
  deriving Inhabited

structure ReportingRepository where
  repository : Repository TrackerRef
  console : ConsoleId
  deriving Inhabited

structure ReportingTree where
  tree : LocationTree
  console : ConsoleId
  deriving Inhabited

inductive Errand where
  | answered (a : Answer)
  | handle (t : Transport) (batch : List Event)
  | awaitCancel (id : CancellationId)
  | readStore (id : StoreId) (count position : Nat)
  | editStore (id : StoreId) (e : Store.Edit)
  | measureStore (id : StoreId)
  | stopQueue (id : QueueId)
  | push (id : QueueId) (events : List Event)
  | drain (id : QueueId)
  | flush (id : QueueId)
  | awaitIdle (id : QueueId) (timeout : Nat)
  | describeQueue (id : QueueId)
  | deliver (tracker : TrackerRef) (e : UntrackedEvent) (extra : List Contexts)
  | flushTracker (tracker : TrackerRef)
  | awaitTracker (tracker : TrackerRef) (timeout : Nat)
  | flushAll (repository : Nat)
  | awaitAll (repository : Nat) (timeout : Nat)
  | sleep (ms : Nat)
  | yield
  | join (task : TaskId)

end EventTracking
