import EventTracking.Context.Tree
import EventTracking.Queue.Drain

set_option autoImplicit false

namespace EventTracking

structure TransportStatus where
  name : String
  usable : Bool

inductive TransportDetail where
  | none
  | calls (count : Nat)
  | group (members : List String) (firstUsable : Option String)
  | switch (routes : Nat)
  | queued (inner : String) (running : Bool)

structure QueueStatus where
  length : Except Error Nat
  idle : Bool
  running : Bool
  hasTransport : Bool
  ids : Except Error (List String)

structure QueueSettings where
  batchSize : Nat
  batchDelay : Duration
  storeName : String
  summary : String

inductive PluginDetail where
  | none
  | applicationId (id : Option String)
  | attached (yes : Bool)

structure TrackerStatus where
  applicationId : String
  trackerId : String
  active : Bool
  contexts : Contexts
  plugins : List String
  transport : Option String
  hasQueue : Bool

structure RepositoryStatus where
  ids : List String
  defaultId : Option String

structure NodeStatus where
  context : Context
  id : String
  parent : Option String

inductive Answer where
  | done
  | nothing
  | flag (b : Bool)
  | count (n : Nat)
  | text (s : String)
  | texts (l : List String)
  | json (v : Json)
  | failed (e : Error)
  | unknown (name : String)
  -- Nothing is left that could end the wait.
  | stuck
  -- The loop of a queue broke down.
  | broken (fault : Ticker.Fault)
  | entries (l : List Entry)
  | transport (status : TransportStatus) (detail : TransportDetail)
  | storeName (name : String)
  | queueSettings (settings : QueueSettings)
  | queueStatus (status : QueueStatus)
  | drained (outcome : Drain.Outcome)
  | plugin (name : String) (usable : Bool) (detail : PluginDetail)
  | pipeline (names : List String)
  | changed (yes : Bool) (names : List String)
  | found (yes : Bool) (name : Option String)
  | tracker (status : TrackerStatus)
  | repository (status : RepositoryStatus)
  | comparison (equal sameInstance : Bool)
  | treeSize (n : Nat)
  | node (found : Option NodeStatus) (path : Option String) (stack : Option (List Context))
  | collisions (l : List (String × List String))
  deriving Inhabited

namespace Answer

def ofUnit : Except Error Unit → Answer
  | .ok () => done
  | .error e => failed e

def ofCount : Except Error Nat → Answer
  | .ok n => count n
  | .error e => failed e

end Answer

end EventTracking
