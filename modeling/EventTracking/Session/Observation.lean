import EventTracking.Console
import EventTracking.Duration

set_option autoImplicit false

namespace EventTracking

structure SeenContexts where
  locations : List String
  globals : List String

inductive HookCall where
  | attached (trackerId : String)
  | validated (eventType : String) (seen : SeenContexts)
  | enriched (seen : SeenContexts)
  | beforeTransport (eventType : String) (seen : SeenContexts)

inductive Observation where
  | report (r : Report)
  | call (transport : String) (ids : List String)
  | accept (transport : String)
  | reject (transport : String)
  | pause (transport : String) (d : Duration)
  | hook (plugin : String) (call : HookCall)

end EventTracking
