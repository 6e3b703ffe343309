import EventTracking.Context.Tree
import EventTracking.Json.ReadError
import EventTracking.Queue.Basic

set_option autoImplicit false

namespace EventTracking

inductive ConsoleKind where
  | memory
  | silent
  | tracing

abbrev ConsoleName := Option String

inductive ConsoleCommand where
  | new (name : String) (kind : ConsoleKind)
  | write (console : ConsoleName) (e : Entry)
  | read (console : ConsoleName)
  | messages (console : ConsoleName) (level : Level)
  | count (console : ConsoleName) (level : Level) (needle : String)
  | clear (console : ConsoleName)

structure CancelOn (κ : Type) where
  n : Nat
  cancellation : κ

structure Script (κ : Type) where
  usable : Bool := true
  -- So many calls are rejected.
  failures : Nat := 0
  -- Milliseconds that a call takes.
  delay : Nat := 0
  rejection : String → Error := .transport
  -- The call with which it becomes unusable.
  unusableAfter : Option Nat := none
  cancelOn : Option (CancelOn κ) := none

inductive PauserSpec where
  | clock
  -- Records the wait and goes on at once.
  | recording (cancelOn : Option (CancelOn String))
  | stalled

inductive TransportSpec where
  | scripted (script : Script String)
  | group (members : List String)
  | debug (console : ConsoleName)
  | queued (queue inner : String)
  | collector (endpoint : String)
  | switch (console : ConsoleName) (routes : List (Matcher × String))
  | retry (inner : String) (policy : Retry.Policy) (pauser : PauserSpec)
      (cancellation : Option String)

inductive TransportCommand where
  | new (name : String) (spec : TransportSpec)
  | set (transport : String) (usable : Option Bool) (failures : Option Nat)
  | handle (transport : String) (batch : List Event)
  | info (transport : String)

inductive CancelCommand where
  | new (name : String)
  | cancel (name : String)
  | reset (name : String)
  | state (name : String)
  | wait (name : String)

inductive StoreCommand where
  | new (name : String) (kind : Store.Kind)
  | fail (store : String) (methods : List Store.Method)
  | read (store : String) (count position : Nat)
  | write (store : String) (events : List Event)
  | delete (store : String) (ids : List String)
  | clear (store : String)
  | length (store : String)

inductive DiskCommand where
  | write (file text : String)
  | writeBytes (file : String) (bytes : ByteArray)
  | read (file : String)
  | makeDirectory (file : String)
  | remove (file : String)

inductive QueueCommand where
  | new (name : String) (batchSize : Option Nat) (batchDelay : Option Duration)
      (store : Option String)
  | setTransport (queue transport : String)
  | run (queue transport : String)
  | ensureRunning (queue : String)
  | stop (queue : String)
  | push (queue : String) (events : List Event)
  | drop (queue : String)
  | drain (queue : String)
  | flush (queue : String)
  | wait (queue : String) (timeout : Nat)
  | info (queue : String)

inductive PluginSpec where
  | journal (pluginName : String) (usable : Bool) (contexts : Contexts)
  | application (console : ConsoleName)
  | taxonomy (console : ConsoleName)
  | path (provider : Option (Option String))

inductive HookCommand where
  | attach (tracker : String)
  | validate (e : UntrackedEvent)
  | enrich (contexts : Contexts)
  | beforeTransport (e : Event)

inductive PluginCommand where
  | new (name : String) (spec : PluginSpec)
  | info (plugin : String)
  | setUsable (plugin : String) (usable : Bool)
  | call (plugin : String) (hook : HookCommand)

inductive PipelineCommand where
  | new (name : String) (plugins : List String) (console : ConsoleName)
  | clone (name source : String)
  | add (pipeline plugin : String)
  | remove (pipeline pluginName : String)
  | find (pipeline pluginName : String)
  | info (pipeline : String)
  | call (pipeline : String) (hook : HookCommand)

structure TrackerSpec where
  applicationId : String
  trackerId : Option String := none
  active : Bool := true
  contexts : Contexts := {}
  plugins : List String := []
  transport : Option String := none
  queue : Option String := none
  console : ConsoleName := none

inductive TrackerCommand where
  | new (name : String) (spec : TrackerSpec)
  | derive (name source : String) (scope : Contexts)
  | info (tracker : String)
  | setActive (tracker : String) (active : Bool)
  | agrees (tracker : String) (spec : TrackerSpec)
  | drop (tracker : String)
  | track (tracker : String) (e : UntrackedEvent) (extra : List Contexts)
  | deliver (tracker : String) (e : UntrackedEvent) (extra : List Contexts)
  | finalize (e : UntrackedEvent)
  | flush (tracker : String)
  | wait (tracker : String) (timeout : Nat)

inductive RepositoryCommand where
  | new (name : String) (console : ConsoleName)
  | make (repository : String) (spec : TrackerSpec) (name : Option String)
  | getOrMake (repository : String) (spec : TrackerSpec) (name : Option String)
  | setDefaultSpec (repository : String) (spec : TrackerSpec) (name : Option String)
  | add (repository tracker : String) (name : Option String)
  | get (repository : String) (id : Option String) (name : Option String)
  | setDefault (repository id : String)
  | delete (repository id : String)
  | info (repository : String)
  | clear (repository : String)
  | setAllActive (repository : String) (active : Bool)
  | flush (repository : String)
  | wait (repository : String) (timeout : Nat)

inductive TreeCommand where
  | newContext (name : String) (c : Context)
  | cloneContext (name source : String)
  | compare (a b : String)
  | new (name : String) (console : ConsoleName)
  | add (tree context : String) (parent : Option String)
  | remove (tree context : String)
  | clear (tree : String)
  | get (tree context : String)
  | validate (tree : String)

inductive Command where
  | console (c : ConsoleCommand)
  | transport (c : TransportCommand)
  | cancel (c : CancelCommand)
  | store (c : StoreCommand)
  | disk (c : DiskCommand)
  | queue (c : QueueCommand)
  | plugin (c : PluginCommand)
  | pipeline (c : PipelineCommand)
  | tracker (c : TrackerCommand)
  | repository (c : RepositoryCommand)
  | tree (c : TreeCommand)
  | sleep (ms : Nat)
  -- Lets the background go on as far as it can.
  | yield
  | spawn (name : String) (c : Command)
  | isDone (task : String)
  | join (task : String)
  -- A command whose parts could not be read.
  | refused (e : Json.ReadError)

end EventTracking
