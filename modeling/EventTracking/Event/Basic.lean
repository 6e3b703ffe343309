import EventTracking.Context.Merge
import EventTracking.Context.Names

set_option autoImplicit false

namespace EventTracking

structure UntrackedEvent where
  type : String
  contexts : Contexts := {}
  properties : Fields Json := ∅
  deriving Inhabited

structure Event where
  type : String
  id : String
  time : Int
  contexts : Contexts
  properties : Fields Json
  deriving Inhabited

def Fields.isSet (properties : Fields Json) (key : String) : Bool :=
  ((properties.find? key).bind Json.bool?).getD false

namespace UntrackedEvent

def declaredKeys : List String := ["_type", "id", "time", "location_stack", "global_contexts"]

def withProperty (e : UntrackedEvent) (key : String) (value : Json) : UntrackedEvent :=
  if declaredKeys.contains key then e
  else { e with properties := e.properties.insert key value }

def new (type : String) : UntrackedEvent :=
  let e : UntrackedEvent := { type }
  if Names.isInteractiveType type then e.withProperty Names.interactiveMarker (.bool true) else e

def interactive (type : String) : UntrackedEvent :=
  (new type).withProperty Names.interactiveMarker (.bool true)

def nonInteractive (type : String) : UntrackedEvent :=
  let e := new type
  { e with properties := e.properties.erase Names.interactiveMarker }.withProperty
    Names.nonInteractiveMarker (.bool true)

def withLocation (e : UntrackedEvent) (c : Context) : UntrackedEvent :=
  { e with contexts := e.contexts.withLocation c }

def withGlobal (e : UntrackedEvent) (c : Context) : UntrackedEvent :=
  { e with contexts := e.contexts.withGlobal c }

def withContexts (e : UntrackedEvent) (c : Contexts) : UntrackedEvent :=
  { e with contexts := e.contexts ++ c }

def fromScopes (type : String) (own : Contexts) (scopes : List Contexts) : UntrackedEvent :=
  (new type).withContexts (.merge scopes own)

def isInteractive (e : UntrackedEvent) : Bool := e.properties.isSet Names.interactiveMarker

def recordWith (write : Context → Json) (e : UntrackedEvent) : List (String × Json) :=
  [("_type", .str e.type)] ++ e.contexts.recordWith write ++ e.properties.entries

def json (e : UntrackedEvent) : Json := .ofEntries (e.recordWith Context.json)

end UntrackedEvent

namespace Event

def stamp (e : UntrackedEvent) (id : String) (time : Int) : Event :=
  ⟨e.type, id, time, e.contexts, e.properties⟩

def isInteractive (e : Event) : Bool := e.properties.isSet Names.interactiveMarker

def same (a b : Event) : Bool :=
  a.type == b.type && a.id == b.id && a.time == b.time && a.contexts.same b.contexts &&
    a.properties.same b.properties

def recordWith (write : Context → Json) (e : Event) : List (String × Json) :=
  [("_type", .str e.type), ("id", .str e.id), ("time", .int e.time)] ++
    e.contexts.recordWith write ++ e.properties.entries

def json (e : Event) : Json := .ofEntries (e.recordWith Context.json)

end Event

end EventTracking
