import EventTracking.Context.Schema
import EventTracking.Event.Basic

set_option autoImplicit false

namespace EventTracking

open Json (Source ReadError)

structure EventDraft where
  type : Option String := none
  id : Option String := none
  time : Option Int := none
  locations : Option (List Context) := none
  globals : Option (List Context) := none
  others : List (String × Json) := []

namespace EventDraft

-- Takes up an entry; an id and a time are declared fields only where they are part of the event's
-- identity.
def entry (identified : Bool) (d : EventDraft) :
    Option String × Source → Except ReadError EventDraft
  | (none, _) => .error .malformed
  | (some key, s) => do
    if key = "_type" then
      once key d.type
      return { d with type := some (← s.string) }
    else if key = "location_stack" then
      once key d.locations
      return { d with locations := some (← s.list Context.read) }
    else if key = "global_contexts" then
      once key d.globals
      return { d with globals := some (← s.list Context.read) }
    else if identified ∧ key = "id" then
      once key d.id
      return { d with id := some (← s.string) }
    else if identified ∧ key = "time" then
      once key d.time
      return { d with time := some (← s.integer) }
    else
      return { d with others := (key, ← s.json) :: d.others }

def contexts (d : EventDraft) : Contexts := ⟨d.locations.getD [], d.globals.getD []⟩

def properties (d : EventDraft) : Fields Json := .ofList d.others.reverse

end EventDraft

namespace UntrackedEvent

def read : Source → Except ReadError UntrackedEvent
  | .object entries ending => do
    let d ← entries.foldlM (EventDraft.entry false) {}
    Source.checkEnding ending
    let type ← required "_type" d.type
    return ⟨type, d.contexts, d.properties⟩
  | s => .error (s.mismatch .untrackedEvent)

def ofJson? (v : Json) : Except ReadError UntrackedEvent := read (Source.ofJson v)

def ofText? (text : String) : Except ReadError UntrackedEvent := Json.readText read text

def text (e : UntrackedEvent) : String :=
  Json.objectText (e.recordWith fun c => .obj c.record)

end UntrackedEvent

namespace Event

def read : Source → Except ReadError Event
  | .object entries ending => do
    let d ← entries.foldlM (EventDraft.entry true) {}
    Source.checkEnding ending
    let type ← required "_type" d.type
    let id ← required "id" d.id
    let time ← required "time" d.time
    return ⟨type, id, time, d.contexts, d.properties⟩
  | s => .error (s.mismatch .event)

def ofJson? (v : Json) : Except ReadError Event := read (Source.ofJson v)

def ofText? (text : String) : Except ReadError Event := Json.readText read text

def text (e : Event) : String :=
  Json.objectText (e.recordWith fun c => .obj c.record)

def listOfText? (text : String) : Except ReadError (List Event) :=
  Json.readText (Source.list read) text

def listText (events : List Event) : String := Json.listText (events.map Event.text)

end Event

end EventTracking
