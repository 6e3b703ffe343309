import EventTracking.Event.Schema
import EventTracking.Error
import EventTracking.Signal
import EventTracking.Text.Blank

set_option autoImplicit false

namespace EventTracking

abbrev StoreId := Nat

namespace Store

def window (count position : Nat) (events : List Event) : List Event :=
  (events.drop position).take count

def without (ids : List String) (events : List Event) : List Event :=
  events.filter fun e => !ids.contains e.id

theorem without_append {batch rest : List Event}
    (distinct : ((batch ++ rest).map Event.id).Nodup) :
    without (batch.map Event.id) (batch ++ rest) = rest := by
  rw [List.map_append, List.nodup_append] at distinct
  have others (e : Event) (he : e ∈ rest) : e.id ∉ batch.map Event.id :=
    fun inFront => distinct.2.2 _ inFront _ (List.mem_map_of_mem he) rfl
  rw [without, List.filter_append, List.filter_eq_nil_iff.2, List.filter_eq_self.2, List.nil_append]
  · intro e he
    simpa using others e he
  · intro e he
    simpa using ⟨e, he, rfl⟩

inductive Edit where
  | append (events : List Event)
  | remove (ids : List String)
  | clear

def Edit.apply : Edit → List Event → List Event
  | append new, events => events ++ new
  | remove ids, events => without ids events
  | clear, _ => []

inductive Method where
  | read
  | write
  | delete
  | length
  | clear
  deriving Repr, DecidableEq

def Edit.method : Edit → Method
  | append _ => .write
  | remove _ => .delete
  | clear => .clear

def Method.name : Method → String
  | read => "read"
  | write => "write"
  | delete => "delete"
  | length => "length"
  | clear => "clear"

inductive Kind where
  | memory
  -- In memory, with methods that fail and do nothing.
  | flaky (failing : List Method)
  -- In memory and in a file.
  | file (name : String)
  deriving Repr

def Kind.name : Kind → String
  | memory => "MemoryQueueStore"
  | flaky _ => "FlakyStore"
  | file _ => "FileQueueStore"

def corruptMessage (path : String) (e : Json.ReadError) : String :=
  "Corrupt queue file " ++ Text.literal path ++ ": " ++ e.message

def load (path : String) : Except FileFault String → Except Error (List Event)
  | .error .notFound => .ok []
  | .error fault => .error (.file fault)
  | .ok text =>
    if Text.isBlank text then .ok []
    else match Event.listOfText? text with
      | .ok events => .ok events
      | .error e => .error (.queue (corruptMessage path e))

def fileText (events : List Event) : String := Event.listText events

end Store

structure Store where
  kind : Store.Kind := .memory
  events : List Event := []
  -- Held while the events are changed and the file is written.
  lock : Lock := {}
  deriving Inhabited

namespace Store

def refusal? (s : Store) (method : Method) : Option Error :=
  match s.kind with
  | .flaky failing =>
    if failing.contains method then some (.queue (method.name ++ " failed")) else none
  | _ => none

def edit (s : Store) (e : Edit) : Store := { s with events := e.apply s.events }

def file? (s : Store) : Option (String × String) :=
  match s.kind with
  | .file name => some (name, fileText s.events)
  | _ => none

end Store

end EventTracking
