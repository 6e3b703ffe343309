import EventTracking.Context.Basic
import EventTracking.Json.Source

set_option autoImplicit false

namespace EventTracking

open Json (Source ReadError)

def required {α : Type} (name : String) : Option α → Except ReadError α
  | some a => .ok a
  | none => .error (.missingField name)

def once {α : Type} (name : String) : Option α → Except ReadError Unit
  | some _ => .error (.duplicateField name)
  | none => .ok ()

namespace Context

structure Draft where
  type : Option String := none
  id : Option String := none
  -- All other entries, the last one first.
  others : List (String × Json) := []

def Draft.entry (d : Draft) : Option String × Source → Except ReadError Draft
  | (none, _) => .error .malformed
  | (some key, s) => do
    if key = "_type" then
      once key d.type
      return { d with type := some (← s.string) }
    else if key = "id" then
      once key d.id
      return { d with id := some (← s.string) }
    else
      return { d with others := (key, ← s.json) :: d.others }

def Draft.finish (d : Draft) : Except ReadError Context := do
  let type ← required "_type" d.type
  let id ← required "id" d.id
  return ⟨type, id, .ofList d.others.reverse⟩

def read : Source → Except ReadError Context
  | .object entries ending => do
    let d ← entries.foldlM Draft.entry {}
    Source.checkEnding ending
    d.finish
  | s => .error (s.mismatch .context)

def ofJson? (v : Json) : Except ReadError Context := read (Source.ofJson v)

def ofText? (text : String) : Except ReadError Context := Json.readText read text

def text (c : Context) : String := Json.objectText c.record

end Context

namespace Contexts

structure Draft where
  locations : Option (List Context) := none
  globals : Option (List Context) := none

def Draft.entry (d : Draft) : Option String × Source → Except ReadError Draft
  | (none, _) => .error .malformed
  | (some key, s) => do
    if key = "location_stack" then
      once key d.locations
      return { d with locations := some (← s.list Context.read) }
    else if key = "global_contexts" then
      once key d.globals
      return { d with globals := some (← s.list Context.read) }
    else
      s.skip
      return d

def Draft.finish (d : Draft) : Contexts := ⟨d.locations.getD [], d.globals.getD []⟩

-- The two lists by name, or in their order; `excess` is the error of an array of the given length
-- that has more elements.
def readWith (excess : Nat → ReadError) : Source → Except ReadError Contexts
  | .object entries ending => do
    let d ← entries.foldlM Draft.entry {}
    Source.checkEnding ending
    return d.finish
  | .array [] ending => do
    Source.checkEnding ending
    return {}
  | .array [a] ending => do
    let locations ← a.list Context.read
    Source.checkEnding ending
    return { locations }
  | .array [a, b] ending => do
    let locations ← a.list Context.read
    let globals ← b.list Context.read
    Source.checkEnding ending
    return { locations, globals }
  | .array (a :: b :: rest) _ => do
    let _ ← a.list Context.read
    let _ ← b.list Context.read
    throw (excess (2 + rest.length))
  | s => .error (s.mismatch .contexts)

def ofJson? (v : Json) : Except ReadError Contexts := readWith .excess (Source.ofJson v)

-- In a text a third element is no more than a character out of place.
def ofText? (text : String) : Except ReadError Contexts :=
  Json.readText (readWith fun _ => .malformed) text

end Contexts

end EventTracking
