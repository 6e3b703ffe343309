import EventTracking.Entries
import EventTracking.Error

set_option autoImplicit false

namespace EventTracking

class Identified (α : Type) where
  id : α → String

structure Repository (τ : Type) where
  trackers : Fields τ := ∅
  defaultId : Option String := none
  deriving Inhabited

namespace Repository

variable {τ : Type}

def takenMessage (id : String) : String :=
  "TrackerRepository: a Tracker with id " ++ id ++ " already exists."

def differentMessage (id : String) : String :=
  "TrackerRepository: Tracker " ++ id ++ " already exists with a different configuration."

def noDefaultMessage (id : String) : String :=
  "TrackerRepository: cannot set " ++ id ++ " as default, no such Tracker."

def undeletableMessage (id : String) : String :=
  "TrackerRepository: cannot delete " ++ id ++ ", no such Tracker."

def noDefault : Error := .trackerNotFound "no default tracker is set"

def has (r : Repository τ) (id : String) : Bool := r.trackers.contains id

def ids (r : Repository τ) : List String := r.trackers.entries.map (·.1)

def all (r : Repository τ) : List τ := r.trackers.entries.map (·.2)

def size (r : Repository τ) : Nat := r.trackers.entries.length

def register? [Identified τ] (r : Repository τ) (t : τ) : Option (Repository τ) :=
  let id := Identified.id t
  if r.has id then none
  else some ⟨r.trackers.insert id t, r.defaultId.or (some id)⟩

def make? {m : Type → Type} [Monad m] [Identified τ] (r : Repository τ) (id : String)
    (new : m τ) : m (Option (Repository τ × τ)) := do
  if r.has id then return none
  let t ← new
  return (r.register? t).map (·, t)

def getOrMake {m : Type → Type} [Monad m] [Identified τ] (r : Repository τ) (id : String)
    (new : m τ) : m (Repository τ × τ) := do
  match r.trackers.find? id with
  | some t => return (r, t)
  | none =>
    let t ← new
    return ((r.register? t).getD r, t)

def get (r : Repository τ) (id : Option String) : Except Error τ :=
  match id.or r.defaultId with
  | none => .error noDefault
  | some id =>
    match r.trackers.find? id with
    | some t => .ok t
    | none => .error (.trackerNotFound id)

def setDefault? (r : Repository τ) (id : String) : Option (Repository τ) :=
  if r.has id then some { r with defaultId := some id } else none

-- Makes an id the default without looking whether it is registered.
def assignDefault (r : Repository τ) (id : String) : Repository τ := { r with defaultId := some id }

def delete? (r : Repository τ) (id : String) : Option (Repository τ) :=
  if r.has id then
    some ⟨r.trackers.erase id, if r.defaultId = some id then none else r.defaultId⟩
  else none

def clear (_ : Repository τ) : Repository τ := {}

end Repository

end EventTracking
