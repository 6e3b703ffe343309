import EventTracking.Console
import EventTracking.Event.Basic

set_option autoImplicit false

namespace EventTracking

structure Owner where
  applicationId : String
  trackerId : String
  console : ConsoleId

structure Hooks (m : Type → Type) where
  -- Plugins that are not usable are left out by every hook.
  isUsable : m Bool
  attach : Owner → m Unit
  -- Sees the composed event.
  validate : UntrackedEvent → m Unit
  enrich : Contexts → m Contexts
  -- Sees the finished event just before it is handed off.
  beforeTransport : Event → m Unit

class Named (α : Type) where
  name : α → String

structure Pipeline (α : Type) where
  plugins : List α := []
  deriving Inhabited

namespace Pipeline

variable {α : Type}

section Names

variable [Named α]

def names (p : Pipeline α) : List String := p.plugins.map Named.name

def has (p : Pipeline α) (name : String) : Bool := p.plugins.any fun a => Named.name a == name

def find? (p : Pipeline α) (name : String) : Option α :=
  p.plugins.find? fun a => Named.name a == name

def size (p : Pipeline α) : Nat := p.plugins.length

def add? (p : Pipeline α) (a : α) : Option (Pipeline α) :=
  if p.has (Named.name a) then none else some ⟨p.plugins ++ [a]⟩

def remove? (p : Pipeline α) (name : String) : Option (Pipeline α) :=
  if p.has name then some ⟨p.plugins.filter fun a => Named.name a != name⟩ else none

def takenMessage (name : String) : String :=
  "TrackerPlugins: a plugin named " ++ name ++ " is already registered."

def unknownMessage (name : String) : String :=
  "TrackerPlugins: cannot remove " ++ name ++ ", it is not registered."

def addAll (p : Pipeline α) : List α → Pipeline α × List String
  | [] => (p, [])
  | a :: rest =>
    match p.add? a with
    | some p => p.addAll rest
    | none =>
      let (p, taken) := p.addAll rest
      (p, Named.name a :: taken)

def ofList (plugins : List α) : Pipeline α × List String := addAll {} plugins

end Names

variable {m : Type → Type} [Monad m]

def onUsable (hooks : α → Hooks m) (act : Hooks m → m Unit) (p : Pipeline α) : m Unit :=
  p.plugins.forM fun a => do if ← (hooks a).isUsable then act (hooks a)

def attach (hooks : α → Hooks m) (p : Pipeline α) (owner : Owner) : m Unit :=
  p.onUsable hooks fun h => h.attach owner

def validate (hooks : α → Hooks m) (p : Pipeline α) (e : UntrackedEvent) : m Unit :=
  p.onUsable hooks fun h => h.validate e

def enrich (hooks : α → Hooks m) (p : Pipeline α) (contexts : Contexts) : m Contexts :=
  p.plugins.foldlM
    (fun c a => do if ← (hooks a).isUsable then (hooks a).enrich c else pure c) contexts

def beforeTransport (hooks : α → Hooks m) (p : Pipeline α) (e : Event) : m Unit :=
  p.onUsable hooks fun h => h.beforeTransport e

end Pipeline

end EventTracking
