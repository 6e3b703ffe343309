import EventTracking.Json.Basic

set_option autoImplicit false

namespace EventTracking

structure Context where
  type : String
  id : String
  properties : Fields Json
  deriving Inhabited

namespace Context

def new (type id : String) : Context := ⟨type, id, ∅⟩

def declaredKeys : List String := ["_type", "id"]

def withProperty (c : Context) (key : String) (value : Json) : Context :=
  if declaredKeys.contains key then c
  else { c with properties := c.properties.insert key value }

def property? (c : Context) (key : String) : Option Json := c.properties.find? key

def is (c : Context) (type id : String) : Bool := c.type == type && c.id == id

def same (a b : Context) : Bool :=
  a.type == b.type && a.id == b.id && a.properties.same b.properties

instance : BEq Context := ⟨same⟩

def record (c : Context) : List (String × Json) :=
  [("_type", .str c.type), ("id", .str c.id)] ++ c.properties.entries

def json (c : Context) : Json := .ofEntries c.record

end Context

structure Contexts where
  locations : List Context := []
  globals : List Context := []
  deriving Inhabited

namespace Contexts

def isEmpty (c : Contexts) : Bool := c.locations.isEmpty && c.globals.isEmpty

def withLocation (c : Contexts) (x : Context) : Contexts :=
  { c with locations := c.locations ++ [x] }

def withGlobal (c : Contexts) (x : Context) : Contexts :=
  { c with globals := c.globals ++ [x] }

def append (c d : Contexts) : Contexts :=
  ⟨c.locations ++ d.locations, c.globals ++ d.globals⟩

instance : Append Contexts := ⟨append⟩

def same (c d : Contexts) : Bool := c.locations == d.locations && c.globals == d.globals

def recordWith (write : Context → Json) (c : Contexts) : List (String × Json) :=
  [("location_stack", .arr (c.locations.map write)),
    ("global_contexts", .arr (c.globals.map write))]

def json (c : Contexts) : Json := .ofEntries (c.recordWith Context.json)

end Contexts

end EventTracking
