import EventTracking.Context.Equality
import EventTracking.Event.Basic

set_option autoImplicit false

namespace EventTracking

namespace Json

mutual

def strip : Json → Json
  | arr items => .arr (stripItems items)
  | obj entries => .obj (stripEntries entries)
  | v => v

def stripItems : List Json → List Json
  | [] => []
  | v :: rest => strip v :: stripItems rest

def stripEntries : List (String × Json) → List (String × Json)
  | [] => []
  | (k, v) :: rest =>
    if isReserved k then stripEntries rest else (k, strip v) :: stripEntries rest

end

end Json

def Event.wire (e : Event) : Json := e.json.strip

end EventTracking
