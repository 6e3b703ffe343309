import EventTracking.Json.Basic

set_option autoImplicit false

namespace EventTracking

def reservedStart : String := "__"

def isReserved (key : String) : Bool := reservedStart.toList.isPrefixOf key.toList

namespace Json

def isContext (v : Json) : Bool :=
  match v with
  | obj entries =>
    (Entries.find? "_type" entries).any isStr && (Entries.find? "id" entries).any isStr
  | _ => false

def publicEntries (entries : List (String × Json)) : List (String × Json) :=
  entries.filter fun e => !isReserved e.1

def isContextEqual (a b : Json) : Bool :=
  a.isContext && b.isContext &&
    match a, b with
    | obj a, obj b =>
      (publicEntries a).length == (publicEntries b).length &&
        (publicEntries a).all fun (key, value) => (Entries.find? key b).any value.same
    | _, _ => false

end Json

end EventTracking
