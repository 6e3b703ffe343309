import EventTracking.Json.Text
import EventTracking.Text.Literal

set_option autoImplicit false

namespace EventTracking.Json

inductive Found where
  | null
  | bool (b : Bool)
  | int (n : Int)
  | float (x : Binary64)
  | str (s : String)
  | sequence
  | map
  deriving Repr, DecidableEq

inductive Expected where
  | string
  | integer
  | sequence
  | context
  | contexts
  | untrackedEvent
  | event
  deriving Repr, DecidableEq

inductive ReadError where
  | ended
  | malformed
  | missingField (name : String)
  | duplicateField (name : String)
  | invalidType (found : Found) (expected : Expected)
  | invalidValue (found : Found) (expected : Expected)
  | excess (length : Nat)
  deriving Repr, DecidableEq

def Found.text : Found → String
  | null => "null"
  | bool b => "boolean `" ++ (if b then "true" else "false") ++ "`"
  | int n => "integer `" ++ toString n ++ "`"
  | float x => "floating point `" ++ x.text ++ "`"
  | str s => "string " ++ Text.literal s
  | sequence => "sequence"
  | map => "map"

def Expected.text : Expected → String
  | string => "a string"
  | integer => "i64"
  | sequence => "a sequence"
  | context => "struct AbstractContext"
  | contexts => "struct ContextsConfig"
  | untrackedEvent => "struct UntrackedEvent"
  | event => "struct TrackerEvent"

namespace ReadError

def message : ReadError → String
  | ended => "<eof>"
  | malformed => "<syntax>"
  | missingField name => "missing field `" ++ name ++ "`"
  | duplicateField name => "duplicate field `" ++ name ++ "`"
  | invalidType found expected =>
    "invalid type: " ++ found.text ++ ", expected " ++ expected.text
  | invalidValue found expected =>
    "invalid value: " ++ found.text ++ ", expected " ++ expected.text
  | excess length =>
    "invalid length " ++ toString length ++ ", expected fewer elements in array"

end ReadError

end EventTracking.Json
