import EventTracking.Json.ReadError

set_option autoImplicit false

namespace EventTracking

inductive FileFault where
  | notFound
  | isADirectory
  | notADirectory
  | nameTooLong
  | invalidName
  | invalidData
  deriving Repr, DecidableEq

def FileFault.message : FileFault → String
  | notFound => "No such file or directory (os error 2)"
  | isADirectory => "Is a directory (os error 21)"
  | notADirectory => "Not a directory (os error 20)"
  | nameTooLong => "File name too long (os error 36)"
  | invalidName => "file name contained an unexpected NUL byte"
  | invalidData => "stream did not contain valid UTF-8"

inductive Error where
  | transport (text : String)
  | unusable (text : String)
  -- No answer from a collector.
  | http
  | json (e : Json.ReadError)
  | file (fault : FileFault)
  | exhausted (attempts : Nat) (last : Error)
  | trackerNotFound (text : String)
  | queue (text : String)
  | cancelled (text : String)
  | durationOverflow
  deriving Repr, DecidableEq, Inhabited

namespace Error

def message : Error → String
  | transport text => "Transport error: " ++ text
  | unusable text => "Transport not usable: " ++ text
  | http => "HTTP error: error sending request"
  | json e => "Serialization error: " ++ e.message
  | file fault => "IO error: " ++ fault.message
  | exhausted attempts last =>
    "Retries exhausted after " ++ toString attempts ++ " attempts: " ++ last.message
  | trackerNotFound text => "Tracker not found: " ++ text
  | queue text => "Queue error: " ++ text
  | cancelled text => "Operation cancelled: " ++ text
  | durationOverflow => "overflow when adding durations"

end Error

end EventTracking
