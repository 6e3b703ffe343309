set_option autoImplicit false

namespace EventTracking

inductive Level where
  | log
  | warn
  | error
  -- Opens a group: entries up to the matching end belong to it.
  | group
  | groupEnd
  deriving Repr, DecidableEq

structure Entry where
  level : Level
  message : String
  deriving Repr, DecidableEq

namespace Entry

def log (message : String) : Entry := ⟨.log, message⟩

def warn (message : String) : Entry := ⟨.warn, message⟩

def error (message : String) : Entry := ⟨.error, message⟩

def group (label : String) : Entry := ⟨.group, label⟩

def groupEnd : Entry := ⟨.groupEnd, ""⟩

end Entry

inductive Severity where
  | info
  | warn
  | error
  deriving Repr, DecidableEq

inductive Report where
  | entry (console : String) (e : Entry)
  | line (severity : Severity) (text : String)
  deriving Repr, DecidableEq

inductive Console where
  | memory (name : String) (entries : List Entry)
  | silent
  -- Writes lines to the log, indented by the number of open groups.
  | tracing (depth : Nat)
  deriving Repr, Inhabited

namespace Console

def default : Console := tracing 0

private def indented (depth : Nat) (message : String) : String :=
  "".pushn ' ' (2 * depth) ++ message

def write : Console → Entry → Console × List Report
  | memory name entries, e =>
    let e := if e.level = .groupEnd then Entry.groupEnd else e
    (memory name (entries ++ [e]), [.entry name e])
  | silent, _ => (silent, [])
  | tracing depth, ⟨level, message⟩ =>
    let line (severity : Severity) : List Report := [.line severity (indented depth message)]
    match level with
    | .log => (tracing depth, line .info)
    | .warn => (tracing depth, line .warn)
    | .error => (tracing depth, line .error)
    | .group => (tracing (depth + 1), line .info)
    | .groupEnd => (tracing (depth - 1), [])

def entries : Console → List Entry
  | memory _ entries => entries
  | _ => []

def messages (c : Console) (level : Level) : List String :=
  (c.entries.filter fun e => e.level = level).map Entry.message

private def occursIn (needle : List Char) : List Char → Bool
  | [] => needle.isEmpty
  | c :: rest => needle.isPrefixOf (c :: rest) || occursIn needle rest

def countContaining (c : Console) (level : Level) (needle : String) : Nat :=
  (c.messages level).countP fun m => occursIn needle.toList m.toList

def clear : Console → Console
  | memory name _ => memory name []
  | c => c

end Console

abbrev ConsoleId := Nat

end EventTracking
