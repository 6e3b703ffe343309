import EventTracking.Event.Basic

set_option autoImplicit false

namespace EventTracking.Taxonomy

inductive Scope where
  | globals
  | locations
  deriving Repr, DecidableEq

def Scope.text : Scope → String
  | globals => "Global Contexts"
  | locations => "Location Stack"

inductive ViolationKind where
  | missing
  | duplicate
  | wrongPosition
  deriving Repr, DecidableEq

structure Violation where
  kind : ViolationKind
  contextType : String
  scope : Scope
  eventType : String
  deriving Repr, DecidableEq

def Violation.message (v : Violation) : String :=
  match v.kind with
  | .missing =>
    v.contextType ++ " is missing from " ++ v.scope.text ++ " of " ++ v.eventType ++ "."
  | .duplicate =>
    "Only one " ++ v.contextType ++ " should be present in " ++ v.scope.text ++ " of " ++
      v.eventType ++ "."
  | .wrongPosition =>
    v.contextType ++ " is in the wrong position: it should be the first element of the " ++
      v.scope.text ++ " of " ++ v.eventType ++ "."

def count (contextType : String) (contexts : List Context) : Nat :=
  contexts.countP fun c => c.type == contextType

def exactlyOne (contextType : String) (contexts : List Context) : Option ViolationKind :=
  match count contextType contexts with
  | 0 => some .missing
  | 1 => none
  | _ => some .duplicate

def rootFirst (locations : List Context) : Option ViolationKind :=
  match exactlyOne Names.rootLocationContext locations with
  | some kind => some kind
  | none =>
    if locations.head?.any fun c => c.type == Names.rootLocationContext then none
    else some .wrongPosition

def validate (e : Event) : List Violation :=
  let check (contextType : String) (scope : Scope) (kind : Option ViolationKind) :=
    (kind.map fun k => (⟨k, contextType, scope, e.type⟩ : Violation)).toList
  check Names.applicationContext .globals
      (exactlyOne Names.applicationContext e.contexts.globals) ++
    if e.isInteractive then
      check Names.rootLocationContext .locations (rootFirst e.contexts.locations) ++
        check Names.pathContext .globals (exactlyOne Names.pathContext e.contexts.globals)
    else []

end EventTracking.Taxonomy
