import EventTracking.Plugin.Pipeline
import EventTracking.Taxonomy.Validation

set_option autoImplicit false

namespace EventTracking

-- Gives every event an `ApplicationContext` with the id of the application. The id is that of the
-- tracker that the plugin was attached to first. Reports go to the plugin's own console, or else to
-- that tracker's.
structure ApplicationPlugin where
  applicationId : Option String := none
  console : Option ConsoleId := none
  deriving Inhabited

namespace ApplicationPlugin

def name : String := "ApplicationContextPlugin"

-- What is set once stays as it is.
def attach (p : ApplicationPlugin) (owner : Owner) : ApplicationPlugin where
  applicationId := p.applicationId.or (some owner.applicationId)
  console := p.console.or (some owner.console)

def uninitializedMessage : String := name ++ ": enrich called before initialize, skipping."

def enrich? (p : ApplicationPlugin) (contexts : Contexts) : Option Contexts :=
  p.applicationId.map fun id => contexts.withGlobal (.application id)

end ApplicationPlugin

structure PathPlugin where
  provider : Option (Option String) := none
  deriving Inhabited

namespace PathPlugin

def name : String := "PathContextPlugin"

def isUsable (p : PathPlugin) : Bool := p.provider.isSome

def enrich (p : PathPlugin) (contexts : Contexts) : Contexts :=
  if contexts.globals.any fun c => c.type == Names.pathContext then contexts
  else match p.provider.join with
    | some path => contexts.withGlobal (.path path)
    | none => contexts

end PathPlugin

-- Reports the violations of the taxonomy by every event that is about to be delivered.
-- Reports go to the plugin's own console, or else to that of the tracker that initialized it first.
structure TaxonomyPlugin where
  console : Option ConsoleId := none
  initialized : Bool := false
  deriving Inhabited

namespace TaxonomyPlugin

def name : String := "OpenTaxonomyValidationPlugin"

def attach (p : TaxonomyPlugin) (owner : Owner) : TaxonomyPlugin where
  console := p.console.or (some owner.console)
  initialized := true

def uninitializedMessage : String :=
  name ++ ": validation requested before initialize, skipping."

def reports (p : TaxonomyPlugin) (e : Event) : List Entry :=
  if !p.initialized then [.error uninitializedMessage]
  else match Taxonomy.validate e with
    | [] => []
    | violations =>
      [.group (name ++ ": " ++ e.type ++ " failed validation")] ++
        violations.map (fun v => .error v.message) ++ [.groupEnd]

end TaxonomyPlugin

end EventTracking
