import EventTracking.Context.Basic

set_option autoImplicit false

namespace EventTracking

def Contexts.merge (scopes : List Contexts) (own : Contexts) : Contexts where
  locations := scopes.flatMap Contexts.locations ++ own.locations
  globals := own.globals ++ scopes.flatMap Contexts.globals

@[simp] theorem Contexts.merge_nil (own : Contexts) : Contexts.merge [] own = own := by
  simp [merge]

end EventTracking
