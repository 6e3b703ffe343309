import EventTracking.Context.Basic
import EventTracking.Table

set_option autoImplicit false

namespace EventTracking

-- Tells occurrences of equal contexts apart.
abbrev InstanceId := Nat

structure Occurrence where
  id : InstanceId
  context : Context
  deriving Inhabited

structure LocationNode where
  occurrence : Occurrence
  parent : Option InstanceId
  deriving Inhabited

def LocationNode.id (n : LocationNode) : InstanceId := n.occurrence.id

structure LocationTree where
  nodes : Table InstanceId LocationNode := ∅
  -- The occurrences in the order in which they were registered.
  order : List InstanceId := []
  deriving Inhabited

namespace LocationTree

def find? (t : LocationTree) (id : InstanceId) : Option LocationNode := t.nodes.find? id

def contains (t : LocationTree) (id : InstanceId) : Bool := t.nodes.contains id

def size (t : LocationTree) : Nat := t.nodes.size

def parent? (t : LocationTree) (id : InstanceId) : Option InstanceId :=
  (t.find? id).bind LocationNode.parent

structure Stray where
  context : Context
  parent : InstanceId

def Stray.message (label : InstanceId → String) (s : Stray) : String :=
  "LocationTree: cannot add " ++ s.context.type ++ ":" ++ s.context.id ++ ", parent occurrence " ++
    label s.parent ++ " is not in the tree."

def register (t : LocationTree) (n : LocationNode) : LocationTree :=
  ⟨t.nodes.insert n.id n, t.order ++ [n.id]⟩

-- Registers an occurrence. One that is registered already is left alone; one whose parent is not
-- in the tree is refused.
def add (t : LocationTree) (x : Occurrence) (parent : Option InstanceId) :
    Except Stray LocationTree :=
  if t.contains x.id then .ok t
  else match parent with
    | none => .ok (t.register ⟨x, none⟩)
    | some p => if t.contains p then .ok (t.register ⟨x, some p⟩) else .error ⟨x.context, p⟩

def collect (t : LocationTree) (found : List InstanceId) (id : InstanceId) : List InstanceId :=
  if (t.parent? id).any found.contains then id :: found else found

def doomed (t : LocationTree) (id : InstanceId) : List InstanceId := t.order.foldl t.collect [id]

def without (t : LocationTree) (gone : List InstanceId) : LocationTree :=
  ⟨t.nodes.filter fun i => !gone.contains i, t.order.filter fun i => !gone.contains i⟩

def remove (t : LocationTree) (id : InstanceId) : LocationTree := t.without (t.doomed id)

def clear (_ : LocationTree) : LocationTree := {}

-- The occurrences from `id` up to the top, in front of `below`. There can be no more of them than
-- the tree has nodes.
def climb (t : LocationTree) (id : InstanceId) (below : List Occurrence) :
    Option (List Occurrence) :=
  match t.find? id with
  | none => none
  | some n =>
    if t.size < below.length + 1 then none
    else match n.parent with
      | none => some (n.occurrence :: below)
      | some p => t.climb p (n.occurrence :: below)
termination_by t.size - below.length
decreasing_by simp only [List.length_cons]; omega

def stack? (t : LocationTree) (id : InstanceId) : Option (List Occurrence) :=
  t.climb id []

def label (c : Context) : String := c.type ++ ":" ++ c.id

def path? (t : LocationTree) (id : InstanceId) : Option String :=
  (t.stack? id).map fun stack => " / ".intercalate (stack.map fun x => label x.context)

structure Collision where
  path : String
  instances : List InstanceId
  deriving Repr, DecidableEq

def Collision.message (c : Collision) : String :=
  "Location collision detected: " ++ toString c.instances.length ++
    " occurrences share the path `" ++ c.path ++ "`."

def classify (classes : List Collision) (path : String) (id : InstanceId) : List Collision :=
  if classes.any fun c => c.path == path then
    classes.map fun c => if c.path == path then { c with instances := c.instances ++ [id] } else c
  else classes ++ [⟨path, [id]⟩]

def byPath (t : LocationTree) : List Collision :=
  t.order.foldl (fun classes id => match t.path? id with
    | some path => classify classes path id
    | none => classes) []

def collisions (t : LocationTree) : List Collision :=
  t.byPath.filter fun c => 1 < c.instances.length

end LocationTree

end EventTracking
