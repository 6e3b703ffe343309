import EventTracking.Session.Perform.Lookup

set_option autoImplicit false

namespace EventTracking.Session

def knownTree (name : String) : Step (Nat × ReportingTree) := do
  let id ← known Directory.trees name
  return (id, (← get).trees.getD id default)

def setTree (id : Nat) (t : ReportingTree) : Change Unit :=
  modify fun s => { s with trees := s.trees.set! id t }

def labelOf (s : Session) (id : InstanceId) : String :=
  ((s.labels.find? fun l => l.1 == id).map (·.2)).getD ""

def nameOccurrence (name : String) (x : Occurrence) : Change Unit := do
  setNames fun d => { d with occurrences := d.occurrences.insert name x }
  modify fun s =>
    if s.labels.any fun l => l.1 == x.id then s
    else { s with labels := s.labels ++ [(x.id, name)] }

def treeStep : TreeCommand → Step Answer
  | .newContext name c => do
    let id ← modifyGet fun s => (s.instances, { s with instances := s.instances + 1 })
    nameOccurrence name ⟨id, c⟩
    return .done
  | .cloneContext name source => do
    nameOccurrence name (← known Directory.occurrences source)
    return .done
  | .compare a b => do
    let a ← known Directory.occurrences a
    let b ← known Directory.occurrences b
    return .comparison (a.context.same b.context) (a.id == b.id)
  | .new name console => do
    let console ← consoleOr (← knownConsole console)
    let id ← modifyGet fun s => (s.trees.size, { s with trees := s.trees.push ⟨{}, console⟩ })
    setNames fun d => { d with trees := d.trees.insert name id }
    return .done
  | .add tree context parent => do
    let (id, t) ← knownTree tree
    let x ← known Directory.occurrences context
    let parent ← parent.mapM (known Directory.occurrences)
    match t.tree.add x (parent.map Occurrence.id) with
    | .ok tree =>
      setTree id { t with tree }
      return .treeSize tree.size
    | .error stray =>
      let s ← get
      report t.console (.error (stray.message fun i => "<" ++ s.labelOf i ++ ">"))
      return .treeSize t.tree.size
  | .remove tree context => do
    let (id, t) ← knownTree tree
    let tree := t.tree.remove (← known Directory.occurrences context).id
    setTree id { t with tree }
    return .treeSize tree.size
  | .clear tree => do
    let (id, t) ← knownTree tree
    let tree := t.tree.clear
    setTree id { t with tree }
    return .treeSize tree.size
  | .get tree context => do
    let (_, t) ← knownTree tree
    let id := (← known Directory.occurrences context).id
    let s ← get
    let node := (t.tree.find? id).map fun n =>
      (⟨n.occurrence.context, s.labelOf n.id, n.parent.map s.labelOf⟩ : NodeStatus)
    return .node node (t.tree.path? id) ((t.tree.stack? id).map (·.map Occurrence.context))
  | .validate tree => do
    let (_, t) ← knownTree tree
    let collisions := t.tree.collisions
    collisions.forM fun c => report t.console (.error c.message)
    let s ← get
    return .collisions (collisions.map fun c => (c.path, c.instances.map s.labelOf))

end EventTracking.Session
