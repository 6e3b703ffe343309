import EventTracking.Session.Perform.Lookup
import EventTracking.Session.Tracking

set_option autoImplicit false

namespace EventTracking.Session

structure HookCalls where
  attach : Owner → Change Unit
  validate : UntrackedEvent → Change Unit
  enrich : Contexts → Change Contexts
  beforeTransport : Event → Change Unit

def callHook (calls : HookCalls) : HookCommand → Step Answer
  | .attach tracker => do
    let ref ← known Directory.trackers tracker
    if let some t := (← get).tracker? ref then
      calls.attach t.owner
    return .done
  | .validate e => do
    calls.validate e
    return .done
  | .enrich contexts => return .json (← calls.enrich contexts).json
  | .beforeTransport e => do
    calls.beforeTransport e
    return .done

def pluginAnswer (s : Session) (ref : PluginRef) : Answer :=
  let p := s.plugin ref.id
  .plugin p.name p.isUsable p.detail

def pluginStep : PluginCommand → Step Answer
  | .new name spec => do
    let p : Plugin ← match spec with
      | .journal pluginName usable contexts => pure (.journal pluginName usable contexts)
      | .application console => do
        pure (.application { console := ← knownConsole console })
      | .taxonomy console => do
        pure (.taxonomy { console := ← knownConsole console })
      | .path provider => pure (.path { provider })
    let ref ← addPlugin p
    setNames fun d => { d with plugins := d.plugins.insert name ref }
    return (← get).pluginAnswer ref
  | .info plugin => do
    let ref ← known Directory.plugins plugin
    return (← get).pluginAnswer ref
  | .setUsable plugin usable => do
    let ref ← known Directory.plugins plugin
    if let .journal name _ contexts := (← get).plugin ref.id then
      setPlugin ref.id (.journal name usable contexts)
    return .done
  | .call plugin hook => do
    let h := hooks (← known Directory.plugins plugin)
    callHook ⟨h.attach, h.validate, h.enrich, h.beforeTransport⟩ hook

def addPipeline (name : String) (p : ReportingPipeline) : Change Unit := do
  let id ← modifyGet fun s => (s.pipelines.size, { s with pipelines := s.pipelines.push p })
  setNames fun d => { d with pipelines := d.pipelines.insert name id }

def knownPipeline (name : String) : Step (Nat × ReportingPipeline) := do
  let id ← known Directory.pipelines name
  return (id, (← get).pipelines.getD id default)

def setPipeline (id : Nat) (p : ReportingPipeline) : Change Unit :=
  modify fun s => { s with pipelines := s.pipelines.set! id p }

def pipelineStep : PipelineCommand → Step Answer
  | .new name plugins console => do
    let refs ← plugins.mapM (known Directory.plugins)
    let console ← consoleOr (← knownConsole console)
    let (pipeline, taken) := Pipeline.ofList refs
    taken.forM fun name => report console (.error (Pipeline.takenMessage name))
    addPipeline name { pipeline, console }
    return .texts pipeline.names
  | .clone name source => do
    let (_, p) ← knownPipeline source
    addPipeline name p
    return .done
  | .add pipeline plugin => do
    let (id, p) ← knownPipeline pipeline
    let ref ← known Directory.plugins plugin
    match p.pipeline.add? ref with
    | some pipeline =>
      setPipeline id { p with pipeline }
      return .changed true pipeline.names
    | none =>
      report p.console (.error (Pipeline.takenMessage ref.name))
      return .changed false p.pipeline.names
  | .remove pipeline pluginName => do
    let (id, p) ← knownPipeline pipeline
    match p.pipeline.remove? pluginName with
    | some pipeline =>
      setPipeline id { p with pipeline }
      return .changed true pipeline.names
    | none =>
      report p.console (.error (Pipeline.unknownMessage pluginName))
      return .changed false p.pipeline.names
  | .find pipeline pluginName => do
    let (_, p) ← knownPipeline pipeline
    return .found (p.pipeline.has pluginName) ((p.pipeline.find? pluginName).map PluginRef.name)
  | .info pipeline => do
    let (_, p) ← knownPipeline pipeline
    return .pipeline p.pipeline.names
  | .call pipeline hook => do
    let (_, p) ← knownPipeline pipeline
    let p := p.pipeline
    callHook ⟨p.attach hooks, p.validate hooks, p.enrich hooks, p.beforeTransport hooks⟩ hook

end EventTracking.Session
