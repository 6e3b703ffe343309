import EventTracking.Proofs.Session.Turns

set_option autoImplicit false

namespace EventTracking.Session

open Async Change

structure AllowsCommands (outside : Session → Session → Prop) : Prop
    extends AllowsTurns outside where
  newStore (x : Store) : Follows outside (addStore x)
  rigs (id : StoreId) (kind : Store.Kind) (s : Session) :
    outside s (setStore id { s.store id with kind } s).2
  newQueue {x : Queue} (idle : x.loop = none) (s : Session) :
    outside s { s with queues := s.queues.push x }
  connects (id : QueueId) (t : Transport) (s : Session) :
    outside s (setQueue id ((s.queue id).setTransport t) s).2
  runs (id : QueueId) (t : Transport) : Follows outside (startLoop id fun q task => q.run t task)
  ensures (id : QueueId) : Follows outside (ensureRunning id)
  newHandoff (t : Transport) : Follows outside (addHandoff t)
  sends (id : HandoffId) (e : Event) : Follows outside (send id e)
  stamps (e : UntrackedEvent) : Follows outside (stamp e)
  spawns (e : Errand) : Follows outside (spawn? (.errand e))

variable {outside : Session → Session → Prop}

def Step.Follows {α : Type} (outside : Session → Session → Prop) (x : Step α) : Prop :=
  Change.Follows outside x.run

namespace Step.Follows

variable {α β : Type}

theorem pure (a : α) : Step.Follows outside (Pure.pure a) := Change.Follows.pure _

theorem throw (name : String) : Step.Follows outside (MonadExcept.throw name : Step α) :=
  Change.Follows.pure _

theorem lift {c : Change α} (follows : c.Follows outside) :
    Step.Follows outside (liftM c : Step α) := follows.bind fun _ => .pure _

theorem get : Step.Follows outside (MonadState.get : Step Session) := lift .get

theorem bind {x : Step α} {k : α → Step β} (first : Step.Follows outside x)
    (rest : ∀ a, Step.Follows outside (k a)) : Step.Follows outside (x >>= k) := by
  refine Change.Follows.bind (k := ExceptT.bindCont k) first fun r => ?_
  cases r with
  | ok a => exact rest a
  | error name => exact .pure _

theorem get_bind {k : Session → Step α}
    (rest : ∀ s, Relation.ReflTransGen outside s ((k s).run s).2) :
    Step.Follows outside (MonadState.get >>= k) := fun s => rest s

theorem map {x : Step α} (f : α → β) (first : Step.Follows outside x) :
    Step.Follows outside (f <$> x) := first.bind fun a => pure (f a)

theorem forM {f : α → Step PUnit} (each : ∀ a, Step.Follows outside (f a)) (l : List α) :
    Step.Follows outside (l.forM f) := by
  induction l with
  | nil => exact pure _
  | cons a l ih => exact (each a).bind fun _ => ih

theorem mapM {f : α → Step β} (each : ∀ a, Step.Follows outside (f a)) (l : List α) :
    Step.Follows outside (l.mapM f) := by
  induction l with
  | nil => exact pure _
  | cons a l ih =>
    rw [List.mapM_cons]
    exact (each a).bind fun _ => ih.bind fun _ => pure _

theorem mapM? {f : α → Step β} (each : ∀ a, Step.Follows outside (f a)) (x : Option α) :
    Step.Follows outside (x.mapM f) := by
  cases x with
  | none => exact pure _
  | some a => exact map some (each a)

theorem answer {x : Step Answer} (follows : Step.Follows outside x) :
    Step.Follows outside (Step.answer x) := map _ follows

end Step.Follows

open Step.Follows in
theorem follows_known {α : Type} (table : Directory → Fields α) (name : String) :
    Step.Follows outside (known table name) := by
  refine get.bind fun s => ?_
  split
  · exact pure _
  · exact throw name

theorem follows_knownConsole (console : ConsoleName) :
    Step.Follows outside (knownConsole console) := by
  cases console with
  | none => exact .pure _
  | some name => exact .map some (follows_known _ name)

theorem follows_knownCancelOn (c : CancelOn String) : Step.Follows outside (knownCancelOn c) :=
  (follows_known _ _).bind fun _ => .pure _

theorem follows_configOf (spec : TrackerSpec) : Step.Follows outside (configOf spec) :=
  .bind (.mapM (follows_known _) _) fun _ => .bind (.mapM? (follows_known _) _) fun _ =>
    .bind (.mapM? (follows_known _) _) fun _ => (follows_knownConsole _).bind fun _ => .pure _

theorem follows_knownTracker (name : String) : Step.Follows outside (knownTracker name) := by
  refine (follows_known _ name).bind fun ref => Step.Follows.get.bind fun s => ?_
  split
  · exact .pure _
  · exact .throw name

theorem follows_knownRepository (name : String) : Step.Follows outside (knownRepository name) :=
  (follows_known _ name).bind fun _ => Step.Follows.get.bind fun _ => .pure _

theorem follows_knownPipeline (name : String) : Step.Follows outside (knownPipeline name) :=
  (follows_known _ name).bind fun _ => Step.Follows.get.bind fun _ => .pure _

theorem follows_knownTree (name : String) : Step.Follows outside (knownTree name) :=
  (follows_known _ name).bind fun _ => Step.Follows.get.bind fun _ => .pure _

theorem aside_nameTracker (ref : TrackerRef) (name : Option String) :
    Aside (nameTracker ref name) := by
  cases name <;> exact fun _ => rfl

theorem aside_trackerAnswer (ref : TrackerRef) : Aside (trackerAnswer ref) := by
  refine Fixes.get.bind fun s => ?_
  split <;> exact Fixes.pure _

theorem aside_answerWith (id : Nat) (r : ReportingRepository) (ref : Option TrackerRef)
    (name : Option String) : Aside (answerWith id r ref name) := by
  refine Fixes.bind (fun _ => rfl) fun _ => ?_
  cases ref with
  | none => exact Fixes.pure _
  | some ref => exact (aside_nameTracker ref name).bind fun _ => aside_trackerAnswer ref

namespace AllowsCommands

variable {α : Type} (allows : AllowsCommands outside)

include allows

theorem beside {c : Change α} (aside : Aside c) : Step.Follows outside (liftM c : Step α) :=
  .lift (allows.toAllowsTurns.follows aside)

protected theorem setNames (f : Directory → Directory) :
    Step.Follows outside (liftM (setNames f) : Step Unit) := allows.beside fun _ => rfl

protected theorem consoleOr (c : Option ConsoleId) :
    Step.Follows outside (liftM (consoleOr c) : Step ConsoleId) := allows.beside (aside_consoleOr c)

protected theorem report (console : ConsoleId) (e : Entry) :
    Step.Follows outside (liftM (report console e) : Step Unit) :=
  allows.beside (aside_report console e)

protected theorem wire (id : QueueId) (inner : Transport) :
    Change.Follows outside (wire id inner) := by
  have connects : Change.Follows outside (do
      setQueue id (((← get).queue id).setTransport inner)) := fun s =>
    .single (allows.connects id inner s)
  exact connects.bind fun _ => (allows.ensures id).bind fun _ => .pure _

protected theorem consoleStep (c : ConsoleCommand) : Step.Follows outside (consoleStep c) := by
  cases c with
  | new name kind =>
    exact (allows.beside fun _ => rfl).bind fun _ => (allows.setNames _).bind fun _ => .pure _
  | write console e =>
    exact (follows_knownConsole console).bind fun _ => (allows.consoleOr _).bind fun _ =>
      (allows.report _ e).bind fun _ => .pure _
  | read console | messages console | count console =>
    exact (follows_knownConsole console).bind fun _ => (allows.consoleOr _).bind fun _ =>
      Step.Follows.get.bind fun _ => .pure _
  | clear console =>
    exact (follows_knownConsole console).bind fun _ => (allows.consoleOr _).bind fun _ =>
      (allows.beside fun _ => rfl).bind fun _ => .pure _

protected theorem cancelErrand (c : CancelCommand) : Step.Follows outside (cancelErrand c) := by
  cases c with
  | new name =>
    exact .answer <| (allows.beside fun _ => rfl).bind fun _ => (allows.setNames _).bind fun _ =>
      .pure _
  | cancel name =>
    exact .answer <| (follows_known _ name).bind fun id =>
      (allows.beside (aside_cancel id)).bind fun _ => Step.Follows.get.bind fun _ => .pure _
  | reset name =>
    exact .answer <| (follows_known _ name).bind fun id => Step.Follows.get.bind fun _ =>
      (allows.beside fun _ => rfl).bind fun _ => Step.Follows.get.bind fun _ => .pure _
  | state name =>
    exact .answer <| (follows_known _ name).bind fun id => Step.Follows.get.bind fun _ => .pure _
  | wait name => exact (follows_known _ name).bind fun _ => .pure _

protected theorem openStore (kind : Store.Kind) : Change.Follows outside (openStore kind) := by
  cases kind with
  | file file =>
    refine Change.Follows.get.bind fun s => ?_
    split
    · exact (allows.newStore _).bind fun _ => .pure _
    · exact .pure _
  | _ => exact (allows.newStore _).bind fun _ => .pure _

protected theorem storeErrand (c : StoreCommand) : Step.Follows outside (storeErrand c) := by
  cases c with
  | new name kind =>
    refine .answer <| (Step.Follows.lift (allows.openStore kind)).bind fun r => ?_
    split
    · exact (allows.setNames _).bind fun _ => .pure _
    · exact .pure _
  | fail store methods =>
    refine .answer <| (follows_known _ store).bind fun id => Step.Follows.get_bind fun s => ?_
    dsimp only
    split
    · exact .single (allows.rigs id _ s)
    · exact .refl
  | read store | write store | delete store | clear store | length store =>
    exact (follows_known _ store).bind fun _ => .pure _

protected theorem diskStep (c : DiskCommand) : Step.Follows outside (diskStep c) := by
  cases c with
  | write file text | writeBytes file text =>
    refine Step.Follows.get_bind fun s => ?_
    split
    · exact .single (allows.aside rfl)
    · exact .refl
  | read file =>
    refine Step.Follows.get.bind fun s => ?_
    split <;> exact .pure _
  | makeDirectory file | remove file => exact (allows.beside fun _ => rfl).bind fun _ => .pure _

protected theorem makeTransport (name : String) (spec : TransportSpec) :
    Step.Follows outside (makeTransport name spec) := by
  cases spec with
  | scripted script =>
    exact .bind (.mapM? follows_knownCancelOn _) fun _ => (allows.beside fun _ => rfl).bind fun _ =>
      .pure _
  | group members => exact .bind (.mapM (follows_known _) members) fun _ => .pure _
  | debug console =>
    exact (follows_knownConsole console).bind fun _ => (allows.consoleOr _).bind fun _ =>
      (allows.beside fun _ => rfl).bind fun _ => .pure _
  | queued queue inner =>
    exact (follows_known _ inner).bind fun _ => (follows_known _ queue).bind fun _ =>
      .lift (allows.wire _ _)
  | collector endpoint => exact (allows.beside fun _ => rfl).bind fun _ => .pure _
  | switch console routes =>
    have routing (r : Matcher × String) : Step.Follows outside (do
        return (r.1, ← known Directory.transports r.2)) :=
      (follows_known _ r.2).bind fun _ => .pure _
    exact (follows_knownConsole console).bind fun _ => (allows.consoleOr _).bind fun _ =>
      .bind (.mapM routing routes) fun _ => .pure _
  | retry inner policy pauser cancellation =>
    refine (follows_known _ inner).bind fun inner => ?_
    have ends (cancellation : CancellationId) (pauser : Pauser) : Step.Follows outside (do
        setNames fun d => { d with cancellations := d.cancellations.insert name cancellation }
        let id ← modifyGet fun s => (s.pausers.size, { s with pausers := s.pausers.push pauser })
        return Transport.retry policy id cancellation inner) :=
      (allows.setNames _).bind fun _ => (allows.beside fun _ => rfl).bind fun _ => .pure _
    have recording (cancelOn : Option (CancelOn String)) : Step.Follows outside
        (Pauser.recording name 0 <$> cancelOn.mapM knownCancelOn) :=
      .map _ (.mapM? follows_knownCancelOn cancelOn)
    cases cancellation with
    | some c =>
      refine (follows_known _ c).bind fun c => ?_
      cases pauser with
      | clock | stalled => exact .bind (.pure _) (ends c)
      | recording cancelOn => exact (recording cancelOn).bind (ends c)
    | none =>
      refine (allows.beside fun _ => rfl).bind fun c => ?_
      cases pauser with
      | clock | stalled => exact .bind (.pure _) (ends c)
      | recording cancelOn => exact (recording cancelOn).bind (ends c)

protected theorem transportErrand (c : TransportCommand) :
    Step.Follows outside (transportErrand c) := by
  cases c with
  | new name spec =>
    exact .answer <| (allows.makeTransport name spec).bind fun t =>
      (allows.setNames _).bind fun _ => Step.Follows.get.bind fun _ => .pure _
  | set transport usable failures =>
    refine .answer <| (follows_known _ transport).bind fun t => ?_
    split
    · refine Step.Follows.get.bind fun s => ?_
      split
      · exact (allows.beside fun _ => rfl).bind fun _ => .pure _
      · exact .pure _
    · exact .pure _
  | handle transport batch => exact (follows_known _ transport).bind fun _ => .pure _
  | info transport =>
    exact .answer <| (follows_known _ transport).bind fun _ => Step.Follows.get.bind fun _ =>
      .pure _

protected theorem queueErrand (c : QueueCommand) : Step.Follows outside (queueErrand c) := by
  cases c with
  | new name batchSize batchDelay store =>
    have ends (x : Queue) (idle : x.loop = none) (store : StoreId) : Step.Follows outside (do
        let id ← modifyGet fun s => (s.queues.size, { s with queues := s.queues.push x })
        setNames fun d => { d with queues := d.queues.insert name id }
        let storeName := ((← get).store store).kind.name
        return Answer.queueSettings {
          batchSize := x.batchSize
          batchDelay := x.batchDelay
          storeName
          summary := x.summary storeName }) :=
      .bind (.lift fun s => .single (allows.newQueue idle s)) fun _ =>
        (allows.setNames _).bind fun _ => Step.Follows.get.bind fun _ => .pure _
    refine .answer ?_
    cases store with
    | some name => exact (follows_known _ name).bind fun store => ends _ rfl store
    | none => exact .bind (.lift (allows.newStore {})) fun store => ends _ rfl store
  | setTransport queue transport =>
    exact .answer <| (follows_known _ queue).bind fun q => (follows_known _ transport).bind fun t =>
      .get_bind fun s => .single (allows.connects q t s)
  | run queue transport =>
    exact .answer <| (follows_known _ queue).bind fun q => (follows_known _ transport).bind fun t =>
      .bind (.lift (allows.runs q t)) fun _ => .pure _
  | ensureRunning queue =>
    exact .answer <| (follows_known _ queue).bind fun q =>
      .bind (.lift (allows.ensures q)) fun _ => .pure _
  | drop queue =>
    exact .answer <| (follows_known _ queue).bind fun _ => (allows.setNames _).bind fun _ => .pure _
  | stop queue | push queue | drain queue | flush queue | wait queue | info queue =>
    exact (follows_known _ queue).bind fun _ => .pure _

protected theorem callHook {calls : HookCalls} (attach : ∀ owner, Aside (calls.attach owner))
    (validate : ∀ e, Aside (calls.validate e)) (enrich : ∀ contexts, Aside (calls.enrich contexts))
    (beforeTransport : ∀ e, Aside (calls.beforeTransport e)) (hook : HookCommand) :
    Step.Follows outside (callHook calls hook) := by
  cases hook with
  | attach tracker =>
    refine (follows_known _ tracker).bind fun ref => Step.Follows.get.bind fun s => ?_
    split
    · exact (allows.beside (attach _)).bind fun _ => .pure _
    · exact .pure _
  | validate e => exact (allows.beside (validate e)).bind fun _ => .pure _
  | enrich contexts => exact (allows.beside (enrich contexts)).bind fun _ => .pure _
  | beforeTransport e => exact (allows.beside (beforeTransport e)).bind fun _ => .pure _

protected theorem pluginStep (c : PluginCommand) : Step.Follows outside (pluginStep c) := by
  cases c with
  | new name spec =>
    have ends (p : Plugin) : Step.Follows outside (do
        let ref ← addPlugin p
        setNames fun d => { d with plugins := d.plugins.insert name ref }
        return (← get).pluginAnswer ref) :=
      (allows.beside fun _ => rfl).bind fun _ => (allows.setNames _).bind fun _ =>
        Step.Follows.get.bind fun _ => .pure _
    cases spec with
    | journal | path => exact .bind (.pure _) ends
    | application console | taxonomy console =>
      exact (follows_knownConsole console).bind fun _ => .bind (.pure _) ends
  | info plugin =>
    exact (follows_known _ plugin).bind fun _ => Step.Follows.get.bind fun _ => .pure _
  | setUsable plugin usable =>
    refine (follows_known _ plugin).bind fun ref => Step.Follows.get.bind fun s => ?_
    split
    · exact (allows.beside (aside_setPlugin _ _)).bind fun _ => .pure _
    · exact .pure _
  | call plugin hook =>
    exact (follows_known _ plugin).bind fun ref => allows.callHook (aside_attach ref)
      (aside_validate ref) (aside_enrich ref) (aside_beforeTransport ref) hook

protected theorem addPipeline (name : String) (p : ReportingPipeline) :
    Step.Follows outside (liftM (addPipeline name p) : Step Unit) := allows.beside fun _ => rfl

protected theorem pipelineStep (c : PipelineCommand) : Step.Follows outside (pipelineStep c) := by
  cases c with
  | new name plugins console =>
    refine .bind (.mapM (follows_known _) plugins) fun refs =>
      (follows_knownConsole console).bind fun _ => (allows.consoleOr _).bind fun console => ?_
    have reports := fun name => allows.report console (.error (Pipeline.takenMessage name))
    exact .bind (.forM reports _) fun _ => (allows.addPipeline name _).bind fun _ => .pure _
  | clone name source =>
    exact (follows_knownPipeline source).bind fun _ => (allows.addPipeline name _).bind fun _ =>
      .pure _
  | add pipeline plugin =>
    refine (follows_knownPipeline pipeline).bind fun _ => (follows_known _ plugin).bind fun _ => ?_
    split
    · exact (allows.beside fun _ => rfl).bind fun _ => .pure _
    · exact (allows.report _ _).bind fun _ => .pure _
  | remove pipeline pluginName =>
    refine (follows_knownPipeline pipeline).bind fun _ => ?_
    dsimp only
    split
    · exact (allows.beside fun _ => rfl).bind fun _ => .pure _
    · exact (allows.report _ _).bind fun _ => .pure _
  | find pipeline pluginName | info pipeline =>
    exact (follows_knownPipeline pipeline).bind fun _ => .pure _
  | call pipeline hook =>
    refine (follows_knownPipeline pipeline).bind fun p => allows.callHook
      (fun owner => fixes_onUsable _ fun ref => aside_attach ref owner)
      (fun e => fixes_onUsable _ fun ref => aside_validate ref e)
      (fun contexts => aside_enrich_all _ contexts)
      (fun e => fixes_onUsable _ fun ref => aside_beforeTransport ref e) hook

protected theorem trackerTransport (c : TrackerConfig PluginRef) (console : ConsoleId) :
    Change.Follows outside (trackerTransport c console) := by
  unfold trackerTransport
  split
  · exact (allows.wire _ _).bind fun _ => .pure _
  · exact .pure _
  · exact (allows.follows (aside_report _ _)).bind fun _ => .pure _
  · exact .pure _

protected theorem assemble (c : TrackerConfig PluginRef) (console : ConsoleId)
    (plugins : List PluginRef) : Change.Follows outside (assemble c console plugins) := by
  have reports : Aside ((Pipeline.ofList plugins).2.forM fun name =>
      report console (.error (Pipeline.takenMessage name))) := Fixes.forM fun _ => fun _ => rfl
  refine (allows.trackerTransport c console).bind fun transport => (allows.follows reports).bind
    fun _ => ?_
  have opens : Change.Follows outside (transport.mapM addHandoff) := by
    cases transport with
    | none => exact .pure _
    | some t => exact (allows.newHandoff t).bind fun _ => .pure _
  have attaches (p : Pipeline PluginRef) (owner : Owner) : Aside (p.attach hooks owner) :=
    fixes_onUsable p fun ref => aside_attach ref owner
  exact opens.bind fun _ => (allows.follows (attaches _ _)).bind fun _ =>
    allows.follows fun _ => rfl

protected theorem makeTracker (c : TrackerConfig PluginRef) :
    Change.Follows outside (makeTracker c) := by
  refine (allows.follows (aside_consoleOr c.console)).bind fun console => ?_
  split
  · exact allows.assemble c console _
  · exact (allows.follows fun _ => rfl).bind fun _ => allows.assemble c console _

protected theorem deriveTracker (t : SessionTracker) (scope : Contexts) :
    Change.Follows outside (deriveTracker t scope) := by
  have attaches : Aside ((t.derive scope).plugins.attach hooks (t.derive scope).owner) :=
    fixes_onUsable _ fun ref => aside_attach ref _
  exact (allows.follows attaches).bind fun _ => allows.follows fun _ => rfl

protected theorem finalize (t : SessionTracker) (e : UntrackedEvent) (extra : List Contexts) :
    Change.Follows outside (finalize t e extra) := by
  unfold Session.finalize Tracker.finalize
  split
  · exact allows.stamps _
  · have validates : Aside (t.plugins.validate hooks (t.compose e extra)) :=
      fixes_onUsable _ fun ref => aside_validate ref _
    have sees (e : Event) : Aside (t.plugins.beforeTransport hooks e) :=
      fixes_onUsable _ fun ref => aside_beforeTransport ref e
    exact (allows.follows validates).bind fun _ => (allows.follows (aside_enrich_all _ _)).bind
      fun _ => (allows.stamps _).bind fun e => (allows.follows (sees e)).bind fun _ => .pure _

protected theorem handOver (t : SessionTracker) (e : Event) :
    Change.Follows outside (handOver t e) := by
  unfold Session.handOver
  split
  · refine Change.Follows.get.bind fun s => ?_
    split
    · refine (allows.sends _ e).bind fun sent => ?_
      split
      · exact allows.follows (aside_report _ _)
      · exact .pure _
    · exact .pure _
  · exact .pure _

protected theorem trackerErrand (c : TrackerCommand) : Step.Follows outside (trackerErrand c) := by
  cases c with
  | new name spec =>
    exact .answer <| (follows_configOf spec).bind fun c => (Step.Follows.lift
      (allows.makeTracker c)).bind fun _ => (allows.beside (aside_nameTracker _ _)).bind fun _ =>
        allows.beside (aside_trackerAnswer _)
  | derive name source scope =>
    exact .answer <| (follows_knownTracker source).bind fun _ => (Step.Follows.lift
      (allows.deriveTracker _ scope)).bind fun _ => (allows.beside (aside_nameTracker _ _)).bind
        fun _ => allows.beside (aside_trackerAnswer _)
  | info tracker =>
    exact .answer <| (follows_known _ tracker).bind fun _ => allows.beside (aside_trackerAnswer _)
  | setActive tracker active =>
    exact .answer <| (follows_known _ tracker).bind fun _ => (allows.beside fun _ => rfl).bind
      fun _ => .pure _
  | agrees tracker spec =>
    exact .answer <| (follows_knownTracker tracker).bind fun _ => (follows_configOf spec).bind
      fun _ => .pure _
  | drop tracker =>
    exact .answer <| (follows_known _ tracker).bind fun _ => (allows.setNames _).bind fun _ =>
      .pure _
  | track tracker e extra =>
    have tracks (t : SessionTracker) : Change.Follows outside (Session.track t e extra) :=
      (allows.finalize t e extra).bind fun e => (allows.handOver t e).bind fun _ => .pure _
    exact .answer <| (follows_knownTracker tracker).bind fun _ => (Step.Follows.lift
      (tracks _)).bind fun _ => .pure _
  | finalize e => exact .answer <| (Step.Follows.lift (allows.stamps e)).bind fun _ => .pure _
  | deliver tracker | flush tracker | wait tracker =>
    exact (follows_known _ tracker).bind fun _ => .pure _

protected theorem register (r : ReportingRepository) (ref : TrackerRef) :
    Change.Follows outside (register r ref) := by
  unfold Session.register
  split
  · exact .pure _
  · exact (allows.follows (aside_report _ _)).bind fun _ => .pure _

protected theorem registerNew (r : ReportingRepository) (c : TrackerConfig PluginRef) :
    Change.Follows outside (registerNew r c) := by
  have makes : Change.Follows outside (r.repository.make? c.trackerId (makeTracker c)) := by
    unfold Repository.make?
    split
    · exact .pure _
    · exact (allows.makeTracker c).bind fun _ => .pure _
  refine makes.bind fun made => ?_
  split
  · exact .pure _
  · exact (allows.follows (aside_report _ _)).bind fun _ => .pure _

protected theorem getOrMake (r : ReportingRepository) (c : TrackerConfig PluginRef) :
    Change.Follows outside (getOrMake r c) := by
  have makes : Change.Follows outside (r.repository.getOrMake c.trackerId (makeTracker c)) := by
    unfold Repository.getOrMake
    split
    · exact .pure _
    · exact (allows.makeTracker c).bind fun _ => .pure _
  unfold Session.getOrMake
  split
  · refine Change.Follows.get.bind fun s => ?_
    split
    · exact (allows.follows (aside_report _ _)).bind fun _ => makes.bind fun _ => .pure _
    · exact makes.bind fun _ => .pure _
  · exact makes.bind fun _ => .pure _

protected theorem setDefault (r : ReportingRepository) (id : String) :
    Change.Follows outside (setDefault r id) := by
  unfold Session.setDefault
  split
  · exact .pure _
  · exact (allows.follows (aside_report _ _)).bind fun _ => .pure _

protected theorem unregister (r : ReportingRepository) (id : String) :
    Change.Follows outside (unregister r id) := by
  unfold Session.unregister
  split
  · exact .pure _
  · exact (allows.follows (aside_report _ _)).bind fun _ => .pure _

protected theorem setRepository (id : Nat) (r : ReportingRepository) :
    Step.Follows outside (liftM (setRepository id r) : Step Unit) := allows.beside fun _ => rfl

protected theorem answerWith (id : Nat) (r : ReportingRepository) (ref : Option TrackerRef)
    (name : Option String) :
    Step.Follows outside (liftM (answerWith id r ref name) : Step Answer) :=
  allows.beside (aside_answerWith id r ref name)

protected theorem repositoryErrand (c : RepositoryCommand) :
    Step.Follows outside (repositoryErrand c) := by
  cases c with
  | new name console =>
    exact .answer <| (follows_knownConsole console).bind fun _ => (allows.consoleOr _).bind fun _ =>
      (allows.beside fun _ => rfl).bind fun _ => (allows.setNames _).bind fun _ => .pure _
  | make repository spec name =>
    exact .answer <| (follows_knownRepository repository).bind fun _ =>
      (follows_configOf spec).bind fun c => (Step.Follows.lift (allows.registerNew _ c)).bind
        fun _ => allows.answerWith _ _ _ name
  | getOrMake repository spec name =>
    exact .answer <| (follows_knownRepository repository).bind fun _ =>
      (follows_configOf spec).bind fun c => (Step.Follows.lift (allows.getOrMake _ c)).bind
        fun _ => allows.answerWith _ _ _ name
  | setDefaultSpec repository spec name =>
    have sets (r : ReportingRepository) (c : TrackerConfig PluginRef) :
        Change.Follows outside (setDefaultConfig r c) :=
      (allows.getOrMake r c).bind fun _ => .pure _
    exact .answer <| (follows_knownRepository repository).bind fun _ =>
      (follows_configOf spec).bind fun c => (Step.Follows.lift (sets _ c)).bind
        fun _ => allows.answerWith _ _ _ name
  | add repository tracker name =>
    exact .answer <| (follows_knownRepository repository).bind fun _ =>
      (follows_known _ tracker).bind fun ref => (Step.Follows.lift (allows.register _ ref)).bind
        fun _ => allows.answerWith _ _ _ name
  | get repository id name =>
    refine .answer <| (follows_knownRepository repository).bind fun ⟨_, r⟩ => ?_
    dsimp only
    split
    · exact allows.answerWith _ _ _ name
    · exact .pure _
  | setDefault repository id =>
    exact .answer <| (follows_knownRepository repository).bind fun _ => (Step.Follows.lift
      (allows.setDefault _ id)).bind fun _ => (allows.setRepository _ _).bind fun _ => .pure _
  | delete repository id =>
    exact .answer <| (follows_knownRepository repository).bind fun _ => (Step.Follows.lift
      (allows.unregister _ id)).bind fun _ => (allows.setRepository _ _).bind fun _ => .pure _
  | info repository => exact .answer <| (follows_knownRepository repository).bind fun _ => .pure _
  | clear repository =>
    exact .answer <| (follows_knownRepository repository).bind fun _ =>
      (allows.setRepository _ _).bind fun _ => .pure _
  | setAllActive repository active =>
    have sets (ref : TrackerRef) :
        Step.Follows outside (liftM (setActive ref active) : Step Unit) :=
      allows.beside fun _ => rfl
    exact .answer <| (follows_knownRepository repository).bind fun _ =>
      (Step.Follows.forM sets _).bind fun _ => .pure _
  | flush repository | wait repository =>
    exact (follows_knownRepository repository).bind fun _ => .pure _

protected theorem setTree (id : Nat) (t : ReportingTree) :
    Step.Follows outside (liftM (setTree id t) : Step Unit) := allows.beside fun _ => rfl

protected theorem nameOccurrence (name : String) (x : Occurrence) :
    Step.Follows outside (liftM (nameOccurrence name x) : Step Unit) := by
  refine allows.beside (Fixes.bind (fun _ => rfl) fun _ s => ?_)
  change (if s.labels.any fun l => l.1 == x.id then s else _ : Session).setup = s.setup
  split <;> rfl

protected theorem treeStep (c : TreeCommand) : Step.Follows outside (treeStep c) := by
  cases c with
  | newContext name c =>
    exact (allows.beside fun _ => rfl).bind fun _ => (allows.nameOccurrence name _).bind fun _ =>
      .pure _
  | cloneContext name source =>
    exact (follows_known _ source).bind fun x => (allows.nameOccurrence name x).bind fun _ =>
      .pure _
  | compare a b => exact (follows_known _ a).bind fun _ => (follows_known _ b).bind fun _ => .pure _
  | new name console =>
    exact (follows_knownConsole console).bind fun _ => (allows.consoleOr _).bind fun _ =>
      (allows.beside fun _ => rfl).bind fun _ => (allows.setNames _).bind fun _ => .pure _
  | add tree context parent =>
    refine (follows_knownTree tree).bind fun _ => (follows_known _ context).bind fun _ =>
      .bind (.mapM? (follows_known _) parent) fun _ => ?_
    split
    · exact (allows.setTree _ _).bind fun _ => .pure _
    · exact Step.Follows.get.bind fun s => (allows.report _ _).bind fun _ => .pure _
  | remove tree context =>
    exact (follows_knownTree tree).bind fun _ => (follows_known _ context).bind fun _ =>
      (allows.setTree _ _).bind fun _ => .pure _
  | clear tree =>
    exact (follows_knownTree tree).bind fun _ => (allows.setTree _ _).bind fun _ => .pure _
  | get tree context =>
    exact (follows_knownTree tree).bind fun _ => (follows_known _ context).bind fun _ =>
      Step.Follows.get.bind fun _ => .pure _
  | validate tree =>
    exact (follows_knownTree tree).bind fun t => .bind (.forM (fun c => allows.report _ _) _)
      fun _ => Step.Follows.get.bind fun _ => .pure _

protected theorem prepare (c : Command) : Step.Follows outside (prepare c) := by
  induction c with
  | console c => exact .answer (allows.consoleStep c)
  | transport c => exact allows.transportErrand c
  | cancel c => exact allows.cancelErrand c
  | store c => exact allows.storeErrand c
  | disk c => exact .answer (allows.diskStep c)
  | queue c => exact allows.queueErrand c
  | plugin c => exact .answer (allows.pluginStep c)
  | pipeline c => exact .answer (allows.pipelineStep c)
  | tracker c => exact allows.trackerErrand c
  | repository c => exact allows.repositoryErrand c
  | tree c => exact .answer (allows.treeStep c)
  | sleep | yield | refused => exact .pure _
  | spawn name c ih =>
    cases c with
    | refused => exact .pure _
    | _ =>
      refine ih.bind fun e => .bind (.lift (allows.spawns e)) fun task => ?_
      split
      · exact (allows.beside fun _ => rfl).bind fun _ => (allows.setNames _).bind fun _ => .pure _
      · exact .pure _
  | isDone task =>
    exact .answer <| (follows_known _ task).bind fun _ => Step.Follows.get.bind fun _ => .pure _
  | join task => exact (follows_known _ task).bind fun _ => .pure _

end AllowsCommands

end EventTracking.Session
