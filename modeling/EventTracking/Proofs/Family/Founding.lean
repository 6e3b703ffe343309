import EventTracking.Proofs.Family.Flow

set_option autoImplicit false

namespace EventTracking

structure Queue.Outfitted (inner : Transport) (q q' : Queue) : Prop where
  settings_eq : q'.settings = (q.store, q.batchSize, some inner)
  processing_eq : q'.processing = q.processing

namespace Queue.Outfitted

variable {inner : Transport} {q q' : Queue} (outfitted : Outfitted inner q q')

include outfitted

theorem store_eq : q'.store = q.store := congrArg Prod.fst outfitted.settings_eq

theorem batchSize_eq : q'.batchSize = q.batchSize :=
  congrArg (fun s => s.2.1) outfitted.settings_eq

theorem transport_eq : q'.transport = some inner :=
  congrArg (fun s => s.2.2) outfitted.settings_eq

end Queue.Outfitted

namespace Session

open Change

variable {h : HandoffId} {d : Depot} {depot : Option Depot} {s t u : Session}

theorem wire_stock {q : QueueId} (inner : Transport) (there : q < s.queues.size) :
    ∃ x jobs, (∀ j ∈ jobs, j.2 = .drains q) ∧ Queue.Outfitted inner (s.queue q) x ∧
      (wire q inner s).2.stock = { (setQueue q x s).2.stock with jobs := s.jobs ++ jobs } := by
  let set := (setQueue q ((s.queue q).setTransport inner) s).2
  have found : set.queue q = (s.queue q).setTransport inner := by
    rw [queue_setQueue, if_pos ⟨rfl, there⟩]
  obtain ⟨task, jobs, drains, stock⟩ := startLoop_stock q Queue.ensureRunning set
  obtain ⟨stopping, loop, same⟩ := ((s.queue q).setTransport inner).ensureRunning_eq task
  rw [found, same, setQueue_setQueue] at stock
  exact ⟨{ (s.queue q).setTransport inner with stopping, loop }, jobs, drains, ⟨rfl, rfl⟩, stock⟩

section Making

variable {c : TrackerConfig PluginRef}

theorem attach_addTracker (t : SessionTracker) (s : Session) :
    let made := (do t.plugins.attach hooks t.owner; addTracker t : Change TrackerRef) s
    made.2.tracker? made.1 = some t ∧ made.2.stock = s.stock := by
  have attaches : Aside (t.plugins.attach hooks t.owner) :=
    fixes_onUsable _ fun ref => aside_attach ref t.owner
  exact ⟨Array.getElem?_push_size, stock_of_setup (attaches s)⟩

theorem assemble_parts (c : TrackerConfig PluginRef) (console : ConsoleId)
    (plugins : List PluginRef) (s : Session) :
    let ready := trackerTransport c console s
    let made := assemble c console plugins s
    ∃ u t, u.stock = ready.2.stock ∧ made.2.stock = (ready.1.mapM addHandoff u).2.stock ∧
      made.2.tracker? made.1 = some t ∧ t.handoff = (ready.1.mapM addHandoff u).1 ∧
        t.queue = c.queue := by
  have reports : Aside ((Pipeline.ofList plugins).2.forM fun name =>
      report console (.error (Pipeline.takenMessage name))) := Fixes.forM fun _ => aside_report _ _
  obtain ⟨found, stock⟩ := attach_addTracker
    { applicationId := c.applicationId
      trackerId := c.trackerId
      active := c.active
      contexts := c.contexts
      plugins := (Pipeline.ofList plugins).1
      handoff := _
      queue := c.queue
      console } _
  exact ⟨_, _, stock_of_setup (reports _), stock, found, rfl, rfl⟩

theorem assemble_made {console : ConsoleId} {x : Transport} (plugins : List PluginRef)
    (transport : trackerTransport c console s = (some x, u)) :
    let made := assemble c console plugins s
    made.2.stock = { u.stock with handoffs := u.handoffs.push { transport := x } } ∧
      ∃ t, made.2.tracker? made.1 = some t ∧ t.handoff = some u.handoffs.size ∧
        t.queue = c.queue := by
  obtain ⟨v, t, same, stock, found, handoff, queue⟩ := assemble_parts c console plugins s
  rw [transport] at same stock handoff
  refine ⟨stock.trans ?_, t, found, handoff.trans ?_, queue⟩
  · exact congrArg (fun l : Stock => { l with handoffs := l.handoffs.push { transport := x } }) same
  · exact congrArg (fun l : Stock => some l.handoffs.size) same

end Making

structure Unheard (h : HandoffId) (s : Session) : Prop where
  nothingNoted : ∀ m ∈ s.ledger, ¬ Milestone.concerns h m
  nobody : ∀ j ∈ s.jobs, Job.isForwarding h j.2 = false

theorem Unheard.of_stock (unheard : Unheard h s) (same : t.stock = s.stock) : Unheard h t := by
  have ledger : t.ledger = s.ledger := congrArg Stock.ledger same
  have jobs : t.jobs = s.jobs := congrArg Stock.jobs same
  exact ⟨ledger ▸ unheard.nothingNoted, jobs ▸ unheard.nobody⟩

theorem Unheard.newHandoff (unheard : Unheard s.handoffs.size s) {x : Transport}
    {jobs : List (TaskId × Job)} (ledger : t.ledger = s.ledger) (begun : t.jobs = s.jobs ++ jobs)
    (others : ∀ j ∈ jobs, Job.isForwarding s.handoffs.size j.2 = false)
    (added : t.handoffs = s.handoffs.push { transport := x }) :
    NewHandoff s.handoffs.size t := by
  have new : t.handoff s.handoffs.size = { transport := x } := by
    simp [handoff, added]
  have missed {α : Type} {f : Milestone → Option α}
      (none : ∀ m, ¬ Milestone.concerns s.handoffs.size m → f m = none) :
      t.ledger.select f = [] := by
    rw [ledger]
    simpa using Ledger.select_append_of_none f [] fun m noted =>
      none m (unheard.nothingNoted m noted)
  constructor
  · simp [added]
  · rw [new]
  · rw [new]
  · rw [new]
  case nobody =>
    intro j listed
    rw [begun] at listed
    exact (List.mem_append.1 listed).elim (unheard.nobody j) (others j)
  -- What is left says that nothing was noted: one list of milestones after the other.
  all_goals
    refine missed fun m other => ?_
    cases m <;> first | rfl | exact if_neg other

structure Vacant (d : Depot) (s : Session) : Prop extends NewQueue d.queue d.store s where
  batchSize_pos : 0 < (s.queue d.queue).batchSize
  apart : ∀ id ∈ queuesOf d.inner, (s.queue id).store ≠ d.store

namespace Vacant

variable (vacant : Vacant d s)

include vacant

theorem newQueue (ledger : t.ledger = s.ledger) (stores : t.stores = s.stores)
    (size : t.queues.size = s.queues.size)
    (store_eq : (t.queue d.queue).store = (s.queue d.queue).store)
    (processing : (t.queue d.queue).processing = (s.queue d.queue).processing) :
    NewQueue d.queue d.store t := by
  have kept (k : StoreId) : t.store k = s.store k := by
    rw [store, stores]
    rfl
  constructor
  · rw [size]
    exact vacant.hasQueue
  · rw [stores]
    exact vacant.hasStore
  · rw [store_eq]
    exact vacant.store_eq
  · rw [kept]
    exact vacant.inMemory
  · rw [processing]
    exact vacant.idle
  · rw [kept]
    exact vacant.empty
  all_goals rw [ledger]
  · exact vacant.nothingWritten
  · exact vacant.nothingAccepted
  · exact vacant.nothingRemoved

theorem of_stock (same : t.stock = s.stock) : Vacant d t := by
  have queues : t.queues = s.queues := congrArg Stock.queues same
  have queue (id : QueueId) : t.queue id = s.queue id := by
    rw [Session.queue, queues]
    rfl
  have new : NewQueue d.queue d.store t :=
    vacant.newQueue (congrArg Stock.ledger same) (congrArg Stock.stores same) (by rw [queues])
      (by rw [queue]) (by rw [queue])
  refine ⟨new, ?_, fun id fed => ?_⟩
  · rw [queue]
    exact vacant.batchSize_pos
  · rw [queue]
    exact vacant.apart id fed

theorem connected {x : Queue} (outfitted : Queue.Outfitted d.inner (s.queue d.queue) x)
    (ledger : t.ledger = s.ledger) (stores : t.stores = s.stores)
    (queues : t.queues = s.queues.set! d.queue x)
    (passes : (t.handoff h).transport = .queued d.queue d.inner) :
    NewQueue d.queue d.store t ∧ Connected h d t := by
  have here : t.queue d.queue = x := by
    rw [queue, queues, getD_set, if_pos ⟨rfl, vacant.hasQueue⟩]
  have same (id : QueueId) : (t.queue id).store = (s.queue id).store := by
    rw [queue, queues, getD_set]
    split
    · next mine => rw [← mine.1, outfitted.store_eq]
    · rfl
  have new : NewQueue d.queue d.store t :=
    vacant.newQueue ledger stores (by simp [queues]) (same _)
      (by rw [here, outfitted.processing_eq])
  refine ⟨new, passes, ?_, new.store_eq, new.inMemory, ?_, fun id fed => ?_⟩
  · rw [here]
    exact outfitted.transport_eq
  · rw [here, outfitted.batchSize_eq]
    exact vacant.batchSize_pos
  · rw [same]
    exact vacant.apart id fed

end Vacant

def Founds (h : HandoffId) (depot : Option Depot) (made : TrackerRef × Session) : Prop :=
  NewFamily h depot made.2 ∧ ∃ t, made.2.tracker? made.1 = some t ∧ IsOf h depot t

section Founding

variable {c : TrackerConfig PluginRef} {inner : Transport} (delivers : c.transport = some inner)
  (queued : c.queue = depot.map Depot.queue) (unheard : Unheard s.handoffs.size s)
  (vacant : ∀ d ∈ depot, d.inner = inner ∧ Vacant d s)

include delivers queued unheard vacant

theorem assemble_founds (console : ConsoleId) (plugins : List PluginRef) :
    Founds s.handoffs.size depot (assemble c console plugins s) := by
  cases depot with
  | none =>
    have transport : trackerTransport c console s = (some inner, s) := by
      simp [trackerTransport, delivers, queued]
      rfl
    obtain ⟨stock, t, found, handoff, queue⟩ := assemble_made plugins transport
    have jobs : s.jobs = s.jobs ++ [] := (List.append_nil _).symm
    have new := unheard.newHandoff (congrArg Stock.ledger stock)
      ((congrArg Stock.jobs stock).trans jobs) nofun (congrArg Stock.handoffs stock)
    exact ⟨⟨new, nofun, nofun⟩, t, found, handoff, queue.trans queued⟩
  | some d =>
    obtain ⟨rfl, free⟩ := vacant d rfl
    have transport : trackerTransport c console s =
        (some (.queued d.queue d.inner), (wire d.queue d.inner s).2) := by
      simp [trackerTransport, delivers, queued]
      rfl
    obtain ⟨stock, t, found, handoff, queue⟩ := assemble_made plugins transport
    obtain ⟨x, jobs, drains, outfitted, wired⟩ := wire_stock d.inner free.hasQueue
    have handoffs : (wire d.queue d.inner s).2.handoffs = s.handoffs :=
      congrArg Stock.handoffs wired
    rw [wired, handoffs] at stock
    rw [handoffs] at handoff
    have added := congrArg Stock.handoffs stock
    have ledger := congrArg Stock.ledger stock
    have new := unheard.newHandoff ledger (congrArg Stock.jobs stock)
      (fun j begun => by rw [drains j begun]; rfl) added
    have passes : ((assemble c console plugins s).2.handoff s.handoffs.size).transport =
        .queued d.queue d.inner := by
      simp [Session.handoff, show (assemble c console plugins s).2.handoffs = _ from added]
    obtain ⟨newQueue, connected⟩ := free.connected outfitted ledger (congrArg Stock.stores stock)
      (congrArg Stock.queues stock) passes
    refine ⟨⟨new, ?_, ?_⟩, t, found, handoff, queue.trans queued⟩
    · rintro _ ⟨⟩
      exact newQueue
    · rintro _ ⟨⟩
      exact connected

theorem makeTracker_founds : Founds s.handoffs.size depot (makeTracker c s) := by
  have assembled {u : Session} (console : ConsoleId) (plugins : List PluginRef)
      (same : u.stock = s.stock) :
      Founds s.handoffs.size depot (assemble c console plugins u) := by
    have handoffs : u.handoffs = s.handoffs := congrArg Stock.handoffs same
    rw [← handoffs]
    refine assemble_founds delivers queued ?_ (fun d mine => ?_) console plugins
    · rw [handoffs]
      exact unheard.of_stock same
    · exact ⟨(vacant d mine).1, (vacant d mine).2.of_stock same⟩
  unfold makeTracker
  obtain ⟨console, u, same, rest⟩ := (aside_consoleOr c.console).bind_apply
    (fun console => if c.hasApplicationPlugin then assemble c console c.plugins
      else do assemble c console (c.allPlugins (← addPlugin (.application {})))) s
  rw [rest]
  split
  · exact assembled console _ (stock_of_setup same)
  · exact assembled console _ (stock_of_setup same)

end Founding

theorem Unconcerned.of_stock (same : t.stock = s.stock) : Unconcerned h depot s t := by
  have ledger : t.ledger = s.ledger := congrArg Stock.ledger same
  exact ⟨handoffView_of_stock h same, fun _ _ => queueView_of_stock same,
    fun _ _ c => c.of_same (.of_stock same), ledger ▸ List.suffix_refl _⟩

theorem deriveTracker_joins {t : SessionTracker} (mine : IsOf h depot t) (scope : Contexts)
    (s : Session) :
    let made := deriveTracker t scope s
    FamilyChange h depot s made.2 ∧ ∃ t', made.2.tracker? made.1 = some t' ∧ IsOf h depot t' := by
  obtain ⟨found, stock⟩ := attach_addTracker (t.derive scope) s
  exact ⟨.other (.of_stock stock), t.derive scope, found, mine.handoff_eq, mine.queue_eq⟩

end Session

end EventTracking
