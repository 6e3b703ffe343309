import EventTracking.Proofs.Handoff.Tasks
import EventTracking.Proofs.Queue.Draining

set_option autoImplicit false

namespace EventTracking

def Queue.settings (q : Queue) : StoreId × Nat × Option Transport :=
  (q.store, q.batchSize, q.transport)

structure Depot where
  queue : QueueId
  store : StoreId
  inner : Transport

namespace Session

open Async Change

structure Connected (h : HandoffId) (d : Depot) (s : Session) : Prop where
  handoff : (s.handoff h).transport = .queued d.queue d.inner
  transport : (s.queue d.queue).transport = some d.inner
  store_eq : (s.queue d.queue).store = d.store
  inMemory : (s.store d.store).kind = .memory
  batchSize_pos : 0 < (s.queue d.queue).batchSize
  apart : ∀ id ∈ queuesOf d.inner, (s.queue id).store ≠ d.store

structure SameWires (s t : Session) : Prop where
  handoffs : ∀ id, (t.handoff id).transport = (s.handoff id).transport
  queues : ∀ id, (t.queue id).settings = (s.queue id).settings
  stores : ∀ id, (t.store id).kind = (s.store id).kind

variable {h : HandoffId} {d : Depot} {s t u : Session}

theorem Connected.of_same (c : Connected h d s) (same : SameWires s t) : Connected h d t := by
  have queue (id : QueueId) : (t.queue id).store = (s.queue id).store ∧
      (t.queue id).batchSize = (s.queue id).batchSize ∧
        (t.queue id).transport = (s.queue id).transport := by
    simpa [Queue.settings] using same.queues id
  obtain ⟨store, batchSize, transport⟩ := queue d.queue
  constructor
  · rw [same.handoffs]
    exact c.handoff
  · rw [transport]
    exact c.transport
  · rw [store]
    exact c.store_eq
  · rw [same.stores]
    exact c.inMemory
  · rw [batchSize]
    exact c.batchSize_pos
  · intro id fed
    rw [(queue id).1]
    exact c.apart id fed

namespace SameWires

theorem refl (s : Session) : SameWires s s := ⟨fun _ => rfl, fun _ => rfl, fun _ => rfl⟩

theorem trans (first : SameWires s t) (second : SameWires t u) : SameWires s u where
  handoffs id := (second.handoffs id).trans (first.handoffs id)
  queues id := (second.queues id).trans (first.queues id)
  stores id := (second.stores id).trans (first.stores id)

theorem of_stock (same : t.stock = s.stock) : SameWires s t := by
  have stores : t.stores = s.stores := congrArg Stock.stores same
  have queues : t.queues = s.queues := congrArg Stock.queues same
  have handoffs : t.handoffs = s.handoffs := congrArg Stock.handoffs same
  constructor <;> intro id
  · rw [handoff, handoffs]
    rfl
  · rw [queue, queues]
    rfl
  · rw [store, stores]
    rfl

theorem note (m : Milestone) (s : Session) : SameWires s (note m s).2 :=
  ⟨fun _ => rfl, fun _ => rfl, fun _ => rfl⟩

theorem jobs (jobs : List (TaskId × Job)) (s : Session) : SameWires s { s with jobs } :=
  ⟨fun _ => rfl, fun _ => rfl, fun _ => rfl⟩

theorem setHandoff {id : HandoffId} {x : Handoff} (same : x.transport = (s.handoff id).transport) :
    SameWires s (setHandoff id x s).2 := by
  refine ⟨fun i => ?_, fun _ => rfl, fun _ => rfl⟩
  rw [handoff_setHandoff]
  split
  · next here => rw [← here.1, same]
  · rfl

theorem setQueue {id : QueueId} {x : Queue} (same : x.settings = (s.queue id).settings) :
    SameWires s (setQueue id x s).2 := by
  exact ⟨fun _ => rfl, fun i => setQueue_view Queue.settings fun here => here ▸ same, fun _ => rfl⟩

theorem setStore {id : StoreId} {x : Store} (same : x.kind = (s.store id).kind) :
    SameWires s (setStore id x s).2 := by
  refine ⟨fun _ => rfl, fun _ => rfl, fun i => ?_⟩
  rw [store_setStore]
  split
  · next here => rw [← here.1, same]
  · rfl

theorem applyEdit (id : StoreId) (e : Store.Edit) (s : Session) :
    SameWires s (applyEdit id e s).2 :=
  have edited : SameWires s (Session.setStore id ((s.store id).edit e) s).2 := setStore rfl
  edited.trans (.note (.edited id e) _)

theorem ensureRunning (id : QueueId) (s : Session) : SameWires s (ensureRunning id s).2 := by
  obtain ⟨task, jobs, _, stock⟩ := startLoop_stock id Queue.ensureRunning s
  obtain ⟨stopping, loop, same⟩ := (s.queue id).ensureRunning_eq task
  have set : SameWires s (Session.setQueue id ((s.queue id).ensureRunning task).2 s).2 :=
    setQueue (by rw [same]; rfl)
  exact (set.trans (.jobs (s.jobs ++ jobs) _)).trans (of_stock stock)

end SameWires

variable {V : Type} {depot : Option Depot} {view : Ledger → V} {queues : QueueId → Prop}

structure Overlooked (h : HandoffId) (depot : Option Depot) (view : Ledger → V) (s t : Session) :
    Prop where
  wires : ∀ d ∈ depot, Connected h d s → Connected h d t
  ledger : s.ledger <:+ t.ledger
  view_eq : view t.ledger = view s.ledger

namespace Overlooked

theorem of_same (same : SameWires s t) (ledger : t.ledger = s.ledger) :
    Overlooked h depot view s t :=
  ⟨fun _ _ c => c.of_same same, ledger ▸ List.suffix_refl _, congrArg view ledger⟩

theorem of_noted {m : Milestone} (same : SameWires s t) (ledger : t.ledger = m :: s.ledger)
    (missed : view (m :: s.ledger) = view s.ledger) : Overlooked h depot view s t :=
  ⟨fun _ _ c => c.of_same same, ledger ▸ List.suffix_cons _ _, ledger ▸ missed⟩

theorem begins {task : TaskId} {job : Job} (begun : s.begin? task = some (job, t)) :
    Overlooked h depot view s t := by
  obtain ⟨_, rfl⟩ := begin?_eq_some begun
  exact of_same (.jobs _ s) rfl

theorem trans (first : Overlooked h depot view s t) (second : Overlooked h depot view t u) :
    Overlooked h depot view s u where
  wires d mine c := second.wires d mine (first.wires d mine c)
  ledger := first.ledger.trans second.ledger
  view_eq := second.view_eq.trans first.view_eq

end Overlooked

def familyFrame (h : HandoffId) (depot : Option Depot) (view : Ledger → V) : Frame Session where
  always s := ∀ d ∈ depot, Connected h d s
  quiet := Overlooked h depot view
  quiet_refl s := .of_same (.refl s) rfl
  quiet_trans := .trans
  always_quiet all quiet := fun d mine => quiet.wires d mine (all d mine)

namespace familyFrame

theorem delivery (overlooks : ∀ {s : Session} {id : QueueId}, (∀ d ∈ depot, Connected h d s) →
      queues id → ∀ events l, view (.edited (s.queue id).store (.append events) :: l) = view l) :
    AllowsDelivery (familyFrame h depot view) queues where
  aside same := .of_same (.of_stock (stock_of_setup same)) (congrArg (·.1.ledger) same)
  locks _ _ _ := .of_same (.setStore rfl) rfl
  starts {s} id _ := .of_same (.ensureRunning id s) (ensureRunning_beside id s).2
  appends events h₀ mine _ := .of_noted (.applyEdit _ _ _) rfl (overlooks h₀ mine events _)

theorem forwarding (allows : AllowsDelivery (familyFrame h depot view) queues)
    (receives : ∀ e l, view (.received h e :: l) = view l)
    (counts : ∀ batch l, view (.counted h batch :: l) = view l) :
    AllowsForwarding (familyFrame h depot view) h queues where
  toAllowsDelivery := allows
  sets _ transport := .of_same (.setHandoff transport) rfl
  receives _ _ := .of_noted (.note _ _) rfl (receives _ _)
  counts _ _ := .of_noted (.note _ _) rfl (counts _ _)

theorem tracking (allows : AllowsForwarding (familyFrame h depot view) h queues)
    (stamps : ∀ e l, view (.stamped e :: l) = view l)
    (sends : ∀ e l, view (.sent h e :: l) = view l) :
    AllowsTracking (familyFrame h depot view) h queues where
  toAllowsForwarding := allows
  begins {s} _ := by
    obtain ⟨jobs, _, stock⟩ := spawn?_stock (.forwards h) s
    have ledger : (spawn? (.forwards h) s).2.ledger = s.ledger := congrArg Stock.ledger stock
    exact .of_same (.trans (.jobs (s.jobs ++ jobs) _) (.of_stock stock)) ledger
  stamps _ _ := .of_noted (.note _ _) rfl (stamps _ _)
  notesSent _ _ := .of_noted (.note _ _) rfl (sends _ _)

theorem draining (allows : AllowsDelivery (familyFrame h depot view) queues) (mine : d ∈ depot)
    (inside : ∀ id ∈ queuesOf d.inner, queues id)
    (accepts : ∀ batch l, view (.accepted d.queue batch :: l) = view l)
    (removes : ∀ k ids l, view (.edited k (.remove ids) :: l) = view l) :
    AllowsDraining (familyFrame h depot view) d.queue queues where
  toAllowsDelivery := allows
  flags _ _ := .of_same (.setQueue rfl) rfl
  accepts _ _ := .of_noted (.note _ _) rfl (accepts _ _)
  removes _ _ _ := .of_noted (.applyEdit _ _ _) rfl (removes _ _ _)
  transports all found := by
    rw [(all d mine).transport] at found
    exact Option.some.inj found ▸ inside

end familyFrame

end Session

end EventTracking
