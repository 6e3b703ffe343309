import EventTracking.Proofs.Queue.Draining

set_option autoImplicit false

namespace EventTracking

structure QueueView where
  hasQueue : Prop
  hasStore : Prop
  processing : Bool
  store : StoreId
  kind : Store.Kind
  events : List Event
  written : List Event
  accepted : List (List Event)
  -- How often events were removed from the store.
  removals : Nat

namespace QueueView

def add (v : QueueView) (events : List Event) : QueueView :=
  { v with events := v.events ++ events, written := v.written ++ events }

theorem add_nil (v : QueueView) : v.add [] = v := by simp [add]

theorem add_add (v : QueueView) (a b : List Event) : (v.add a).add b = v.add (a ++ b) := by
  simp [add]

structure Wired (k : StoreId) (v : QueueView) : Prop where
  hasQueue : v.hasQueue
  hasStore : v.hasStore
  store_eq : v.store = k
  inMemory : v.kind = .memory

end QueueView

namespace Session

open Async Change

variable {id : QueueId} {k : StoreId} {s t u : Session}

def queueView (id : QueueId) (k : StoreId) (s : Session) : QueueView where
  hasQueue := id < s.queues.size
  hasStore := k < s.stores.size
  processing := (s.queue id).processing
  store := (s.queue id).store
  kind := (s.store k).kind
  events := (s.store k).events
  written := s.ledger.written k
  accepted := s.ledger.accepted id
  removals := (s.ledger.removed k).length

theorem queueView_of_stock (h : t.stock = s.stock) : queueView id k t = queueView id k s := by
  have stores : t.stores = s.stores := congrArg Stock.stores h
  have queues : t.queues = s.queues := congrArg Stock.queues h
  have ledger : t.ledger = s.ledger := congrArg Stock.ledger h
  simp only [queueView, queue, store, queues, stores, ledger]

theorem queueView_setQueue (id : QueueId) (k : StoreId) (id' : QueueId) (q : Queue) (s : Session) :
    queueView id k (setQueue id' q s).2 =
      if id' = id ∧ id' < s.queues.size then
        { queueView id k s with processing := q.processing, store := q.store }
      else queueView id k s := by
  have size : (setQueue id' q s).2.queues.size = s.queues.size := Array.size_setIfInBounds
  have others : queueView id k (setQueue id' q s).2 =
      { queueView id k s with
        hasQueue := id < (setQueue id' q s).2.queues.size
        processing := ((setQueue id' q s).2.queue id).processing
        store := ((setQueue id' q s).2.queue id).store } := rfl
  rw [others, size, queue_setQueue]
  split <;> rfl

theorem queueView_setStore (id : QueueId) (k k' : StoreId) (x : Store) (s : Session) :
    queueView id k (setStore k' x s).2 =
      if k' = k ∧ k' < s.stores.size then
        { queueView id k s with kind := x.kind, events := x.events }
      else queueView id k s := by
  have size : (setStore k' x s).2.stores.size = s.stores.size := Array.size_setIfInBounds
  have others : queueView id k (setStore k' x s).2 =
      { queueView id k s with
        hasStore := k < (setStore k' x s).2.stores.size
        kind := ((setStore k' x s).2.store k).kind
        events := ((setStore k' x s).2.store k).events } := rfl
  rw [others, size, store_setStore]
  split <;> rfl

theorem queueView_note (id : QueueId) (k : StoreId) (m : Milestone) (s : Session) :
    queueView id k (note m s).2 =
      { queueView id k s with
        written := Ledger.written k (m :: s.ledger)
        accepted := Ledger.accepted id (m :: s.ledger)
        removals := (Ledger.removed k (m :: s.ledger)).length } := rfl

theorem queueView_applyEdit (id : QueueId) (k' : StoreId) (e : Store.Edit) {s : Session}
    (hasStore : k < s.stores.size) :
    queueView id k (applyEdit k' e s).2 =
      { queueView id k s with
        events := if k' = k then e.apply (s.store k).events else (s.store k).events
        written := Ledger.written k (.edited k' e :: s.ledger)
        accepted := Ledger.accepted id (.edited k' e :: s.ledger)
        removals := (Ledger.removed k (.edited k' e :: s.ledger)).length } := by
  have edited : queueView id k (applyEdit k' e s).2 = queueView id k
      (note (.edited k' e) (setStore k' ((s.store k').edit e) s).2).2 := rfl
  rw [edited, queueView_note, queueView_setStore]
  by_cases mine : k' = k
  · subst mine
    rw [if_pos ⟨rfl, hasStore⟩, if_pos rfl]
    rfl
  · rw [if_neg fun h => mine h.1, if_neg mine]
    rfl

theorem queueView_accepted (id : QueueId) (k : StoreId) (batch : List Event) (s : Session) :
    queueView id k (note (.accepted id batch) s).2 =
      { queueView id k s with accepted := (queueView id k s).accepted ++ [batch] } := by
  rw [queueView_note]
  simp [queueView]

theorem queueView_removed (id : QueueId) (ids : List String) {s : Session}
    (hasStore : k < s.stores.size) :
    queueView id k (applyEdit k (.remove ids) s).2 =
      { queueView id k s with
        events := Store.without ids (queueView id k s).events
        removals := (queueView id k s).removals + 1 } := by
  rw [queueView_applyEdit _ _ _ hasStore]
  simp [queueView, Store.Edit.apply]

theorem queueView_appended (id : QueueId) (events : List Event) {s : Session}
    (hasStore : k < s.stores.size) :
    queueView id k (applyEdit k (.append events) s).2 = (queueView id k s).add events := by
  rw [queueView_applyEdit _ _ _ hasStore]
  simp [QueueView.add, queueView, Store.Edit.apply]

theorem queueView_startLoop (id : QueueId) (k : StoreId) (id' : QueueId)
    (start : Queue → Option TaskId → Except Error Unit × Queue) (s : Session) :
    ∃ task, queueView id k (startLoop id' start s).2 =
      queueView id k (Session.setQueue id' (start (s.queue id') task).2 s).2 := by
  obtain ⟨task, jobs, _, stock⟩ := startLoop_stock id' start s
  exact ⟨task, (queueView_of_stock (s := { (setQueue id' (start (s.queue id') task).2 s).2 with
    jobs := s.jobs ++ jobs }) stock).trans rfl⟩

theorem queueView_setLock (id : QueueId) (k k' : StoreId) (lock : Lock) (s : Session) :
    queueView id k (setLock k' lock s).2 = queueView id k s := by
  refine (queueView_setStore id k k' { s.store k' with lock } s).trans ?_
  split
  · next mine => rw [mine.1]; rfl
  · rfl

theorem queueView_ensureRunning (id : QueueId) (k : StoreId) (id' : QueueId) (s : Session) :
    queueView id k (ensureRunning id' s).2 = queueView id k s := by
  obtain ⟨task, view⟩ := queueView_startLoop id k id' Queue.ensureRunning s
  obtain ⟨stopping, loop, same⟩ := (s.queue id').ensureRunning_eq task
  refine view.trans ?_
  rw [same, queueView_setQueue]
  split
  · next mine => rw [mine.1]; rfl
  · rfl

theorem queueView_applyEdit_of_ne (id : QueueId) {k' : StoreId} (other : k' ≠ k) (e : Store.Edit)
    {s : Session} (hasStore : k < s.stores.size) :
    queueView id k (applyEdit k' e s).2 = queueView id k s := by
  rw [queueView_applyEdit _ _ _ hasStore]
  cases e <;> simp [queueView, other]

def Undisturbed (id : QueueId) (k : StoreId) (s t : Session) : Prop :=
  ∃ events, queueView id k t = (queueView id k s).add events

namespace Undisturbed

theorem of_eq (h : queueView id k t = queueView id k s) : Undisturbed id k s t :=
  ⟨[], by rw [h, QueueView.add_nil]⟩

theorem trans (first : Undisturbed id k s t) (second : Undisturbed id k t u) :
    Undisturbed id k s u := by
  obtain ⟨new, added⟩ := first
  obtain ⟨new', added'⟩ := second
  exact ⟨new ++ new', by rw [added', added, QueueView.add_add]⟩

theorem setQueue {id' : QueueId} {q : Queue} (flag : q.processing = (s.queue id').processing)
    (sameStore : q.store = (s.queue id').store) : Undisturbed id k s (setQueue id' q s).2 := by
  refine of_eq ?_
  rw [queueView_setQueue]
  split
  · next h => rw [flag, sameStore, h.1]; rfl
  · rfl

theorem setTransport (id' : QueueId) (inner : Transport) (s : Session) :
    Undisturbed id k s (Session.setQueue id' ((s.queue id').setTransport inner) s).2 :=
  setQueue rfl rfl

theorem setStore {k' : StoreId} {x : Store} (kind : x.kind = (s.store k').kind)
    (events : x.events = (s.store k').events) : Undisturbed id k s (setStore k' x s).2 := by
  refine of_eq ?_
  rw [queueView_setStore]
  split
  · next h => rw [kind, events, h.1]; rfl
  · rfl

theorem ensureRunning (id' : QueueId) (s : Session) :
    Undisturbed id k s (ensureRunning id' s).2 := of_eq (queueView_ensureRunning id k id' s)

theorem append (k' : StoreId) (events : List Event) (hasStore : k < s.stores.size) :
    Undisturbed id k s (applyEdit k' (.append events) s).2 := by
  by_cases mine : k' = k
  · subst mine
    exact ⟨events, queueView_appended id events hasStore⟩
  · exact of_eq (queueView_applyEdit_of_ne id mine (.append events) hasStore)

end Undisturbed

def queueFrame (id : QueueId) (k : StoreId) : Frame Session where
  always s := (queueView id k s).Wired k
  quiet := Undisturbed id k
  quiet_refl s := .of_eq rfl
  quiet_trans := .trans
  always_quiet wired := fun ⟨events, added⟩ => by
    rw [added]
    exact ⟨wired.hasQueue, wired.hasStore, wired.store_eq, wired.inMemory⟩

theorem queueFrame_allows : AllowsDelivery (queueFrame id k) fun _ => True where
  aside same := .of_eq (queueView_of_stock (stock_of_setup same))
  locks _ _ _ := .setStore rfl rfl
  starts id' _ := .ensureRunning id' _
  appends events _ _ wired := .append _ events wired.hasStore

end Session

end EventTracking
