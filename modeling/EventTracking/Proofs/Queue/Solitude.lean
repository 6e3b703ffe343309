import EventTracking.Proofs.Async.Settling
import EventTracking.Proofs.Family.Wiring
import EventTracking.Proofs.Queue.Filing
import EventTracking.Proofs.Queue.View

set_option autoImplicit false

namespace EventTracking.Session

open Async Change
open Relation (ReflTransGen)

variable {id : QueueId} {k : StoreId} {size : Nat} {t : Transport} {flag : Bool}
  {l : List Event} {s u v : Session} {R : Session → Session → Prop} {α : Type}

-- The queue is wired to the transport, and its store is in memory. The transport puts no events
-- into the same store.
structure Ready (id : QueueId) (k : StoreId) (size : Nat) (t : Transport) (s : Session) : Prop where
  hasQueue : id < s.queues.size
  hasStore : k < s.stores.size
  store_eq : (s.queue id).store = k
  batchSize_eq : (s.queue id).batchSize = size
  transport_eq : (s.queue id).transport = some t
  inMemory : (s.store k).kind = .memory
  apart : ∀ inner ∈ queuesOf t, (s.queue inner).store ≠ k

structure Filled (id : QueueId) (k : StoreId) (size : Nat) (t : Transport) (flag : Bool)
    (l : List Event) (s : Session) : Prop extends Ready id k size t s where
  flag_eq : (s.queue id).processing = flag
  events_eq : (s.store k).events = l

structure Elsewhere (id : QueueId) (k : StoreId) (s u : Session) : Prop where
  view : queueView id k u = queueView id k s
  wires : SameWires s u

-- What goes on while nobody else uses the queue or its store. The clock may do anything.
structure Solitary (id : QueueId) (k : StoreId) (R : Session → Session → Prop) : Prop where
  elsewhere : ∀ {s u}, R s u → Elsewhere id k s u
  clock : ∀ s scheduler, R s { s with scheduler }

structure Own (id : QueueId) (k : StoreId) (s u : Session) : Prop where
  leaves : u.leaves = s.leaves
  consoles : u.consoles = s.consoles
  observed : u.observed = s.observed
  queues : ∀ i ≠ id, u.queue i = s.queue i
  stores : ∀ i ≠ k, u.store i = s.store i

namespace Own

theorem refl (s : Session) : Own id k s s := ⟨rfl, rfl, rfl, fun _ _ => rfl, fun _ _ => rfl⟩

theorem scheduler (s : Session) (scheduler : Scheduler) : Own id k s { s with scheduler } :=
  ⟨rfl, rfl, rfl, fun _ _ => rfl, fun _ _ => rfl⟩

theorem note (m : Milestone) (s : Session) : Own id k s (note m s).2 :=
  ⟨rfl, rfl, rfl, fun _ _ => rfl, fun _ _ => rfl⟩

theorem setQueue (q : Queue) (s : Session) : Own id k s (setQueue id q s).2 where
  leaves := rfl
  consoles := rfl
  observed := rfl
  queues i other := by
    rw [queue_setQueue, if_neg fun h => other h.1.symm]
  stores _ _ := rfl

theorem applyEdit (e : Store.Edit) (s : Session) : Own id k s (applyEdit k e s).2 where
  leaves := rfl
  consoles := rfl
  observed := rfl
  queues _ _ := rfl
  stores i other := by
    have set := store_setStore s k i ((s.store k).edit e)
    rw [if_neg fun h => other h.1.symm] at set
    exact set

end Own

namespace Elsewhere

theorem refl (s : Session) : Elsewhere id k s s := ⟨rfl, .refl s⟩

theorem trans (first : Elsewhere id k s u) (second : Elsewhere id k u v) : Elsewhere id k s v :=
  ⟨second.view.trans first.view, first.wires.trans second.wires⟩

theorem of_stock (same : u.stock = s.stock) : Elsewhere id k s u :=
  ⟨queueView_of_stock same, .of_stock same⟩

theorem scheduler (s : Session) (scheduler : Scheduler) : Elsewhere id k s { s with scheduler } :=
  of_stock rfl

theorem ready (kept : Elsewhere id k s u) (h : Ready id k size t s) : Ready id k size t u := by
  have settings : (u.queue id).settings = (s.queue id).settings := kept.wires.queues id
  have wired := congrArg Prod.snd settings
  constructor
  · have same : (id < u.queues.size) = (id < s.queues.size) :=
      congrArg QueueView.hasQueue kept.view
    exact same ▸ h.hasQueue
  · have same : (k < u.stores.size) = (k < s.stores.size) := congrArg QueueView.hasStore kept.view
    exact same ▸ h.hasStore
  · exact (congrArg Prod.fst settings).trans h.store_eq
  · exact (congrArg Prod.fst wired).trans h.batchSize_eq
  · exact (congrArg Prod.snd wired).trans h.transport_eq
  · exact (kept.wires.stores k).trans h.inMemory
  · intro inner fed
    have same : (u.queue inner).store = (s.queue inner).store :=
      congrArg Prod.fst (kept.wires.queues inner)
    exact same ▸ h.apart inner fed

theorem filled (kept : Elsewhere id k s u) (h : Filled id k size t flag l s) :
    Filled id k size t flag l u where
  toReady := kept.ready h.toReady
  flag_eq := (congrArg QueueView.processing kept.view).trans h.flag_eq
  events_eq := (congrArg QueueView.events kept.view).trans h.events_eq

end Elsewhere

def elsewhereFrame (id : QueueId) (k : StoreId) (size : Nat) (t : Transport) : Frame Session where
  always := Ready id k size t
  quiet := Elsewhere id k
  quiet_refl := .refl
  quiet_trans := .trans
  always_quiet ready kept := kept.ready ready

theorem elsewhereFrame_allows : AllowsDelivery (elsewhereFrame id k size t) (· ∈ queuesOf t) where
  aside same := .of_stock (stock_of_setup same)
  locks k' lock _ := ⟨queueView_setLock id k k' lock _, .setStore rfl⟩
  starts id' _ := ⟨queueView_ensureRunning id k id' _, .ensureRunning id' _⟩
  appends events before fed ready :=
    ⟨queueView_applyEdit_of_ne id (before.apart _ fed) (.append events) ready.hasStore,
      .applyEdit _ _ _⟩

namespace Filled

theorem setFlag (h : Filled id k size t flag l s) (flag' : Bool) :
    Filled id k size t flag' l (setQueue id { s.queue id with processing := flag' } s).2 := by
  have wires : SameWires s (setQueue id { s.queue id with processing := flag' } s).2 :=
    .setQueue rfl
  have set := queue_setQueue s id id { s.queue id with processing := flag' }
  rw [if_pos ⟨rfl, h.hasQueue⟩] at set
  refine ⟨⟨?_, h.hasStore, ?_, ?_, ?_, h.inMemory, ?_⟩, ?_, h.events_eq⟩
  · exact Nat.lt_of_lt_of_eq h.hasQueue Array.size_setIfInBounds.symm
  · rw [set]; exact h.store_eq
  · rw [set]; exact h.batchSize_eq
  · rw [set]; exact h.transport_eq
  · intro inner fed
    have same : ((setQueue id { s.queue id with processing := flag' } s).2.queue inner).store =
        (s.queue inner).store := congrArg Prod.fst (wires.queues inner)
    exact same ▸ h.apart inner fed
  · rw [set]

theorem note (h : Filled id k size t flag l s) (m : Milestone) :
    Filled id k size t flag l (Session.note m s).2 :=
  ⟨⟨h.hasQueue, h.hasStore, h.store_eq, h.batchSize_eq, h.transport_eq, h.inMemory, h.apart⟩,
    h.flag_eq, h.events_eq⟩

theorem edit (h : Filled id k size t flag l s) (e : Store.Edit) :
    Filled id k size t flag (e.apply l) (applyEdit k e s).2 := by
  have edited : (applyEdit k e s).2.store k = (s.store k).edit e := by
    have set := store_setStore s k k ((s.store k).edit e)
    rw [if_pos ⟨rfl, h.hasStore⟩] at set
    exact set
  refine ⟨⟨h.hasQueue, ?_, h.store_eq, h.batchSize_eq, h.transport_eq, ?_, h.apart⟩,
    h.flag_eq, ?_⟩
  · exact Nat.lt_of_lt_of_eq h.hasStore Array.size_setIfInBounds.symm
  · rw [edited]
    exact h.inMemory
  · rw [edited, ← h.events_eq]
    rfl

theorem later (h : Filled id k size t flag l s) (alone : Solitary id k R)
    (changes : ReflTransGen R s u) : Filled id k size t flag l u := by
  induction changes with
  | refl => exact h
  | tail _ change ih => exact (alone.elsewhere change).filled ih

end Filled

def OwnSteps (id : QueueId) (k : StoreId) (steps : List (Session × Session)) : Prop :=
  ∀ p ∈ steps, Own id k p.1 p.2

theorem OwnSteps.nil (id : QueueId) (k : StoreId) : OwnSteps id k [] := by simp [OwnSteps]

theorem OwnSteps.append {steps rest : List (Session × Session)} (h : OwnSteps id k steps)
    (h' : OwnSteps id k rest) : OwnSteps id k (steps ++ rest) :=
  List.forall_mem_append.2 ⟨h, h'⟩

theorem OwnSteps.cons {steps : List (Session × Session)} (own : Own id k s u)
    (h : OwnSteps id k steps) : OwnSteps id k ((s, u) :: steps) :=
  List.forall_mem_cons.2 ⟨own, h⟩

theorem OwnSteps.single (own : Own id k s u) : OwnSteps id k [(s, u)] := by
  simpa [OwnSteps] using own

theorem settles_proceed (alone : Solitary id k R) (h : Filled id k size t flag l s) :
    Settles R proceed s fun steps _ u => OwnSteps id k steps ∧ Filled id k size t flag l u := by
  refine Settles.await (fun v => ?_) fun steps _ u looks linked => ?_
  · refine ⟨_, .single (alone.clock v { v.scheduler with left := 1 }), ?_⟩
    have seen := whenAllowed_replenished (fun _ => some ()) v
    simp [seen]
  · have own (p : Session × Session) (hp : p ∈ steps) :
        ∃ scheduler, p.2 = { p.1 with scheduler } := by
      obtain ⟨scheduler, -, after, -⟩ := whenAllowed_look (fun _ => some ()) p.1
      exact ⟨scheduler, (looks p hp).trans after⟩
    constructor
    · intro p hp
      obtain ⟨scheduler, same⟩ := own p hp
      exact same ▸ .scheduler p.1 scheduler
    · refine linked.keeps (fun filled change => (alone.elsewhere change).filled filled) ?_ h
      intro p hp filled
      obtain ⟨scheduler, same⟩ := own p hp
      exact same ▸ (Elsewhere.scheduler p.1 scheduler).filled filled

variable {P : Except Error α → Session → Prop}

theorem settles_onStore (alone : Solitary id k R) (h : Filled id k size t flag l s)
    {method : Store.Method} {run : Task (Except Error α)}
    (inner : ∀ u, Filled id k size t flag l u →
      Settles R run u fun steps r v => OwnSteps id k steps ∧ P r v) :
    Settles R (onStore k method run) s fun steps r v => OwnSteps id k steps ∧ P r v := by
  refine Settles.bind (Settles.act fun v changes w later => ?_)
  have here := h.later alone changes
  have accepts : (v.store k).refusal? method = none := by
    simp [Store.refusal?, here.inMemory]
  simp only [accepts, here.inMemory]
  refine Settles.bind ((settles_proceed alone (here.later alone later)).mono ?_)
  rintro waits _ x ⟨own, filled⟩
  refine (inner x filled).mono ?_
  rintro steps r y ⟨owns, result⟩
  exact ⟨(OwnSteps.single (.refl v)).append (own.append owns), result⟩

theorem settles_readStore (alone : Solitary id k R) (h : Filled id k size t flag l s)
    (count position : Nat) :
    Settles R (readStore k count position) s fun steps r u => OwnSteps id k steps ∧
      r = .ok (Store.window count position l) ∧ Filled id k size t flag l u := by
  refine settles_onStore alone h fun v filled => Settles.act fun w changes x later => ?_
  have here := filled.later alone changes
  refine ⟨.single (.refl w), ?_, here.later alone later⟩
  change Except.ok (Store.window count position (w.store k).events) = _
  rw [here.events_eq]

theorem settles_editStore (alone : Solitary id k R) (h : Filled id k size t flag l s)
    (e : Store.Edit) :
    Settles R (editStore k e) s fun steps r u => OwnSteps id k steps ∧
      r = .ok () ∧ Filled id k size t flag (e.apply l) u := by
  refine settles_onStore alone h fun v filled =>
    Settles.bind (Settles.act fun w changes x later => ?_)
  have here := filled.later alone changes
  have unfiled : (applyEdit k e w).1.file? = none := by
    have kind : (applyEdit k e w).1.kind = .memory := here.inMemory
    simp [Store.file?, kind]
  simp only [unfiled]
  refine Settles.pure fun y last => ⟨.single (.applyEdit e w), rfl, ?_⟩
  exact (here.edit e).later alone (later.trans last)

-- Whether each call of the transport can be brought to its end.
def Returns (R : Session → Session → Prop) (id : QueueId) (k : StoreId) (size : Nat)
    (t : Transport) : Prop :=
  ∀ batch s steps b u, Ready id k size t s → Trail R (handle t batch) s steps b u →
    ∃ rest r v, Trail R b u rest (.done r) v

theorem settles_handle (alone : Solitary id k R) (returns : Returns R id k size t)
    (h : Filled id k size t flag l s) (batch : List Event) :
    Settles R (handle t batch) s fun steps r u =>
      Passes (handle t batch) steps (.done r) ∧ Filled id k size t flag l u where
  ends trail := returns batch s _ _ _ h.toReady trail
  result trail := by
    have keeps : Keeps (elsewhereFrame id k size t) (handle t batch) :=
      elsewhereFrame_allows.handle t batch fun _ fed => fed
    exact ⟨trail.passes, (trail.keeps keeps alone.elsewhere h.toReady).filled h⟩

theorem settles_wait {α : Type} (clock : ∀ s scheduler, R s { s with scheduler })
    {look : Session → Option α} {leave : Session → Session}
    (happens : ∀ s : Session, look { s with scheduler.timers := [], scheduler.left := 1 } ≠ none) :
    Settles R (Async.await (whenAllowed fun s => (look s, s)) leave) s fun _ _ _ => True := by
  refine Settles.await (fun v => ?_) fun _ _ _ _ _ => trivial
  refine ⟨_, .single (clock v { v.scheduler with timers := [], left := 1 }), ?_⟩
  have seen := whenAllowed_replenished look { v with scheduler.timers := [] }
  rw [seen]
  exact happens v

theorem settles_breathe (clock : ∀ s scheduler, R s { s with scheduler }) :
    Settles R breathe s fun _ _ _ => True := by
  refine Settles.await (fun v => ?_) fun _ _ _ _ _ => trivial
  exact ⟨_, .single (clock v { v.scheduler with left := 1 }), by simp⟩

theorem settles_sleepUntil (clock : ∀ s scheduler, R s { s with scheduler }) (due : Nat) :
    Settles R (sleepUntil due) s fun _ _ _ => True := by
  refine Settles.bind ((settles_breathe clock).mono fun _ _ x _ => ?_)
  refine Settles.bind (Settles.act fun y _ z _ => ?_)
  dsimp only
  cases (y.scheduler.setTimer due).1 with
  | none => exact settles_wait (α := Unit) clock fun _ => nofun
  | some timer => exact settles_wait clock fun v => by simp [Scheduler.isSet]

theorem settles_sleep (clock : ∀ s scheduler, R s { s with scheduler }) (d : Duration) :
    Settles R (sleep d) s fun _ _ _ => True :=
  Settles.bind (Settles.act fun _ _ _ _ => settles_sleepUntil clock _)

theorem settles_deliverToLeaf (clock : ∀ s scheduler, R s { s with scheduler }) (i : LeafId)
    (batch : List Event) : Settles R (deliverToLeaf i batch) s fun _ _ _ => True := by
  refine Settles.bind (Settles.act fun v _ w _ => ?_)
  dsimp only
  cases v.leaf i with
  | scripted x =>
    refine Settles.bind (Settles.act fun _ _ y _ => ?_)
    refine Settles.bind ((settles_sleep clock _).mono fun _ _ z _ => ?_)
    exact Settles.act fun _ _ _ _ => trivial
  | debug | collector => exact Settles.act fun _ _ _ _ => trivial

theorem returns_leaf (alone : Solitary id k R) (i : LeafId) : Returns R id k size (.leaf i) :=
  fun batch _ _ _ _ _ trail => (settles_deliverToLeaf alone.clock i batch).ends trail

def Ticks (s u : Session) : Prop := ∃ scheduler, u = { s with scheduler }

theorem solitary_ticks : Solitary id k Ticks where
  elsewhere := by
    rintro s _ ⟨scheduler, rfl⟩
    exact .scheduler s scheduler
  clock _ scheduler := ⟨scheduler, rfl⟩

end EventTracking.Session
