import EventTracking.Proofs.Async.Finishing
import EventTracking.Proofs.Queue.Flushing
import Mathlib.Data.List.Nodup
import Mathlib.Data.List.Pairwise

set_option autoImplicit false

namespace EventTracking

open Session

structure Fleet where
  start : Session
  queues : List QueueId
  nodup : queues.Nodup
  handoffs : List HandoffId

def Session.stored (s : Session) (id : QueueId) : List Event := (s.store (s.queue id).store).events

namespace Fleet

variable {F : Fleet} {s t u : Session} {id : QueueId}

def store (F : Fleet) (id : QueueId) : StoreId := (F.start.queue id).store

-- Whether one of the queues is drained into this one.
def Feeds (F : Fleet) (inner : QueueId) : Prop :=
  ∃ id ∈ F.queues, ∃ t, (F.start.queue id).transport = some t ∧ inner ∈ queuesOf t

structure Covers (F : Fleet) (trackers : List SessionTracker) : Prop where
  queues : ∀ x ∈ trackers, ∀ id, x.queue = some id → id ∈ F.queues
  handoffs : ∀ x ∈ trackers, ∀ h, x.handoff = some h → h ∈ F.handoffs

structure Sound (F : Fleet) : Prop where
  hasQueue : ∀ id ∈ F.queues, id < F.start.queues.size
  hasStore : ∀ id ∈ F.queues, F.store id < F.start.stores.size
  inMemory : ∀ id ∈ F.queues, (F.start.store (F.store id)).kind = .memory
  batchSize_pos : ∀ id ∈ F.queues, 0 < (F.start.queue id).batchSize
  apart : ∀ inner, F.Feeds inner → ∀ id ∈ F.queues, (F.start.queue inner).store ≠ F.store id
  free : ∀ id ∈ F.queues, (F.start.queue id).processing = false
  settled : ∀ h ∈ F.handoffs, (F.start.handoff h).pending = 0
  -- No two of the events that are stored for any of the queues have the same id.
  distinct : ((F.queues.flatMap F.start.stored).map Event.id).Nodup

structure Intact (F : Fleet) (s : Session) : Prop where
  wires : SameWires F.start s
  hasQueue : ∀ id ∈ F.queues, id < s.queues.size
  hasStore : ∀ id ∈ F.queues, F.store id < s.stores.size
  unshared : ∀ id ∈ F.queues, ∀ id' ∈ F.queues, id ≠ id' → F.store id = F.store id' →
    (s.store (F.store id)).events = []
  settled : ∀ h ∈ F.handoffs, (s.handoff h).pending = 0

structure Beside (F : Fleet) (s t : Session) : Prop where
  wires : SameWires s t
  views : ∀ id ∈ F.queues, queueView id (F.store id) t = queueView id (F.store id) s
  settled : ∀ h ∈ F.handoffs, (t.handoff h).pending = (s.handoff h).pending

theorem Sound.nodup_stored (sound : F.Sound) (mine : id ∈ F.queues) :
    ((F.start.stored id).map Event.id).Nodup := by
  have distinct := sound.distinct
  rw [List.map_flatMap, List.nodup_flatMap] at distinct
  exact distinct.1 id mine

theorem Sound.intact (sound : F.Sound) : F.Intact F.start where
  wires := .refl _
  hasQueue := sound.hasQueue
  hasStore := sound.hasStore
  unshared id mine id' mine' other same := by
    have distinct := sound.distinct
    rw [List.map_flatMap, List.nodup_flatMap] at distinct
    have symm : Std.Symm (Function.onFun List.Disjoint
        fun id => (F.start.stored id).map Event.id) := ⟨fun _ _ apart _ ha hb => apart hb ha⟩
    have disjoint := distinct.2.forall mine mine' other
    refine List.eq_nil_iff_forall_not_mem.2 fun e he => ?_
    have here : e.id ∈ (F.start.stored id).map Event.id := List.mem_map_of_mem he
    have there : e.id ∈ (F.start.stored id').map Event.id := by
      refine List.mem_map_of_mem ?_
      change e ∈ (F.start.store (F.store id')).events
      exact same ▸ he
    exact disjoint here there
  settled := sound.settled

namespace Intact

theorem settings (intact : F.Intact s) (id : QueueId) :
    (s.queue id).store = F.store id ∧ (s.queue id).batchSize = (F.start.queue id).batchSize ∧
      (s.queue id).transport = (F.start.queue id).transport := by
  simpa [Queue.settings, store] using intact.wires.queues id

theorem store_eq (intact : F.Intact s) (id : QueueId) : (s.queue id).store = F.store id :=
  (intact.settings id).1

theorem inMemory (intact : F.Intact s) (sound : F.Sound) (mine : id ∈ F.queues) :
    (s.store (F.store id)).kind = .memory :=
  (intact.wires.stores _).trans (sound.inMemory id mine)

theorem ready (intact : F.Intact s) (sound : F.Sound) (mine : id ∈ F.queues) {x : Transport}
    (wired : (F.start.queue id).transport = some x) :
    Ready id (F.store id) (F.start.queue id).batchSize x s where
  hasQueue := intact.hasQueue id mine
  hasStore := intact.hasStore id mine
  store_eq := intact.store_eq id
  batchSize_eq := (intact.settings id).2.1
  transport_eq := (intact.settings id).2.2.trans wired
  inMemory := intact.inMemory sound mine
  apart inner fed := by
    rw [intact.store_eq inner]
    exact sound.apart inner ⟨id, mine, x, wired, fed⟩ id mine

theorem keep (intact : F.Intact s) (wires : SameWires s t)
    (queues : t.queues.size = s.queues.size) (stores : t.stores.size = s.stores.size)
    (events : ∀ id ∈ F.queues, (s.store (F.store id)).events = [] →
      (t.store (F.store id)).events = [])
    (handoffs : t.handoffs = s.handoffs) : F.Intact t where
  wires := intact.wires.trans wires
  hasQueue id mine := queues ▸ intact.hasQueue id mine
  hasStore id mine := stores ▸ intact.hasStore id mine
  unshared id mine id' mine' other same :=
    events id mine (intact.unshared id mine id' mine' other same)
  settled h mine := by
    have same : t.handoff h = s.handoff h := by rw [handoff, handoffs]; rfl
    rw [same]
    exact intact.settled h mine

theorem setFlag (intact : F.Intact s) (id : QueueId) (processing : Bool) :
    F.Intact (setQueue id { s.queue id with processing } s).2 :=
  intact.keep (.setQueue rfl) Array.size_setIfInBounds rfl (fun _ _ none => none) rfl

theorem note (intact : F.Intact s) (m : Milestone) : F.Intact (Session.note m s).2 :=
  intact.keep (.note m s) rfl rfl (fun _ _ none => none) rfl

theorem remove (intact : F.Intact s) (k : StoreId) (ids : List String) :
    F.Intact (applyEdit k (.remove ids) s).2 := by
  refine intact.keep (.applyEdit _ _ _) rfl Array.size_setIfInBounds (fun id mine none => ?_) rfl
  have set := store_setStore s k (F.store id) ((s.store k).edit (.remove ids))
  have edited : ((applyEdit k (.remove ids) s).2.store (F.store id)) =
      (setStore k ((s.store k).edit (.remove ids)) s).2.store (F.store id) := rfl
  rw [edited, set]
  split
  · next here =>
    rw [here.1]
    change Store.without ids (s.store (F.store id)).events = []
    rw [none]
    rfl
  · exact none

end Intact

namespace Beside

theorem refl (s : Session) : F.Beside s s := ⟨.refl s, fun _ _ => rfl, fun _ _ => rfl⟩

theorem trans (first : F.Beside s t) (second : F.Beside t u) : F.Beside s u where
  wires := first.wires.trans second.wires
  views id mine := (second.views id mine).trans (first.views id mine)
  settled h mine := (second.settled h mine).trans (first.settled h mine)

theorem elsewhere (beside : F.Beside s t) (mine : id ∈ F.queues) :
    Elsewhere id (F.store id) s t := ⟨beside.views id mine, beside.wires⟩

theorem intact (beside : F.Beside s t) (intact : F.Intact s) : F.Intact t where
  wires := intact.wires.trans beside.wires
  hasQueue id mine := by
    have same : (id < t.queues.size) = (id < s.queues.size) :=
      congrArg QueueView.hasQueue (beside.views id mine)
    exact same ▸ intact.hasQueue id mine
  hasStore id mine := by
    have same : (F.store id < t.stores.size) = (F.store id < s.stores.size) :=
      congrArg QueueView.hasStore (beside.views id mine)
    exact same ▸ intact.hasStore id mine
  unshared id mine id' mine' other same :=
    (congrArg QueueView.events (beside.views id mine)).trans
      (intact.unshared id mine id' mine' other same)
  settled h mine := (beside.settled h mine).trans (intact.settled h mine)

theorem of_stock (same : t.stock = s.stock) : F.Beside s t := by
  refine ⟨.of_stock same, fun _ _ => queueView_of_stock same, fun h _ => ?_⟩
  have handoffs : t.handoffs = s.handoffs := congrArg Stock.handoffs same
  rw [handoff, handoffs]
  rfl

end Beside

-- What goes on but for the flushes. The clock may do anything.
structure LeftAlone (F : Fleet) (R : Session → Session → Prop) : Prop where
  beside : ∀ {s t}, R s t → F.Beside s t
  clock : ∀ s scheduler, R s { s with scheduler }

theorem LeftAlone.solitary {R : Session → Session → Prop} (alone : F.LeftAlone R)
    (mine : id ∈ F.queues) : Solitary id (F.store id) R where
  elsewhere change := (alone.beside change).elsewhere mine
  clock := alone.clock

def frame (F : Fleet) : Frame Session where
  always := F.Intact
  quiet := F.Beside
  quiet_refl := .refl
  quiet_trans := .trans
  always_quiet intact beside := beside.intact intact

end Fleet

namespace Session

theorem AllowsSettling.widen {G G' : Frame Session} {h : HandoffId} {queues : QueueId → Prop}
    (allows : AllowsSettling G h queues) (always : ∀ {s}, G'.always s → G.always s)
    (quiet : ∀ {s t}, G.quiet s t → G'.quiet s t) : AllowsSettling G' h queues where
  aside same := quiet (allows.aside same)
  locks id l hs := quiet (allows.locks id l (always hs))
  starts id hs := quiet (allows.starts id (always hs))
  appends events h₀ fed hs := quiet (allows.appends events (always h₀) fed (always hs))
  signals signal hs := quiet (allows.signals signal (always hs))

theorem flushTracker_obeys {L : Type} {P : Protocol Session L} {l : L} {queues : QueueId → Prop}
    {Q : L → Except Error Nat → Prop} (allows : ∀ h, AllowsSettling P.toFrame h queues)
    (rests : P.rests l) {x : SessionTracker} (without : x.queue = none → Q l (.ok 0))
    (flushes : ∀ id, x.queue = some id → Async.Obeys P l (flush id) Q) :
    Async.Obeys P l (flushTracker x) Q := by
  unfold flushTracker
  split
  · next none => exact without none
  · next id some_ =>
    have flushes := flushes id some_
    cases x.handoff with
    | none => exact flushes
    | some h =>
      have waits : Async.Keeps P.toFrame (settled h (pure ())) :=
        (allows h).settled fun s _ => P.quiet_refl s
      exact Async.Obeys.keeps_bind waits rests fun _ => flushes

end Session

namespace Fleet

variable {F : Fleet} {s t u : Session} {id : QueueId}

theorem settling (sound : F.Sound) (h : HandoffId) : AllowsSettling F.frame h F.Feeds where
  aside same := .of_stock (stock_of_setup same)
  locks k lock _ :=
    ⟨.setStore rfl, fun id _ => queueView_setLock id _ k lock _, fun _ _ => rfl⟩
  starts {s} id _ := by
    refine ⟨.ensureRunning id s, fun id' _ => queueView_ensureRunning id' _ id s, fun h _ => ?_⟩
    rw [handoff, (ensureRunning_beside id s).1]
    rfl
  appends {s₀ s inner} events before fed intact := by
    refine ⟨.applyEdit _ _ _, fun id mine => ?_, fun _ _ => rfl⟩
    have other : (s₀.queue inner).store ≠ F.store id := by
      rw [Intact.store_eq before inner]
      exact sound.apart inner fed id mine
    exact queueView_applyEdit_of_ne id other _ (Intact.hasStore intact id mine)
  signals {s} signal _ := by
    refine ⟨.setHandoff rfl, fun _ _ => rfl, fun h' _ => ?_⟩
    rw [handoff_setHandoff]
    split
    · next here => rw [here.1]
    · rfl

end Fleet

end EventTracking
