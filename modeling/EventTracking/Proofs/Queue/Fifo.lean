import EventTracking.Proofs.Async.Crowd
import EventTracking.Proofs.Async.Sole
import EventTracking.Proofs.Queue.View

set_option autoImplicit false

namespace EventTracking

inductive DrainRole where
  | away
  | busy
  | holding (batch : List Event)
  | removing (batch : List Event)

namespace DrainRole

def hasFlag : DrainRole → Bool
  | away => false
  | _ => true

end DrainRole

namespace QueueView

structure Balanced (v : QueueView) : Prop where
  events : v.accepted.flatten ++ v.events = v.written
  removals : v.removals = v.accepted.length

inductive Fits (v : QueueView) : DrainRole → Prop
  | away (balanced : v.Balanced) : Fits v .away
  | busy (balanced : v.Balanced) : Fits v .busy
  | holding {batch : List Event} (balanced : v.Balanced) (front : batch <+: v.events) :
      Fits v (.holding batch)
  | removing {batch rest : List Event} {before : List (List Event)}
      (accepted : v.accepted = before ++ [batch]) (front : v.events = batch ++ rest)
      (events : v.accepted.flatten ++ rest = v.written)
      (removals : v.removals + 1 = v.accepted.length) : Fits v (.removing batch)

theorem Balanced.add {v : QueueView} (h : v.Balanced) (new : List Event) : (v.add new).Balanced :=
  ⟨by rw [QueueView.add, ← List.append_assoc, h.events], h.removals⟩

theorem Fits.add {v : QueueView} {l : DrainRole} (h : v.Fits l) (new : List Event) :
    (v.add new).Fits l := by
  cases h with
  | away balanced => exact .away (balanced.add new)
  | busy balanced => exact .busy (balanced.add new)
  | holding balanced front =>
    exact .holding (balanced.add new) (front.trans (List.prefix_append _ _))
  | @removing batch rest before accepted front events removals =>
    have front' : (v.add new).events = batch ++ (rest ++ new) := by simp [QueueView.add, front]
    refine .removing accepted front' ?_ removals
    simp [QueueView.add, ← events]

theorem Fits.remove {v : QueueView} {batch : List Event} (h : v.Fits (.removing batch))
    (distinct : (v.written.map Event.id).Nodup) :
    { v with
      events := Store.without (Drain.ids batch) v.events
      removals := v.removals + 1 : QueueView }.Balanced := by
  cases h with
  | @removing _ rest before accepted front events removals =>
    -- No event behind the batch has one of its ids, so only the front of the store goes.
    have parts : before.flatten ++ (batch ++ rest) = v.written := by
      rw [← events, accepted]
      simp
    have apart : ((batch ++ rest).map Event.id).Nodup := by
      rw [← parts, List.map_append] at distinct
      exact (List.nodup_append.1 distinct).2.1
    refine ⟨?_, removals⟩
    change v.accepted.flatten ++ Store.without (batch.map Event.id) v.events = v.written
    rw [front, Store.without_append apart, events]

def Distinct (v : QueueView) : Prop := (v.written.map Event.id).Nodup

theorem Distinct.of_add {v : QueueView} {new : List Event} (h : (v.add new).Distinct) :
    v.Distinct := by
  rw [Distinct, add, List.map_append, List.nodup_append] at h
  exact h.1

end QueueView

namespace Session

open Async Change Crowd

variable {id : QueueId} {k : StoreId} {s t : Session}

inductive QueueMove (id : QueueId) (k : StoreId) :
    DrainRole → Session → DrainRole → Session → Prop
  | quiet {l : DrainRole} {s t : Session} (undisturbed : Undisturbed id k s t) :
      QueueMove id k l s l t
  | claim {s t : Session} (free : (queueView id k s).processing = false)
      (view : queueView id k t = { queueView id k s with processing := true }) :
      QueueMove id k .away s .busy t
  | read {s : Session} {batch : List Event} (front : batch <+: (queueView id k s).events) :
      QueueMove id k .busy s (.holding batch) s
  | accept {s t : Session} {batch : List Event}
      (view : queueView id k t =
        { queueView id k s with accepted := (queueView id k s).accepted ++ [batch] }) :
      QueueMove id k (.holding batch) s (.removing batch) t
  | remove {s t : Session} {batch : List Event}
      (view : queueView id k t =
        { queueView id k s with
          events := Store.without (Drain.ids batch) (queueView id k s).events
          removals := (queueView id k s).removals + 1 }) :
      QueueMove id k (.removing batch) s .busy t
  | release {l : DrainRole} {s t : Session} (begun : l = .busy ∨ ∃ batch, l = .holding batch)
      (view : queueView id k t = { queueView id k s with processing := false }) :
      QueueMove id k l s .away t

theorem QueueMove.wired {l l' : DrainRole} (move : QueueMove id k l s l' t)
    (wired : (queueView id k s).Wired k) : (queueView id k t).Wired k := by
  cases move with
  | quiet undisturbed => exact (queueFrame id k).always_quiet wired undisturbed
  | read => exact wired
  | claim _ view | accept view | remove view | release _ view =>
    rw [view]
    exact ⟨wired.hasQueue, wired.hasStore, wired.store_eq, wired.inMemory⟩

def queueProtocol (id : QueueId) (k : StoreId) : Protocol Session DrainRole where
  toFrame := queueFrame id k
  moves := QueueMove id k
  rests _ := True
  moves_quiet _ _ _ _ undisturbed := .quiet undisturbed

def drainRoles : DrainRoles DrainRole where
  away := .away
  busy := .busy
  holding := .holding
  removing := .removing
  empty := .busy
  idle := .away

theorem queueView_unclaim (h : id < s.queues.size) :
    queueView id k (unclaim id s).2 = { queueView id k s with processing := false } := by
  have view := queueView_setQueue id k id (s.queue id).release s
  rw [if_pos ⟨rfl, h⟩] at view
  exact view

theorem queueProtocol_drains :
    Drains (queueProtocol id k) drainRoles id fun _ => True where
  toAllowsDelivery := queueFrame_allows
  rests_away := trivial
  rests_busy := trivial
  rests_holding _ := trivial
  rests_removing _ := trivial
  transports _ _ _ _ := trivial
  claims wired taken := by
    obtain ⟨free, rfl⟩ := Queue.claim?_eq_some.1 taken
    refine .claim free ?_
    rw [queueView_setQueue, if_pos ⟨rfl, wired.hasQueue⟩]
    rfl
  reads {s₀ s batch} wired₀ _ _ window := by
    refine .read ?_
    have sameStore : (s₀.queue id).store = k := wired₀.store_eq
    rw [window, sameStore]
    exact List.take_prefix _ _
  readsNone _ _ _ := .quiet (.of_eq rfl)
  accepts {s batch} _ _ := .accept (queueView_accepted id k batch s)
  removes {s₀ s batch} wired₀ wired := by
    refine .remove ?_
    have sameStore : (s₀.queue id).store = k := wired₀.store_eq
    rw [sameStore, queueView_removed _ _ wired.hasStore]
  refuses {s₀ s _ _} wired₀ wired refused := by
    have sameStore : (s₀.queue id).store = k := wired₀.store_eq
    have memory : (s.store k).kind = .memory := wired.inMemory
    simp [Store.refusal?, sameStore, memory] at refused
  ends_busy wired := .release (.inl rfl) (queueView_unclaim wired.hasQueue)
  ends_holding wired := .release (.inr ⟨_, rfl⟩) (queueView_unclaim wired.hasQueue)
  ends_empty wired := .release (.inl rfl) (queueView_unclaim wired.hasQueue)
  idles _ _ _ := .quiet (.of_eq rfl)

def InOrder (id : QueueId) (k : StoreId) (s : Session) (roles : List DrainRole) : Prop :=
  (queueView id k s).Wired k ∧ ∃ l, Sole DrainRole.hasFlag roles l ∧
    (queueView id k s).processing = l.hasFlag ∧
    ((queueView id k s).Distinct → (queueView id k s).Fits l)

namespace InOrder

variable {roles : List DrainRole} {i : Nat} {l l' : DrainRole}

theorem undisturbed (h : InOrder id k s roles) (change : Undisturbed id k s t) :
    InOrder id k t roles := by
  obtain ⟨wired, l, sole, flag, fits⟩ := h
  have wired' : (queueView id k t).Wired k := (queueFrame id k).always_quiet wired change
  obtain ⟨new, added⟩ := change
  refine ⟨wired', l, sole, ?_, fun distinct => ?_⟩
  · rw [added]
    exact flag
  · rw [added] at distinct ⊢
    exact (fits distinct.of_add).add new

theorem move (h : InOrder id k s roles) (here : roles[i]? = some l)
    (move : QueueMove id k l s l' t) : InOrder id k t (roles.set i l') := by
  have wired := move.wired h.1
  cases move with
  | quiet undisturbed =>
    rw [Sole.set_same here]
    exact h.undisturbed undisturbed
  | claim free view =>
    obtain ⟨_, l₀, sole, flag, fits⟩ := h
    -- The flag was free, so no task is in a drain, and the one that took it is the only one.
    have nobody : l₀.hasFlag = false := flag.symm.trans free
    refine ⟨wired, .busy, sole.take nobody here, ?_, fun distinct => ?_⟩ <;> rw [view] at *
    · rfl
    · cases fits distinct with
      | away balanced => exact .busy ⟨balanced.events, balanced.removals⟩
      | busy | holding | removing => simp [DrainRole.hasFlag] at nobody
  | read front =>
    obtain ⟨_, l₀, sole, flag, fits⟩ := h
    obtain rfl := sole.eq_of_busy here rfl
    refine ⟨wired, _, sole.change rfl here, flag, fun distinct => ?_⟩
    cases fits distinct with
    | busy balanced => exact .holding balanced front
  | accept view =>
    obtain ⟨_, l₀, sole, flag, fits⟩ := h
    obtain rfl := sole.eq_of_busy here rfl
    refine ⟨wired, _, sole.change rfl here, ?_, fun distinct => ?_⟩ <;> rw [view] at *
    · exact flag
    · cases fits distinct with
      | holding balanced front =>
        obtain ⟨rest, whole⟩ := front
        refine .removing rfl whole.symm ?_ ?_
        · simp [← balanced.events, ← whole]
        · simp [balanced.removals]
  | remove view =>
    obtain ⟨_, l₀, sole, flag, fits⟩ := h
    obtain rfl := sole.eq_of_busy here rfl
    refine ⟨wired, _, sole.change rfl here, ?_, fun distinct => ?_⟩ <;> rw [view] at *
    · exact flag
    · exact .busy ((fits distinct).remove distinct)
  | release begun view =>
    obtain ⟨_, l₀, sole, flag, fits⟩ := h
    have flagged : l.hasFlag = true := by rcases begun with rfl | ⟨_, rfl⟩ <;> rfl
    obtain rfl := sole.eq_of_busy here flagged
    refine ⟨wired, _, sole.change flagged here, ?_, fun distinct => ?_⟩ <;> rw [view] at *
    · rfl
    · have balanced : (queueView id k s).Balanced := by
        rcases begun with rfl | ⟨_, rfl⟩
        · cases fits distinct with
          | busy balanced => exact balanced
        · cases fits distinct with
          | holding balanced => exact balanced
      exact .away ⟨balanced.events, balanced.removals⟩

theorem come (h : InOrder id k s roles) (change : Undisturbed id k s t) :
    InOrder id k t (roles ++ [.away]) := by
  obtain ⟨wired, l, sole, flag, fits⟩ := h.undisturbed change
  exact ⟨wired, l, sole.append rfl, flag, fits⟩

end InOrder

def queueDiscipline {E : Setting Session Answer}
    (comes : ∀ {s a t}, E.comes s a t →
      Undisturbed id k s t ∧ Obeys (queueProtocol id k) .away a fun _ _ => True)
    (outside : ∀ {s t}, (queueView id k s).Wired k → E.outside s t → Undisturbed id k s t) :
    Discipline E (queueProtocol id k) (fun _ _ => True) fun _ => True where
  holds := InOrder id k
  always h := h.1
  moves _ _ h here move := h.move here move
  comes _ _ h coming := ⟨.away, (comes coming).2, h.come (comes coming).1⟩
  outside _ _ h change := h.undisturbed (outside h.1 change)

inductive QueueJob (id : QueueId) : Job → Prop
  | loop : QueueJob id (.drains id)
  | push (events : List Event) : QueueJob id (.errand (.push id events))
  | drain : QueueJob id (.errand (.drain id))
  | flush : QueueJob id (.errand (.flush id))
  | awaitIdle (timeout : Nat) : QueueJob id (.errand (.awaitIdle id timeout))
  | describe : QueueJob id (.errand (.describeQueue id))
  -- Any transport may put its batches into the queue.
  | handle (t : Transport) (batch : List Event) : QueueJob id (.errand (.handle t batch))

-- Tasks that use a queue, in any number. From outside, events may be added and anything may happen
-- that neither the queue nor its store take notice of.
def queueSetting (id : QueueId) (k : StoreId) : Setting Session Answer where
  comes s a t := t = s ∧ ∃ job, QueueJob id job ∧ a = Job.task job
  outside := Undisturbed id k

theorem QueueJob.obeys {job : Job} (h : QueueJob id job) :
    Obeys (queueProtocol id k) .away (Job.task job) fun _ _ => True := by
  have D : Drains (queueProtocol id k) drainRoles id fun _ => True := queueProtocol_drains
  cases h with
  | loop => exact (D.drains rfl).mono fun _ _ _ => trivial
  | push events =>
    refine Obeys.keeps_bind (D.push trivial events) trivial fun _ => ?_
    trivial
  | drain =>
    refine Obeys.bind (D.drain.mono fun l r _ => ?_)
    cases r <;> trivial
  | flush =>
    refine Obeys.bind (D.flush.mono fun _ _ _ => ?_)
    trivial
  | awaitIdle timeout =>
    refine Obeys.bind ((D.waitUntilIdle timeout).mono fun _ _ _ => ?_)
    trivial
  | describe =>
    refine Obeys.keeps_bind (D.queueStatus id) trivial fun _ => ?_
    trivial
  | handle t batch =>
    refine Obeys.keeps_bind (D.handle t batch fun _ _ => trivial) trivial fun _ => ?_
    trivial

structure NewQueue (id : QueueId) (k : StoreId) (s : Session) : Prop where
  hasQueue : id < s.queues.size
  hasStore : k < s.stores.size
  store_eq : (s.queue id).store = k
  inMemory : (s.store k).kind = .memory
  idle : (s.queue id).processing = false
  empty : (s.store k).events = []
  nothingWritten : s.ledger.written k = []
  nothingAccepted : s.ledger.accepted id = []
  nothingRemoved : s.ledger.removed k = []

-- Whether a drain stands between the answer of the transport and the end of the deletion.
def IsRemoving (id : QueueId) (k : StoreId) (s : Session) : Prop :=
  (s.ledger.removed k).length < (s.ledger.accepted id).length

instance : Decidable (IsRemoving id k s) := inferInstanceAs (Decidable (_ < _))

theorem NewQueue.inOrder (new : NewQueue id k s) : InOrder id k s [] := by
  refine ⟨⟨new.hasQueue, new.hasStore, new.store_eq, new.inMemory⟩, .away, rfl, new.idle,
    fun _ => .away ⟨?_, ?_⟩⟩
  · simp [queueView, new.empty, new.nothingWritten, new.nothingAccepted]
  · simp [queueView, new.nothingAccepted, new.nothingRemoved]

/-- A queue delivers what was written to it, each event once, and in this order: what its transport
accepted and what is left in the store are what was written. -/
theorem accepted_append_stored {tasks : List (Task Answer)} (new : NewQueue id k s)
    (run : Run (queueSetting id k) ⟨s, []⟩ ⟨t, tasks⟩)
    (distinct : ((t.ledger.written k).map Event.id).Nodup) (settled : ¬ IsRemoving id k t) :
    (t.ledger.accepted id).flatten ++ (t.store k).events = t.ledger.written k := by
  let D : Discipline (queueSetting id k) (queueProtocol id k) (fun _ _ => True) fun _ => True :=
    queueDiscipline (fun ⟨same, job, uses, text⟩ => ⟨same ▸ .of_eq rfl, text ▸ uses.obeys⟩)
      fun _ change => change
  obtain ⟨roles, _, _, l, _, _, fits⟩ := D.run_alone (fun _ _ => trivial) new.inOrder run
  cases fits distinct with
  | away balanced | busy balanced | holding balanced _ => exact balanced.events
  | removing _ _ _ removals =>
    exact absurd (Nat.lt_of_succ_le (Nat.le_of_eq removals)) settled

def sampleQueue : Session where
  leaves := #[
    .scripted { name := "first", script := { failures := 9 } },
    .scripted { name := "second", script := {} }]
  stores := #[{}]
  queues := #[{ batchSize := 2, store := 0, transport := some (.leaf 0) }]

def sampleEvents : List Event :=
  ["a", "b", "c"].map fun id => ⟨"Sample", id, 0, {}, ∅⟩

def sampleDrained : Session :=
  let written := ((Job.task (.errand (.push 0 sampleEvents))).poll 100 sampleQueue).2
  let rejected := ((Job.task (.errand (.drain 0))).poll 100 written).2
  let rewired := (setQueue 0 ((rejected.queue 0).setTransport (.leaf 1)) rejected).2
  ((Job.task (.errand (.drain 0))).poll 100 rewired).2

theorem accepted_append_stored_sample :
    (sampleDrained.ledger.accepted 0).flatten ++ (sampleDrained.store 0).events =
        sampleDrained.ledger.written 0 ∧
      (sampleDrained.ledger.accepted 0).map (·.map Event.id) = [["a", "b"]] := by
  have new : NewQueue 0 0 sampleQueue := by
    constructor <;> first | rfl | decide
  have uses {job : Job} (h : QueueJob 0 job) (s : Session) :
      (queueSetting 0 0).comes s (Job.task job) s := ⟨rfl, job, h, rfl⟩
  have nobody : Run (queueSetting 0 0) ⟨sampleQueue, []⟩ ⟨sampleQueue, []⟩ := .refl
  have written := nobody.trans (Run.come_poll (uses (.push sampleEvents) _) 100)
  have rejected := written.trans (Run.come_poll (uses .drain _) 100)
  have rewired := rejected.tail (.outside (Undisturbed.setTransport 0 (.leaf 1) _))
  have drained := rewired.trans (Run.come_poll (uses .drain _) 100)
  refine ⟨accepted_append_stored new drained (by decide) (by decide), by decide⟩

end Session

end EventTracking
