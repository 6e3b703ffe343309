import EventTracking.Proofs.Queue.Fifo
import EventTracking.Proofs.Queue.GivingUp
import Mathlib.Data.List.Nodup

set_option autoImplicit false

namespace EventTracking

inductive KeepRole where
  | free
  | holding (batch : List Event)
  -- The transport has accepted the batch.
  | removing (batch : List Event)
  | wrote (events : List Event)

-- Events with the same id are the same.
def Unambiguous (events : List Event) : Prop :=
  ∀ a ∈ events, ∀ b ∈ events, a.id = b.id → a = b

theorem Unambiguous.of_distinct {events : List Event} (distinct : (events.map Event.id).Nodup) :
    Unambiguous events := by
  intro a ha b hb same
  exact List.inj_on_of_nodup_map distinct ha hb same

theorem Unambiguous.of_subset {events more : List Event} (h : Unambiguous more)
    (part : events ⊆ more) : Unambiguous events :=
  fun a ha b hb => h a (part ha) b (part hb)

namespace QueueView

structure Placed (k : StoreId) (v : QueueView) : Prop where
  hasQueue : v.hasQueue
  hasStore : v.hasStore
  store_eq : v.store = k

def stocked (initial : List Event) (v : QueueView) : List Event := initial ++ v.written

def Safe (v : QueueView) (e : Event) : Prop := e ∈ v.events ∨ ∃ batch ∈ v.accepted, e ∈ batch

def Knows (initial : List Event) (v : QueueView) : KeepRole → Prop
  | .free => True
  | .holding batch => batch ⊆ v.stocked initial
  | .removing batch => batch ⊆ v.stocked initial ∧ batch ∈ v.accepted
  | .wrote events => events ⊆ v.written

structure Retains (initial : List Event) (v : QueueView) (roles : List KeepRole) : Prop where
  known : v.events ⊆ v.stocked initial
  knows : ∀ l ∈ roles, v.Knows initial l
  safe : Unambiguous (v.stocked initial) → ∀ e ∈ v.stocked initial, v.Safe e

structure Grows (v w : QueueView) : Prop where
  written : v.written ⊆ w.written
  accepted : v.accepted ⊆ w.accepted

variable {initial new batch : List Event} {v w : QueueView} {roles : List KeepRole} {l : KeepRole}

theorem Grows.stocked (grows : Grows v w) : v.stocked initial ⊆ w.stocked initial := by
  intro e he
  rcases List.mem_append.1 he with old | written
  · exact List.mem_append_left _ old
  · exact List.mem_append_right _ (grows.written written)

theorem Knows.grow (grows : Grows v w) (h : v.Knows initial l) : w.Knows initial l := by
  cases l with
  | free => trivial
  | holding batch => exact List.Subset.trans h grows.stocked
  | removing batch => exact ⟨List.Subset.trans h.1 grows.stocked, grows.accepted h.2⟩
  | wrote events => exact List.Subset.trans h grows.written

theorem Retains.grow (h : v.Retains initial roles) (accepted : v.accepted ⊆ w.accepted)
    (written : w.written = v.written ++ new) (events : w.events = v.events ++ new) :
    w.Retains initial roles := by
  have whole : w.stocked initial = v.stocked initial ++ new := by simp [stocked, written]
  have grows : Grows v w := ⟨by simp [written], accepted⟩
  constructor
  · rw [whole, events]
    exact List.append_subset.2 ⟨fun e he => List.mem_append_left _ (h.known he), by simp⟩
  · exact fun l hl => (h.knows l hl).grow grows
  · intro unambiguous e he
    rw [whole] at unambiguous he
    rcases List.mem_append.1 he with old | added
    · have before : Unambiguous (v.stocked initial) := unambiguous.of_subset (by simp)
      rcases h.safe before e old with stored | ⟨batch, taken, inside⟩
      · exact .inl (by simp [events, stored])
      · exact .inr ⟨batch, accepted taken, inside⟩
    · exact .inl (by simp [events, added])

theorem Retains.remove (h : v.Retains initial roles) (accepted : w.accepted = v.accepted)
    (written : w.written = v.written)
    (events : w.events = Store.without (Drain.ids batch) v.events)
    (mine : .removing batch ∈ roles) : w.Retains initial roles := by
  have same : w.stocked initial = v.stocked initial := by simp [stocked, written]
  have grows : Grows v w := ⟨by simp [written], by simp [accepted]⟩
  constructor
  · intro e he
    rw [events] at he
    exact same ▸ h.known (List.mem_of_mem_filter he)
  · exact fun l hl => (h.knows l hl).grow grows
  · intro unambiguous e he
    rw [same] at unambiguous he
    rcases h.safe unambiguous e he with stored | ⟨other, taken, inside⟩
    · by_cases gone : e.id ∈ Drain.ids batch
      · obtain ⟨b, hb, sameId⟩ := List.mem_map.1 gone
        obtain ⟨fromStock, taken⟩ := h.knows _ mine
        obtain rfl : b = e := unambiguous b (fromStock hb) e he sameId
        exact .inr ⟨batch, accepted ▸ taken, hb⟩
      · refine .inl ?_
        rw [events]
        exact List.mem_filter.2 ⟨stored, by simpa using gone⟩
    · exact .inr ⟨other, accepted ▸ taken, inside⟩

theorem Retains.take (h : v.Retains initial roles) (i : Nat) (knows : v.Knows initial l) :
    v.Retains initial (roles.set i l) := by
  refine ⟨h.known, ?_, h.safe⟩
  intro l' hl
  rcases List.mem_or_eq_of_mem_set hl with old | rfl
  · exact h.knows l' old
  · exact knows

end QueueView

namespace Session

open Async Change Crowd

variable {id : QueueId} {k : StoreId} {s t : Session}

def Touched (id : QueueId) (k : StoreId) (s t : Session) : Prop :=
  ∃ new processing kind,
    queueView id k t = { (queueView id k s).add new with processing, kind }

theorem Touched.of_undisturbed (h : Undisturbed id k s t) : Touched id k s t := by
  obtain ⟨new, added⟩ := h
  exact ⟨new, _, _, added⟩

theorem Touched.setQueue {id' : QueueId} {q : Queue} (store : q.store = (s.queue id').store) :
    Touched id k s (setQueue id' q s).2 := by
  by_cases mine : id' = id ∧ id' < s.queues.size
  · obtain ⟨rfl, inside⟩ := mine
    refine ⟨[], q.processing, (queueView id' k s).kind, ?_⟩
    rw [queueView_setQueue, if_pos ⟨rfl, inside⟩, QueueView.add_nil, store]
    rfl
  · refine Touched.of_undisturbed (.of_eq ?_)
    rw [queueView_setQueue, if_neg mine]

def keepFrame (id : QueueId) (k : StoreId) : Frame Session where
  always s := (queueView id k s).Placed k
  quiet := Touched id k
  quiet_refl s := .of_undisturbed (.of_eq rfl)
  quiet_trans := by
    rintro s t u ⟨new, _, _, first⟩ ⟨new', processing, kind, second⟩
    refine ⟨new ++ new', processing, kind, ?_⟩
    rw [second, first]
    simp [QueueView.add]
  always_quiet placed := by
    rintro ⟨new, _, _, view⟩
    rw [view]
    exact ⟨placed.hasQueue, placed.hasStore, placed.store_eq⟩

theorem keepFrame_allows : AllowsGivingUp (keepFrame id k) id where
  aside same := .of_undisturbed (.of_eq (queueView_of_stock (stock_of_setup same)))
  locks _ _ _ := .of_undisturbed (.setStore rfl rfl)
  starts id' _ := .of_undisturbed (.ensureRunning id' _)
  appends events _ _ placed := .of_undisturbed (.append _ events placed.hasStore)
  releases _ := .setQueue rfl

inductive KeepMove (id : QueueId) (k : StoreId) : KeepRole → Session → KeepRole → Session → Prop
  | quiet {l : KeepRole} {s t : Session} (touched : Touched id k s t) : KeepMove id k l s l t
  | leave {l : KeepRole} {s t : Session} (touched : Touched id k s t) : KeepMove id k l s .free t
  | read {s : Session} {batch : List Event} (stored : batch ⊆ (queueView id k s).events) :
      KeepMove id k .free s (.holding batch) s
  | accept {s t : Session} {batch : List Event}
      (view : queueView id k t =
        { queueView id k s with accepted := (queueView id k s).accepted ++ [batch] }) :
      KeepMove id k (.holding batch) s (.removing batch) t
  | remove {s t : Session} {batch : List Event}
      (view : queueView id k t =
        { queueView id k s with
          events := Store.without (Drain.ids batch) (queueView id k s).events
          removals := (queueView id k s).removals + 1 }) :
      KeepMove id k (.removing batch) s .free t
  | write {s t : Session} {events : List Event}
      (view : queueView id k t = (queueView id k s).add events) :
      KeepMove id k .free s (.wrote events) t

def keepProtocol (id : QueueId) (k : StoreId) : Protocol Session KeepRole where
  toFrame := keepFrame id k
  moves := KeepMove id k
  rests _ := True
  moves_quiet _ _ _ _ touched := .quiet touched

def keepRoles : DrainRoles KeepRole where
  away := .free
  busy := .free
  holding := .holding
  removing := .removing
  empty := .free
  idle := .free

theorem keepProtocol_drains : Drains (keepProtocol id k) keepRoles id fun _ => True where
  toAllowsDelivery := keepFrame_allows.toAllowsDelivery
  rests_away := trivial
  rests_busy := trivial
  rests_holding _ := trivial
  rests_removing _ := trivial
  transports _ _ _ _ := trivial
  claims _ taken := by
    obtain ⟨_, rfl⟩ := Queue.claim?_eq_some.1 taken
    exact .quiet (.setQueue rfl)
  reads {s₀ s batch} placed₀ _ _ window := by
    apply KeepMove.read
    have sameStore : (s₀.queue id).store = k := placed₀.store_eq
    rw [window, sameStore]
    exact (List.take_prefix _ _).subset
  readsNone _ _ _ := .quiet (.of_undisturbed (.of_eq rfl))
  accepts {s batch} _ _ := .accept (queueView_accepted id k batch s)
  removes {s₀ s batch} placed₀ placed := by
    apply KeepMove.remove
    have sameStore : (s₀.queue id).store = k := placed₀.store_eq
    rw [sameStore, queueView_removed _ _ placed.hasStore]
  refuses _ _ _ := .leave (.of_undisturbed (.of_eq rfl))
  ends_busy _ := .quiet (.setQueue rfl)
  ends_holding _ := .leave (.setQueue rfl)
  ends_empty _ := .quiet (.setQueue rfl)
  idles _ _ _ := .quiet (.of_undisturbed (.of_eq rfl))

def Kept (id : QueueId) (k : StoreId) (initial : List Event) (s : Session)
    (roles : List KeepRole) : Prop :=
  (queueView id k s).Placed k ∧ (queueView id k s).Retains initial roles

namespace Kept

variable {initial : List Event} {roles : List KeepRole} {i : Nat} {l l' : KeepRole}

theorem touch (h : Kept id k initial s roles) (touched : Touched id k s t) :
    Kept id k initial t roles := by
  refine ⟨(keepFrame id k).always_quiet h.1 touched, ?_⟩
  obtain ⟨new, _, _, view⟩ := touched
  rw [view]
  exact h.2.grow (List.Subset.refl _) rfl rfl

theorem move (h : Kept id k initial s roles) (here : roles[i]? = some l)
    (move : KeepMove id k l s l' t) : Kept id k initial t (roles.set i l') := by
  have mine : l ∈ roles := List.mem_of_getElem? here
  cases move with
  | quiet touched =>
    rw [Sole.set_same here]
    exact h.touch touched
  | leave touched => exact ⟨(h.touch touched).1, (h.touch touched).2.take i trivial⟩
  | read stored => exact ⟨h.1, h.2.take i (List.Subset.trans stored h.2.known)⟩
  | accept view =>
    obtain ⟨placed, retains⟩ := h
    have held := retains.knows _ mine
    rw [Kept, view]
    refine ⟨⟨placed.hasQueue, placed.hasStore, placed.store_eq⟩, ?_⟩
    apply QueueView.Retains.take
    · exact retains.grow (by simp) (List.append_nil _).symm (List.append_nil _).symm
    · exact ⟨held, by simp⟩
  | remove view =>
    obtain ⟨placed, retains⟩ := h
    rw [Kept, view]
    refine ⟨⟨placed.hasQueue, placed.hasStore, placed.store_eq⟩, ?_⟩
    have removed := retains.remove (w := { queueView id k s with
      events := Store.without (Drain.ids _) (queueView id k s).events
      removals := (queueView id k s).removals + 1 }) rfl rfl rfl mine
    exact removed.take i trivial
  | write view =>
    obtain ⟨placed, retains⟩ := h
    rw [Kept, view]
    refine ⟨⟨placed.hasQueue, placed.hasStore, placed.store_eq⟩, ?_⟩
    apply QueueView.Retains.take
    · exact retains.grow (List.Subset.refl _) rfl rfl
    · exact List.subset_append_right _ _

theorem come (h : Kept id k initial s roles) : Kept id k initial s (roles ++ [.free]) := by
  refine ⟨h.1, h.2.known, ?_, h.2.safe⟩
  intro l hl
  rcases List.mem_append.1 hl with old | new
  · exact h.2.knows l old
  · rw [List.mem_singleton.1 new]
    trivial

end Kept

def answering (job : Job) : Task (Job × Answer) := return (job, ← Job.task job)

inductive StoppableJob (id : QueueId) : Job → Prop
  | uses {job : Job} (h : QueueJob id job) : StoppableJob id job
  | stops : StoppableJob id (.errand (.stopQueue id))

inductive QueueChange (id : QueueId) (k : StoreId) : Session → Session → Prop
  | setTransport (t : Transport) (s : Session) :
      QueueChange id k s (setQueue id ((s.queue id).setTransport t) s).2
  | run (t : Transport) (s : Session) :
      QueueChange id k s (startLoop id (fun q task => q.run t task) s).2
  | ensureRunning (s : Session) : QueueChange id k s (ensureRunning id s).2
  | other {s t : Session} (touched : Touched id k s t) : QueueChange id k s t

theorem QueueChange.touched (h : QueueChange id k s t) : Touched id k s t := by
  cases h with
  | setTransport => exact .of_undisturbed (.setTransport id _ s)
  | run inner =>
    obtain ⟨task, view⟩ := queueView_startLoop id k id (fun q task => q.run inner task) s
    have set : Touched id k s (setQueue id ((s.queue id).run inner task).2 s).2 := by
      apply Touched.setQueue
      unfold Queue.run
      split
      · rfl
      · cases task <;> rfl
    obtain ⟨new, processing, kind, touched⟩ := set
    exact ⟨new, processing, kind, view.trans touched⟩
  | ensureRunning => exact .of_undisturbed (.ensureRunning id s)
  | other touched => exact touched

theorem Touched.stopLoop (id' : QueueId) (s : Session) : Touched id k s (stopLoop id' s).2 := by
  have view : queueView id k (Session.stopLoop id' s).2 =
      queueView id k (Session.setQueue id' (s.queue id').stop.2 s).2 :=
    queueView_of_stock (stopLoop_stock id' s)
  have set : Touched id k s (Session.setQueue id' (s.queue id').stop.2 s).2 := by
    apply Touched.setQueue
    unfold Queue.stop
    split <;> rfl
  obtain ⟨new, processing, kind, touched⟩ := set
  exact ⟨new, processing, kind, view.trans touched⟩

def AnswersFor (id : QueueId) (l : KeepRole) (answered : Job × Answer) : Prop :=
  ∀ events, answered = (.errand (.push id events), .done) → l = .wrote events

def stoppableSetting (id : QueueId) (k : StoreId) : Setting Session (Job × Answer) where
  comes s a t := t = s ∧ ∃ job, StoppableJob id job ∧ a = answering job
  outside := QueueChange id k

section Jobs

variable {job : Job}

theorem keeps_stop (id : QueueId) (k : StoreId) : Keeps (keepFrame id k) (stop id) :=
  keepFrame_allows.stop id fun s _ => Touched.stopLoop id s

theorem StoppableJob.abandons (h : StoppableJob id job) :
    Abandons (keepFrame id k) (answering job) := by
  have allows : AllowsGivingUp (keepFrame id k) id := keepFrame_allows
  refine Confined.bind ?_ fun _ => Confined.pure _
  cases h with
  | stops => exact (keeps_stop id k).abandons.bind fun _ => Confined.pure _
  | uses h =>
    cases h with
    | loop => exact allows.drains
    | push events => exact (allows.abandons_push id events).bind fun _ => Confined.pure _
    | drain =>
      refine allows.drain.bind fun r => ?_
      cases r <;> exact Confined.pure _
    | flush => exact allows.flush.bind fun _ => Confined.pure _
    | awaitIdle timeout =>
      exact (allows.waitUntilIdle id timeout).abandons.bind fun _ => Confined.pure _
    | describe =>
      exact (allows.queueStatus id).abandons.bind fun _ => Confined.pure _
    | handle t batch =>
      have handles := allows.handle t batch fun _ _ => trivial
      exact handles.abandons.bind fun _ => Confined.pure _

theorem obeys_push (events : List Event) :
    Obeys (keepProtocol id k) .free (push id events) fun l r => r = .ok () → l = .wrote events := by
  have allows : AllowsDelivery (keepFrame id k) fun _ => True := keepFrame_allows.toAllowsDelivery
  refine Obeys.bind (Obeys.act fun s₀ placed₀ => ⟨.free, .quiet (.of_undisturbed (.of_eq rfl)), ?_⟩)
  apply allows.obeys_editStore trivial
  · intro s e _ _
    refine ⟨.free, .quiet (.of_undisturbed (.of_eq rfl)), ?_⟩
    intro succeeded
    cases succeeded
  · intro s placed
    refine ⟨.wrote events, KeepMove.write ?_, trivial, fun _ _ => rfl⟩
    have sameStore : (s₀.queue id).store = k := placed₀.store_eq
    dsimp only
    rw [sameStore, queueView_appended _ _ placed.hasStore]

theorem StoppableJob.obeys (h : StoppableJob id job) :
    Obeys (keepProtocol id k) .free (answering job) (AnswersFor id) := by
  have D : Drains (keepProtocol id k) keepRoles id fun _ => True := keepProtocol_drains
  -- Only a push has to be followed to its answer.
  have other {job : Job} (no : ∀ events, job ≠ .errand (.push id events)) (l : KeepRole)
      (a : Answer) : AnswersFor id l (job, a) := by
    intro events same
    exact absurd (congrArg Prod.fst same) (no events)
  cases h with
  | stops =>
    refine Obeys.keeps_bind ((keeps_stop id k).bind fun _ => Confined.pure _) trivial fun a => ?_
    exact other (by simp) _ a
  | uses h =>
    cases h with
    | loop => exact Obeys.bind ((D.drains rfl).mono fun l a _ => other (by simp) l a)
    | push events =>
      refine Obeys.bind (Obeys.bind ((obeys_push events).mono fun l r wrote => ?_))
      intro events' same
      obtain ⟨rfl⟩ : events = events' := by simpa using congrArg Prod.fst same
      cases r with
      | ok => exact wrote rfl
      | error => simp [Answer.ofUnit] at same
    | drain =>
      refine Obeys.bind (Obeys.bind (D.drain.mono fun l r _ => ?_))
      cases r <;> exact other (by simp) l _
    | flush => exact Obeys.bind (Obeys.bind (D.flush.mono fun l r _ => other (by simp) l _))
    | awaitIdle timeout =>
      exact Obeys.bind (Obeys.bind ((D.waitUntilIdle timeout).mono fun l r _ => other (by simp) l _))
    | describe =>
      refine Obeys.keeps_bind ((D.queueStatus id).bind fun _ => Confined.pure _) trivial fun a => ?_
      exact other (by simp) _ a
    | handle t batch =>
      have handles := D.handle t batch fun _ _ => trivial
      refine Obeys.keeps_bind (handles.bind fun _ => Confined.pure _) trivial fun a => ?_
      exact other (by simp) _ a

end Jobs

def keepDiscipline (id : QueueId) (k : StoreId) (initial : List Event) :
    Discipline (stoppableSetting id k) (keepProtocol id k) (AnswersFor id) fun _ => True where
  holds := Kept id k initial
  always h := h.1
  moves _ _ h here move := h.move here move
  comes _ _ h := by
    rintro ⟨rfl, job, stoppable, rfl⟩
    exact ⟨.free, stoppable.obeys, h.come⟩
  outside _ _ h change := h.touch change.touched

structure OpenQueue (id : QueueId) (k : StoreId) (s : Session) : Prop where
  hasQueue : id < s.queues.size
  hasStore : k < s.stores.size
  store_eq : (s.queue id).store = k
  nothingWritten : s.ledger.written k = []

theorem OpenQueue.kept (opened : OpenQueue id k s) : Kept id k (s.store k).events s [] := by
  have stocked : (queueView id k s).stocked (s.store k).events = (s.store k).events := by
    simp [QueueView.stocked, queueView, opened.nothingWritten]
  refine ⟨⟨opened.hasQueue, opened.hasStore, opened.store_eq⟩, ?_⟩
  constructor
  · rw [stocked]
    exact List.Subset.refl _
  · simp
  · intro _ e he
    rw [stocked] at he
    exact .inl he

-- Whether an event is still stored, or was in a batch that the transport accepted.
def IsRetained (id : QueueId) (k : StoreId) (s : Session) (e : Event) : Prop :=
  e ∈ (s.store k).events ∨ ∃ batch ∈ s.ledger.accepted id, e ∈ batch

/-- Whatever is given up and whatever fails, a queue loses no event: neither one that the store held
at first, nor one that was written to it, nor one whose push succeeded. -/
theorem retained_or_accepted {c : Crowd Session (Job × Answer)} (opened : OpenQueue id k s)
    (course : Course (stoppableSetting id k) ⟨s, []⟩ c)
    (unambiguous : Unambiguous ((s.store k).events ++ c.state.ledger.written k)) :
    (∀ e ∈ (s.store k).events ++ c.state.ledger.written k, IsRetained id k c.state e) ∧
      ∀ events, Async.done (.errand (.push id events), .done) ∈ c.tasks →
        ∀ e ∈ events, IsRetained id k c.state e := by
  have harmless {s t : Session} {a : Task (Job × Answer)} :
      (stoppableSetting id k).comes s a t → Abandons (keepFrame id k) a := by
    rintro ⟨_, job, stoppable, rfl⟩
    exact stoppable.abandons
  obtain ⟨roles, manned, _, retains⟩ :=
    (keepDiscipline id k (s.store k).events).course (fun _ => trivial) harmless opened.kept course
  have safe := retains.safe unambiguous
  refine ⟨safe, ?_⟩
  intro events answered e he
  obtain ⟨i, found⟩ := List.mem_iff_getElem?.1 answered
  obtain ⟨inside, _⟩ := List.getElem?_eq_some_iff.1 found
  have within : i < roles.length := manned.length_eq ▸ inside
  have role := List.getElem?_eq_getElem within
  have wrote : roles[i] = .wrote events := manned.obeys role found events rfl
  have knows := retains.knows _ (List.mem_of_getElem? role)
  rw [wrote] at knows
  exact safe e (List.mem_append_right _ (knows he))

def sampleFile : Session where
  leaves := #[.scripted { name := "slow", script := { delay := 10 } }]
  stores := #[{ kind := .file "queue" }]
  queues := #[{ batchSize := 2, store := 0, transport := some (.leaf 0) }]

def queuedEvent (id : String) : Event := ⟨"Queued", id, 0, {}, ∅⟩

def answerWrite (ticket : Nat) (r : Except FileFault Unit) (s : Session) : Session :=
  { s with writes := [], writeResults := (ticket, r) :: s.writeResults }

def endSleeps (s : Session) : Session :=
  { s with scheduler := { s.scheduler with timers := [] } }

def sampleGivenUp : Crowd Session (Job × Answer) :=
  let first : Crowd Session (Job × Answer) := ⟨sampleFile, []⟩
  let pushed := first.enter 100 (answering (.errand (.push 0 [queuedEvent "a"])))
  let stored := (pushed.change (answerWrite 0 (.ok ()))).poll 100 0
  let drained := stored.enter 100 (answering (.errand (.drain 0)))
  let second := drained.enter 100 (answering (.errand (.push 0 [queuedEvent "b"])))
  let accepted := (second.change endSleeps).poll 100 1
  ((accepted.giveUp 1).change (answerWrite 1 (.error .isADirectory))).poll 100 2

theorem retained_or_accepted_sample :
    (∀ e ∈ [queuedEvent "a"], IsRetained 0 0 sampleGivenUp.state e) ∧
      (sampleGivenUp.state.ledger.accepted 0).map (·.map Event.id) = [["a"]] ∧
      (sampleGivenUp.state.store 0).events.map Event.id = ["a", "b"] := by
  have opened : OpenQueue 0 0 sampleFile := by
    constructor <;> first | rfl | decide
  have uses {job : Job} (h : StoppableJob 0 job) (s : Session) :
      (stoppableSetting 0 0).comes s (answering job) s := ⟨rfl, job, h, rfl⟩
  have aside {s t : Session} (same : t.stock = s.stock) : (stoppableSetting 0 0).outside s t :=
    .other (.of_undisturbed (.of_eq (queueView_of_stock same)))
  have nobody : Course (stoppableSetting 0 0) ⟨sampleFile, []⟩ ⟨sampleFile, []⟩ := .refl
  have pushed := nobody.enter 100 (uses (.uses (.push [queuedEvent "a"])) _)
  have stored := (pushed.change (f := answerWrite 0 (.ok ())) (aside rfl)).poll 100 0
  have drained := stored.enter 100 (uses (.uses .drain) _)
  have second := drained.enter 100 (uses (.uses (.push [queuedEvent "b"])) _)
  have accepted := (second.change (f := endSleeps) (aside rfl)).poll 100 1
  have failed := ((accepted.giveUp 1).change (f := answerWrite 1 (.error .isADirectory))
    (aside rfl)).poll 100 2
  have unambiguous : Unambiguous ((sampleFile.store 0).events ++
      sampleGivenUp.state.ledger.written 0) := .of_distinct (by decide)
  have answered : Async.done (.errand (.push 0 [queuedEvent "a"]), .done) ∈ sampleGivenUp.tasks :=
    List.mem_of_getElem? (i := 0) rfl
  exact ⟨(retained_or_accepted opened failed unambiguous).2 _ answered, by decide, by decide⟩

end Session

end EventTracking
