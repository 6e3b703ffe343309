import EventTracking.Proofs.Family.Wiring
import EventTracking.Proofs.Queue.Rejection
import EventTracking.Proofs.Queue.Retention

set_option autoImplicit false

namespace EventTracking

namespace Store

def matching (ids : List String) (events : List Event) : List Event :=
  events.filter fun e => ids.contains e.id

variable {ids : List String} {events batch rest : List Event}

theorem length_without (ids : List String) (events : List Event) :
    (without ids events).length + (matching ids events).length = events.length := by
  rw [Nat.add_comm]
  exact (List.length_eq_length_filter_add fun e : Event => ids.contains e.id).symm

theorem without_eq_self : without ids events = events ↔ matching ids events = [] := by
  simp [without, matching, List.filter_eq_self, List.filter_eq_nil_iff]

theorem without_batch (batch rest : List Event) :
    without (Drain.ids batch) (batch ++ rest) = without (Drain.ids batch) rest := by
  have gone : without (Drain.ids batch) batch = [] := by
    apply List.filter_eq_nil_iff.2
    intro e he
    have inside : e.id ∈ Drain.ids batch := List.mem_map_of_mem he
    simpa using inside
  rw [without, List.filter_append]
  exact congrArg (· ++ _) gone

end Store

inductive Haul where
  | away
  | taken (batch : List Event)
  | accepted (batch : List Event)
  | gone (batch : List Event)

namespace QueueView

structure Front (size : Nat) (o : QueueView) (early batch behind : List Event) : Prop where
  split : o.events ++ early = batch ++ behind
  batch_eq : batch = Store.window size 0 (o.events ++ early)

structure Carried (size : Nat) (o v : QueueView) (early batch behind during : List Event) :
    Prop where
  front : Front size o early batch behind
  events : v.events = batch ++ (behind ++ during)
  written : v.written = o.written ++ early ++ during

-- A batch was delivered and its ids were removed. Events were pushed before it was read, while it
-- was under way, and after it had left.
structure Departed (size : Nat) (o v : QueueView) (early batch behind during late : List Event) :
    Prop where
  front : Front size o early batch behind
  events : v.events = Store.without (Drain.ids batch) (behind ++ during) ++ late
  written : v.written = o.written ++ early ++ during ++ late
  accepted : v.accepted = o.accepted ++ [batch]

def Stands (size : Nat) (o v : QueueView) : Haul → Prop
  | .away => ∃ early, v.events = o.events ++ early ∧ v.written = o.written ++ early ∧
      v.accepted = o.accepted
  | .taken batch => (∃ early behind during, Carried size o v early batch behind during) ∧
      v.accepted = o.accepted
  | .accepted batch => (∃ early behind during, Carried size o v early batch behind during) ∧
      v.accepted = o.accepted ++ [batch]
  | .gone batch => ∃ early behind during late, Departed size o v early batch behind during late

variable {size : Nat} {o v w : QueueView} {new early batch behind during : List Event} {l : Haul}

theorem Carried.push (h : Carried size o v early batch behind during)
    (events : w.events = v.events ++ new) (written : w.written = v.written ++ new) :
    Carried size o w early batch behind (during ++ new) :=
  ⟨h.front, by simp [events, h.events], by simp [written, h.written]⟩

theorem Stands.push (h : Stands size o v l) (events : w.events = v.events ++ new)
    (written : w.written = v.written ++ new) (accepted : w.accepted = v.accepted) :
    Stands size o w l := by
  cases l with
  | away =>
    obtain ⟨early, stored, all, before⟩ := h
    exact ⟨early ++ new, by simp [events, stored], by simp [written, all], accepted.trans before⟩
  | taken batch | accepted batch =>
    obtain ⟨⟨early, behind, during, carried⟩, before⟩ := h
    exact ⟨⟨early, behind, during ++ new, carried.push events written⟩, accepted.trans before⟩
  | gone batch =>
    obtain ⟨early, behind, during, late, departed⟩ := h
    exact ⟨early, behind, during, late ++ new, departed.front, by simp [events, departed.events],
      by simp [written, departed.written], accepted.trans departed.accepted⟩

theorem Stands.read (h : Stands size o v .away) :
    Stands size o v (.taken (Store.window size 0 v.events)) := by
  obtain ⟨early, stored, all, before⟩ := h
  have split : v.events = Store.window size 0 v.events ++ v.events.drop size :=
    (List.take_append_drop size _).symm
  refine ⟨⟨early, v.events.drop size, [], ⟨?_, ?_⟩, ?_, ?_⟩, before⟩
  · rw [← stored]
    exact split
  · rw [stored]
  · rw [List.append_nil]
    exact split
  · rw [List.append_nil, all]

theorem Stands.accept (h : Stands size o v (.taken batch)) (events : w.events = v.events)
    (written : w.written = v.written) (accepted : w.accepted = v.accepted ++ [batch]) :
    Stands size o w (.accepted batch) := by
  obtain ⟨⟨early, behind, during, carried⟩, before⟩ := h
  refine ⟨⟨early, behind, during, carried.front, ?_, ?_⟩, by rw [accepted, before]⟩
  · exact events.trans carried.events
  · exact written.trans carried.written

theorem Stands.remove (h : Stands size o v (.accepted batch))
    (events : w.events = Store.without (Drain.ids batch) v.events)
    (written : w.written = v.written) (accepted : w.accepted = v.accepted) :
    Stands size o w (.gone batch) := by
  obtain ⟨⟨early, behind, during, carried⟩, before⟩ := h
  rw [carried.events, Store.without_batch] at events
  refine ⟨early, behind, during, [], carried.front, ?_, ?_, accepted.trans before⟩
  · rw [List.append_nil, events]
  · rw [List.append_nil, written, carried.written]

end QueueView

namespace Session

open Async Change

variable {id : QueueId} {k : StoreId} {size : Nat} {o : QueueView} {s t : Session} {l : Haul}

-- What others may do to a queue while one drain has the flag: add events to its store.
structure Supplied (id : QueueId) (k : StoreId) (s t : Session) : Prop where
  touched : Touched id k s t
  batchSize : (t.queue id).batchSize = (s.queue id).batchSize

theorem Supplied.of_wires (touched : Touched id k s t) (wires : SameWires s t) :
    Supplied id k s t :=
  ⟨touched, congrArg (fun settings => settings.2.1) (wires.queues id)⟩

def supplyFrame (id : QueueId) (k : StoreId) (size : Nat) : Frame Session where
  always s := (queueView id k s).Placed k ∧ (s.queue id).batchSize = size
  quiet := Supplied id k
  quiet_refl s := ⟨(keepFrame id k).quiet_refl s, rfl⟩
  quiet_trans first second :=
    ⟨(keepFrame id k).quiet_trans first.touched second.touched,
      second.batchSize.trans first.batchSize⟩
  always_quiet always quiet :=
    ⟨(keepFrame id k).always_quiet always.1 quiet.touched, quiet.batchSize.trans always.2⟩

theorem supplyFrame_allows : AllowsDelivery (supplyFrame id k size) fun _ => True where
  aside same := .of_wires (keepFrame_allows.aside same) (.of_stock (stock_of_setup same))
  locks k' lock always := .of_wires (keepFrame_allows.locks k' lock always.1) (.setStore rfl)
  starts id' always := .of_wires (keepFrame_allows.starts id' always.1) (.ensureRunning id' _)
  appends events always₀ mine always :=
    .of_wires (keepFrame_allows.appends events always₀.1 mine always.1) (.applyEdit _ _ _)

theorem Supplied.setFlag (processing : Bool) (s : Session) :
    Supplied id k s (setQueue id { s.queue id with processing } s).2 :=
  .of_wires (.setQueue rfl) (.setQueue rfl)

def hauling (id : QueueId) (k : StoreId) (size : Nat) (o : QueueView) : Protocol Session Haul where
  toFrame := supplyFrame id k size
  moves l s l' t := (supplyFrame id k size).always t ∧
    (QueueView.Stands size o (queueView id k s) l → QueueView.Stands size o (queueView id k t) l')
  rests _ := True
  moves_quiet l s t always quiet := by
    refine ⟨(supplyFrame id k size).always_quiet always quiet, fun stands => ?_⟩
    obtain ⟨new, processing, kind, view⟩ := quiet.touched
    rw [view]
    exact stands.push rfl rfl rfl

def Hauls (l : Haul) : Drain.Phase → Prop
  | .reading _ => l = .away
  | .delivering _ batch => l = .taken batch
  | .deleting ids => ∃ batch, ids = Drain.ids batch ∧ l = .accepted batch
  | .ended r => ∀ n, r = .ok (.delivered n) → ∃ batch, l = .gone batch ∧ n = batch.length

theorem hauls_ended {r : Except Error Drain.Outcome} (other : ∀ n, r ≠ .ok (.delivered n)) :
    Hauls l (.ended r) :=
  fun n same => absurd same (other n)

theorem hauls_opening (usable : Transport → Bool) (q : Queue) :
    Hauls .away (Drain.opening usable q) := by
  unfold Drain.opening
  split
  · exact hauls_ended nofun
  · split
    · rfl
    · exact hauls_ended nofun

theorem hauling_stays (always : (supplyFrame id k size).always s) :
    (hauling id k size o).moves l s l s :=
  (hauling id k size o).moves_quiet l always ((supplyFrame id k size).quiet_refl s)

theorem hauling_reads {s₀ : Session} (t : Transport) (always₀ : (supplyFrame id k size).always s₀)
    (always : (supplyFrame id k size).always s) :
    ∃ l, (hauling id k size o).moves .away s l s ∧ Hauls l (Drain.read t
      (.ok (Store.window (s₀.queue id).batchSize 0 (s.store (s₀.queue id).store).events))) := by
  have sameStore : (s₀.queue id).store = k := always₀.1.store_eq
  rw [always₀.2, sameStore]
  cases found : Store.window size 0 (s.store k).events with
  | nil => exact ⟨.away, hauling_stays always, hauls_ended nofun⟩
  | cons e rest =>
    refine ⟨.taken (e :: rest), ⟨always, fun stands => ?_⟩, rfl⟩
    rw [← found]
    exact stands.read

theorem hauling_accepts (batch : List Event) (always : (supplyFrame id k size).always s) :
    (hauling id k size o).moves (.taken batch) s (.accepted batch)
      (note (.accepted id batch) s).2 := by
  have view := queueView_accepted id k batch s
  refine ⟨⟨?_, always.2⟩, fun stands => ?_⟩
  · rw [view]
    exact ⟨always.1.hasQueue, always.1.hasStore, always.1.store_eq⟩
  · rw [view]
    exact stands.accept rfl rfl rfl

theorem hauling_removes {s₀ : Session} (batch : List Event)
    (always₀ : (supplyFrame id k size).always s₀) (always : (supplyFrame id k size).always s) :
    (hauling id k size o).moves (.accepted batch) s (.gone batch)
      (applyEdit (s₀.queue id).store (.remove (Drain.ids batch)) s).2 := by
  have sameStore : (s₀.queue id).store = k := always₀.1.store_eq
  have view := queueView_removed id (Drain.ids batch) always.1.hasStore
  rw [sameStore]
  refine ⟨⟨?_, always.2⟩, fun stands => ?_⟩
  · rw [view]
    exact ⟨always.1.hasQueue, always.1.hasStore, always.1.store_eq⟩
  · rw [view]
    exact stands.remove rfl rfl rfl

theorem hauls_phase (p : Drain.Phase) (hauls : Hauls l p) :
    Obeys (hauling id k size o) l (drainPhase id p) fun l =>
      Sum.elim (Hauls l) fun r => Hauls l (.ended r) := by
  have allows : AllowsDelivery (hauling id k size o).toFrame fun _ => True := supplyFrame_allows
  cases p with
  | reading t =>
    obtain rfl := hauls
    refine Obeys.bind (Obeys.act fun s₀ always₀ => ⟨.away, hauling_stays always₀, ?_⟩)
    refine Obeys.bind (allows.obeys_onStore trivial _ _ (fun s e always _ => ?_) ?_)
    · exact ⟨.away, hauling_stays always, hauls_ended nofun⟩
    · exact Obeys.act fun s always => hauling_reads t always₀ always
  | delivering t batch =>
    obtain rfl := hauls
    refine Obeys.keeps_bind (allows.handle t batch fun _ _ => trivial) trivial fun r => ?_
    cases r with
    | ok =>
      exact Obeys.bind (Obeys.act fun s always =>
        ⟨.accepted batch, hauling_accepts batch always, batch, rfl, rfl⟩)
    | error e => exact hauls_ended nofun
  | deleting ids =>
    obtain ⟨batch, rfl, rfl⟩ := hauls
    refine Obeys.bind (Obeys.act fun s₀ always₀ => ⟨_, hauling_stays always₀, ?_⟩)
    refine Obeys.bind (allows.obeys_editStore trivial _ _ (fun s e always _ => ?_)
      fun s always => ⟨_, hauling_removes batch always₀ always, trivial, fun r => ?_⟩)
    · exact ⟨_, hauling_stays always, hauls_ended nofun⟩
    · cases r with
      | ok =>
        rintro n ⟨⟩
        exact ⟨batch, rfl, List.length_map _⟩
      | error e => exact hauls_ended nofun
  | ended r => exact hauls

theorem hauls_drain :
    Obeys (hauling id k size o) .away (drain id) fun l r => Hauls l (.ended r) := by
  have release {l : Haul} {s : Session} (always : (supplyFrame id k size).always s) :
      (hauling id k size o).moves l s l (unclaim id s).2 :=
    (hauling id k size o).moves_quiet l always (.setFlag false s)
  refine Obeys.bind (Obeys.act fun s always => ?_)
  cases taken : (s.queue id).claim? with
  | none =>
    rw [claim_of_none taken]
    exact ⟨.away, hauling_stays always, hauls_ended nofun⟩
  | some q =>
    rw [claim_of_some taken]
    obtain ⟨_, rfl⟩ := Queue.claim?_eq_some.1 taken
    refine ⟨.away, (hauling id k size o).moves_quiet _ always (.setFlag true s), ?_⟩
    refine Obeys.ensuring ((Obeys.iterate Hauls (fun l p => hauls_phase p)
      (hauls_opening _ _)).mono fun l r ended s always => ?_)
    exact ⟨l, release always, ended⟩

/-- What is in the store after a drain that has delivered `n` events: all that was behind the batch
and all that was pushed since, but for the events with an id of the batch, which have left
undelivered. -/
theorem drain_departure {n : Nat} (placed : (queueView id k s).Placed k)
    (run : Goes (Supplied id k) (drain id) s (.done (.ok (.delivered n))) t) :
    ∃ early batch behind during late,
      QueueView.Departed (s.queue id).batchSize (queueView id k s) (queueView id k t) early batch
        behind during late ∧
      n = batch.length ∧
      ((t.store k).events = behind ++ during ++ late ↔
        Store.matching (Drain.ids batch) (behind ++ during) = []) ∧
      (t.store k).events.length + n +
          (Store.matching (Drain.ids batch) (behind ++ during)).length =
        (s.store k).events.length + (early ++ during ++ late).length := by
  have begun : QueueView.Stands (s.queue id).batchSize (queueView id k s) (queueView id k s)
      .away := ⟨[], by simp, by simp, rfl⟩
  obtain ⟨l, stands, ended⟩ := hauls_drain.goes (P := hauling id k _ (queueView id k s))
    (fun _ stands moves => ⟨moves.1, moves.2 stands⟩) ⟨placed, rfl⟩ begun run
  obtain ⟨batch, rfl, rfl⟩ := ended n rfl
  obtain ⟨early, behind, during, late, departed⟩ := stands
  have events : (t.store k).events = Store.without (Drain.ids batch) (behind ++ during) ++ late :=
    departed.events
  refine ⟨early, batch, behind, during, late, departed, rfl, ?_, ?_⟩
  · rw [events, List.append_left_inj, Store.without_eq_self]
  · have parts := Store.length_without (Drain.ids batch) (behind ++ during)
    have split : (s.store k).events ++ early = batch ++ behind := departed.front.split
    have whole := congrArg List.length split
    simp only [events, List.length_append] at parts whole ⊢
    omega

def repeatedEvent (id : String) : Event := ⟨"Repeated", id, 1, {}, ∅⟩

def sampleRepeating : Session where
  leaves := #[.scripted { name := "slow", script := { delay := 10 } }]
  stores := #[{ events := [queuedEvent "a", queuedEvent "b", repeatedEvent "a"] }]
  queues := #[{ batchSize := 2, store := 0, transport := some (.leaf 0) }]

def sampleHandling : Async.Polled Session (Except Error Drain.Outcome) × Session :=
  (drain 0).poll 50 sampleRepeating

def sampleRefilled : Session :=
  (applyEdit 0 (.append [repeatedEvent "b", queuedEvent "c"]) sampleHandling.2).2

def sampleDelivered : Session := (sampleHandling.1.rest.poll 50 (endSleeps sampleRefilled)).2

theorem drain_departure_sample :
    Goes (Supplied 0 0) (drain 0) sampleRepeating (.done (.ok (.delivered 2))) sampleDelivered ∧
      (sampleDelivered.store 0).events.map Event.id = ["c"] ∧
      ∃ batch others, sampleDelivered.ledger.accepted 0 = [batch] ∧
        (Store.matching (Drain.ids batch) others).length = 2 := by
  have handles : Goes (Supplied 0 0) (drain 0) sampleRepeating sampleHandling.1.rest
      sampleHandling.2 := .of_steps (Async.poll_steps 50 _ _)
  have refills : Supplied 0 0 sampleHandling.2 sampleRefilled :=
    ⟨.of_undisturbed (.append 0 _ (by decide)), rfl⟩
  have wakes : Supplied 0 0 sampleRefilled (endSleeps sampleRefilled) :=
    ⟨.of_undisturbed (.of_eq rfl), rfl⟩
  have ends : Goes (Supplied 0 0) sampleHandling.1.rest (endSleeps sampleRefilled)
      (.done (.ok (.delivered 2))) sampleDelivered := .of_steps (Async.poll_steps 50 _ _)
  have run := handles.trans (.outside refills (.outside wakes ends))
  have placed : (queueView 0 0 sampleRepeating).Placed 0 :=
    ⟨Nat.zero_lt_one, Nat.zero_lt_one, rfl⟩
  obtain ⟨early, batch, behind, during, late, departed, -, -, count⟩ := drain_departure placed run
  refine ⟨run, by decide, batch, behind ++ during, departed.accepted, ?_⟩
  have pushed : early ++ during ++ late = sampleDelivered.ledger.written 0 :=
    departed.written.symm
  have two : (sampleDelivered.ledger.written 0).length = 2 := rfl
  have one : (sampleDelivered.store 0).events.length = 1 := rfl
  have three : (sampleRepeating.store 0).events.length = 3 := rfl
  rw [pushed, one, two, three] at count
  omega

end Session

end EventTracking
