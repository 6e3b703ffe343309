import EventTracking.Proofs.Queue.Filing
import EventTracking.Proofs.Queue.View

set_option autoImplicit false

namespace EventTracking

namespace Async

variable {σ L α : Type} {P : Protocol σ L} {l : L} {J : L → σ → Prop}

theorem Obeys.goes {a b : Async σ α} {s t : σ} {Q : L → α → Prop} (h : Obeys P l a Q)
    (keeps : ∀ {l s l' t}, P.always s → J l s → P.moves l s l' t → P.always t ∧ J l' t)
    (hs : P.always s) (begun : J l s) (run : Goes P.quiet a s b t) :
    ∃ l', J l' t ∧ Obeys P l' b Q := by
  induction run generalizing l with
  | refl => exact ⟨l, begun, h⟩
  | step step _ ih =>
    obtain ⟨l', moves, rest⟩ := h.step hs step
    obtain ⟨always, kept⟩ := keeps hs begun moves
    exact ih rest always kept
  | outside change _ ih =>
    obtain ⟨always, kept⟩ := keeps hs begun (P.moves_quiet l hs change)
    exact ih h always kept

end Async

namespace Session

open Async Change

variable {id : QueueId} {k : StoreId} {s t u : Session} {l : List Event}

structure Feeds (id : QueueId) (k : StoreId) (s : Session) : Prop where
  inside : k < s.stores.size
  store_eq : (s.queue id).store = k
  steady : ∀ failing, (s.store k).kind ≠ .flaky failing

-- What others may do: anything that leaves the events of the store alone.
structure Spares (id : QueueId) (k : StoreId) (s t : Session) : Prop where
  inside : k < s.stores.size → k < t.stores.size
  store_eq : (t.queue id).store = (s.queue id).store
  kind : (t.store k).kind = (s.store k).kind
  events : (t.store k).events = (s.store k).events

namespace Spares

theorem of_view (same : queueView id k t = queueView id k s) : Spares id k s t where
  inside there := by
    have size : (k < t.stores.size) = (k < s.stores.size) := congrArg QueueView.hasStore same
    exact size ▸ there
  store_eq := congrArg QueueView.store same
  kind := congrArg QueueView.kind same
  events := congrArg QueueView.events same

theorem refl (s : Session) : Spares id k s s := of_view rfl

theorem trans (first : Spares id k s t) (second : Spares id k t u) : Spares id k s u where
  inside there := second.inside (first.inside there)
  store_eq := second.store_eq.trans first.store_eq
  kind := second.kind.trans first.kind
  events := second.events.trans first.events

theorem feeds (spares : Spares id k s t) (feeds : Feeds id k s) : Feeds id k t where
  inside := spares.inside feeds.inside
  store_eq := spares.store_eq.trans feeds.store_eq
  steady failing := spares.kind ▸ feeds.steady failing

theorem setLock (k' : StoreId) (lock : Lock) (s : Session) :
    Spares id k s (Session.setLock k' lock s).2 := .of_view (queueView_setLock id k k' lock s)

theorem ensureRunning (id' : QueueId) (s : Session) :
    Spares id k s (Session.ensureRunning id' s).2 := .of_view (queueView_ensureRunning id k id' s)

end Spares

def sparing (id : QueueId) (k : StoreId) : Frame Session where
  always := Feeds id k
  quiet := Spares id k
  quiet_refl := .refl
  quiet_trans := .trans
  always_quiet feeds spares := spares.feeds feeds

def filling (id : QueueId) (k : StoreId) : Protocol Session (List Event) where
  toFrame := sparing id k
  moves l s l' t := Feeds id k t ∧ ((s.store k).events = l → (t.store k).events = l')
  rests _ := True
  moves_quiet _ _ _ feeds spares := ⟨spares.feeds feeds, fun same => spares.events.trans same⟩

theorem sparing_allows : AllowsDelivery (sparing id k) fun _ => False where
  aside same := .of_view (queueView_of_stock (stock_of_setup same))
  locks k' lock _ := .setLock k' lock _
  starts id' _ := .ensureRunning id' _
  appends _ _ mine _ := mine.elim

theorem feeds_applyEdit (e : Store.Edit) (feeds : Feeds id k s) :
    Feeds id k (applyEdit k e s).2 ∧
      ((applyEdit k e s).2.store k).events = e.apply (s.store k).events := by
  have edited : (applyEdit k e s).2.store k = (s.store k).edit e := by
    have set := store_setStore s k k ((s.store k).edit e)
    rw [if_pos ⟨rfl, feeds.inside⟩] at set
    exact set
  refine ⟨⟨?_, feeds.store_eq, ?_⟩, ?_⟩
  · exact Nat.lt_of_lt_of_eq feeds.inside Array.size_setIfInBounds.symm
  · rw [edited]
    exact feeds.steady
  · rw [edited]
    rfl

theorem obeys_edit (e : Store.Edit) :
    Obeys (filling id k) l (editStore k e) fun l' _ => l' = e.apply l := by
  apply sparing_allows.obeys_editStore (P := filling id k) trivial
  · intro s err feeds refused
    have feeds : Feeds id k s := feeds
    cases kind : (s.store k).kind with
    | flaky failing => exact absurd kind (feeds.steady failing)
    | memory | file => simp [Store.refusal?, kind] at refused
  · intro s feeds
    obtain ⟨after, events⟩ := feeds_applyEdit e feeds
    exact ⟨e.apply l, ⟨after, fun same => events.trans (congrArg _ same)⟩, trivial, fun _ => rfl⟩

theorem obeys_queued (inner : Transport) (batch : List Event) :
    Obeys (filling id k) l (handle (.queued id inner) batch) fun l' _ => l' = l ++ batch := by
  have pushes : Obeys (filling id k) l (push id batch) fun l' _ => l' = l ++ batch := by
    refine Obeys.bind (Obeys.get fun s feeds => ?_)
    have feeds : Feeds id k s := feeds
    rw [feeds.store_eq]
    exact obeys_edit (.append batch)
  refine Obeys.bind (pushes.mono fun l' r added => ?_)
  cases r with
  | ok => exact Obeys.of_keeps (Keeps.act fun s _ => .ensureRunning id s) trivial fun _ => added
  | error => exact added

-- How a call can end that has made `n` attempts.
inductive RetryEnd (n : Nat) : Except Error Unit → Prop where
  | accepted (some_ : 0 < n) : RetryEnd n (.ok ())
  | exhausted (e : Error) (some_ : 0 < n) : RetryEnd n (.error (.exhausted n e))
  | overflow (some_ : 0 < n) : RetryEnd n (.error .durationOverflow)
  | cancelled : RetryEnd n (.error (Retry.cancelledError n))

def copies (n : Nat) (batch : List Event) : List Event := (List.replicate n batch).flatten

theorem copies_succ (n : Nat) (batch : List Event) :
    copies (n + 1) batch = copies n batch ++ batch := by
  simp [copies, List.replicate_succ']

theorem failed_end (s : Retry.State) (e : Error) (elapsed : Duration) (some_ : 0 < s.attempts) :
    match s.failed e elapsed with
    | .fail e' => RetryEnd s.attempts (.error e')
    | .pause _ => True := by
  unfold Retry.State.failed
  cases s.recordFailure elapsed with
  | none => exact .overflow some_
  | some decision =>
    cases decision with
    | giveUp => exact .exhausted e some_
    | retryAfter => trivial

def attemptsOf : Retry.Phase → Nat
  | .attempting s | .pausing s _ => s.attempts

theorem obeys_retry (policy : Retry.Policy) (pauser : PauserId) (c : CancellationId)
    (inner : Transport) (batch : List Event) :
    Obeys (filling id k) l (handle (.retry policy pauser c (.queued id inner)) batch)
      fun l' r => ∃ n, l' = l ++ copies n batch ∧ RetryEnd n r := by
  have deliveries : Deliveries (Keeps (sparing id k)) surroundings _ := sparing_allows.deliveries
  refine Obeys.iterate (fun l' phase => l' = l ++ copies (attemptsOf phase) batch) ?_
    (by simp [attemptsOf, copies])
  rintro _ phase rfl
  cases phase with
  | attempting s =>
    refine Obeys.keeps_bind (deliveries.begins c) trivial fun stop => ?_
    cases stop with
    | true => exact ⟨s.attempts, rfl, .cancelled⟩
    | false =>
      refine Obeys.bind ((obeys_queued inner batch).mono ?_)
      rintro _ r rfl
      have added : l ++ copies s.attempts batch ++ batch = l ++ copies (s.attempts + 1) batch := by
        rw [copies_succ, List.append_assoc]
      have some_ : 0 < s.start.attempts := Nat.succ_pos _
      cases r with
      | ok => exact ⟨s.attempts + 1, added, .accepted some_⟩
      | error e =>
        refine Obeys.keeps_bind deliveries.reads trivial fun elapsed => ?_
        have ending := failed_end s.start e elapsed some_
        cases judged : s.start.failed e elapsed with
        | fail e' =>
          rw [judged] at ending
          exact ⟨s.start.attempts, added, ending⟩
        | pause d => exact added
  | pausing s d =>
    refine Obeys.keeps_bind (deliveries.backoff pauser c d) trivial fun first => ?_
    cases first with
    | inl => rfl
    | inr => exact ⟨s.attempts, rfl, .cancelled⟩

theorem filled {α : Type} {a : Task α} {r : α} {Q : List Event → α → Prop} (feeds : Feeds id k s)
    (obeys : Obeys (filling id k) (s.store k).events a Q)
    (run : Goes (Spares id k) a s (.done r) t) : Q (t.store k).events r := by
  obtain ⟨_, rfl, ended⟩ := obeys.goes (J := fun l s => (s.store k).events = l)
    (fun _ held moves => ⟨moves.1, moves.2 held⟩) feeds rfl run
  exact ended

/-- Whatever a call answers, what it was to change is changed: the events of a store, also where its
file stays as it was, and those of a queue, once for every attempt. -/
theorem rejected_batch_kept (feeds : Feeds id k s) :
    (∀ kind events d e r t, Resting k ⟨kind, events, {}⟩ d s →
      Goes (Filing k) (editStore k e) s (.done r) t →
        (t.store k).events = e.apply events ∧ (∀ err, r = .error err → t.disk = d)) ∧
      (∀ inner batch r t, Goes (Spares id k) (handle (.queued id inner) batch) s (.done r) t →
        (t.store k).events = (s.store k).events ++ batch) ∧
      ∀ policy pauser c inner batch r t,
        Goes (Spares id k) (handle (.retry policy pauser c (.queued id inner)) batch) s (.done r) t →
          ∃ n, (t.store k).events = (s.store k).events ++ copies n batch ∧ RetryEnd n r := by
  refine ⟨?_, ?_, ?_⟩
  · intro kind events d e r t rests run
    have steady (failing : List Store.Method) : kind ≠ .flaky failing := by
      have steady := feeds.steady failing
      rwa [rests.store] at steady
    obtain ⟨d', rests', edited⟩ := (achieves_editStore steady rests e).result run
    refine ⟨congrArg Store.events rests'.store, ?_⟩
    rintro err rfl
    generalize Store.file? ⟨kind, e.apply events, {}⟩ = named at edited
    cases edited
    exact rests'.disk
  · intro inner batch r t run
    exact filled (Q := fun l _ => l = (s.store k).events ++ batch) feeds
      (obeys_queued inner batch) run
  · intro policy pauser c inner batch r t run
    exact filled feeds (obeys_retry policy pauser c inner batch) run

def sampleRejected : Event := .stamp (.new "Rejected") "e" 0

def sampleStranded : Session where
  hasRuntime := false
  stores := #[{}]
  queues := #[{ store := 0, transport := some (.leaf 0) }]
  pausers := #[.recording "again" 0 none]

def sampleUnwritable : Session where
  stores := #[{ kind := .file "missing/q" }]
  queues := #[{ store := 0 }]

def sampleRetry : Transport := .retry { maxAttempts := 2 } 0 0 (.queued 0 (.leaf 0))

theorem feeds_stranded_sample : Feeds 0 0 sampleStranded :=
  ⟨by decide, rfl, fun _ => nofun⟩

theorem feeds_unwritable_sample : Feeds 0 0 sampleUnwritable :=
  ⟨by decide, rfl, fun _ => nofun⟩

theorem rejected_batch_kept_sample :
    (∃ t, Goes (Filing 0) (editStore 0 (.append [sampleRejected])) sampleUnwritable
      (.done (.error (.file .notFound))) t ∧
        (t.store 0).events = [sampleRejected] ∧ t.disk = {}) ∧
      ∃ t, Goes (Spares 0 0) (handle sampleRetry [sampleRejected]) sampleStranded
        (.done (.error (.exhausted 2 Queue.noRuntime))) t ∧
          (t.store 0).events = [sampleRejected, sampleRejected] := by
  constructor
  · let asked := (editStore 0 (.append [sampleRejected])).poll 50 sampleUnwritable
    have asks : asked.2.writes =
        [⟨0, "missing/q", Store.fileText [sampleRejected], 0⟩] := rfl
    have ends := Async.poll_steps 50 asked.1.rest
      { asked.2 with writes := [], writeResults := [(0, .error .notFound)] }
    have fails : Filing 0 asked.2 _ := .failed .notFound asks
    have run := (Goes.of_steps (Async.poll_steps 50 _ sampleUnwritable)).trans
      (.outside fails (.of_steps ends))
    have rests : Resting 0 ⟨.file "missing/q", [], {}⟩ {} sampleUnwritable :=
      ⟨by decide, rfl, rfl, rfl, nofun⟩
    obtain ⟨events, disk⟩ :=
      (rejected_batch_kept feeds_unwritable_sample).1 _ _ _ _ _ _ rests run
    exact ⟨_, run, events, disk _ rfl⟩
  · have run : Goes (Spares 0 0) (handle sampleRetry [sampleRejected]) sampleStranded
        (.done (.error (.exhausted 2 Queue.noRuntime))) _ := .of_steps (Async.poll_steps 100 _ _)
    obtain ⟨n, events, ended⟩ :=
      (rejected_batch_kept feeds_stranded_sample).2.2 _ _ _ _ _ _ _ run
    cases ended with
    | exhausted => exact ⟨_, run, events⟩

end Session

end EventTracking
