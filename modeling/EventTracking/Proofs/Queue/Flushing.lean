import EventTracking.Proofs.Queue.Solitude

set_option autoImplicit false

namespace EventTracking

namespace Store

-- The consecutive chunks of a list. The last one may be shorter than the others.
def chunks (size : Nat) (l : List Event) : List (List Event) :=
  (List.range ((l.length + size - 1) / size)).map fun i => window size (i * size) l

variable {size : Nat} {l : List Event}

theorem chunks_nil (positive : 0 < size) : chunks size [] = [] := by
  simp [chunks]
  omega

theorem chunks_of_ne_nil (positive : 0 < size) (some_ : l ≠ []) :
    chunks size l = window size 0 l :: chunks size (l.drop size) := by
  have length : 0 < l.length := List.length_pos_iff.2 some_
  have first : (l.length + size - 1) / size = (l.length - 1) / size + 1 := by
    rw [← Nat.add_div_right _ positive]
    congr 1
    omega
  have others : (l.length - 1) / size = ((l.drop size).length + size - 1) / size := by
    rw [List.length_drop]
    by_cases long : size ≤ l.length
    · congr 1
      omega
    · rw [Nat.div_eq_of_lt (by omega), Nat.div_eq_of_lt (by omega)]
  have one_more := first.trans (congrArg (· + 1) others)
  rw [chunks, one_more, List.range_succ_eq_map, List.map_cons, List.map_map, Nat.zero_mul, chunks]
  congr 1
  refine List.map_congr_left fun i _ => ?_
  simp [window, List.drop_drop, Nat.succ_mul, Nat.add_comm]

theorem flatten_chunks (positive : 0 < size) (l : List Event) : (chunks size l).flatten = l := by
  induction length : l.length using Nat.strongRecOn generalizing l with
  | ind n ih =>
    by_cases none : l = []
    · rw [none, chunks_nil positive, List.flatten_nil]
    · have shorter : (l.drop size).length < n := by
        have := List.length_pos_iff.2 none
        rw [List.length_drop]
        omega
      rw [chunks_of_ne_nil positive none, List.flatten_cons, ih _ shorter _ rfl]
      exact List.take_append_drop size l

end Store

namespace Session

open Async Change
open Relation (ReflTransGen)

variable {id : QueueId} {k : StoreId} {size : Nat} {t : Transport} {l l' : List Event}
  {s u : Session} {R : Session → Session → Prop} {steps rest : List (Session × Session)}
  {calls calls' : List (List Event × Except Error Unit)}

inductive Calls (id : QueueId) (k : StoreId) (t : Transport) :
    List (List Event × Except Error Unit) → List (Session × Session) → Prop where
  | nil : Calls id k t [] []
  | own {s u : Session} {calls : List (List Event × Except Error Unit)}
      {steps : List (Session × Session)} (own : Own id k s u) (rest : Calls id k t calls steps) :
      Calls id k t calls ((s, u) :: steps)
  | call {batch : List Event} {r : Except Error Unit}
      {calls : List (List Event × Except Error Unit)} {during steps : List (Session × Session)}
      (call : Passes (handle t batch) during (.done r)) (rest : Calls id k t calls steps) :
      Calls id k t ((batch, r) :: calls) (during ++ steps)

namespace Calls

theorem append (h : Calls id k t calls steps) (h' : Calls id k t calls' rest) :
    Calls id k t (calls ++ calls') (steps ++ rest) := by
  induction h with
  | nil => exact h'
  | own own _ ih => exact .own own ih
  | call call _ ih => simpa using Calls.call call ih

theorem of_own (own : OwnSteps id k steps) : Calls id k t [] steps := by
  induction steps with
  | nil => exact .nil
  | cons p steps ih => exact .own (own p (by simp)) (ih fun q hq => own q (by simp [hq]))

theorem goes_on (h : Calls id k t calls steps) (own : OwnSteps id k rest) :
    Calls id k t calls (steps ++ rest) := by
  simpa using h.append (.of_own own)

theorem single {batch : List Event} {r : Except Error Unit}
    (call : Passes (handle t batch) steps (.done r)) : Calls id k t [(batch, r)] steps := by
  simpa using Calls.call call .nil

end Calls

inductive Drained (id : QueueId) (k : StoreId) (size : Nat) (t : Transport) (l : List Event) :
    List (Session × Session) → Except Error Drain.Outcome → List Event → Prop where
  | unusable {steps : List (Session × Session)} {p : Session × Session} (seen : p ∈ steps)
      (unusable : p.1.isUsable t = false) (calls : Calls id k t [] steps) :
      Drained id k size t l steps (.ok .transportUnusable) l
  | empty {steps : List (Session × Session)} (none : l = []) (calls : Calls id k t [] steps) :
      Drained id k size t l steps (.ok .empty) l
  | delivered {steps : List (Session × Session)} (some_ : l ≠ [])
      (calls : Calls id k t [(Store.window size 0 l, .ok ())] steps) :
      Drained id k size t l steps (.ok (.delivered (Store.window size 0 l).length)) (l.drop size)
  | rejected {steps : List (Session × Session)} (e : Error) (some_ : l ≠ [])
      (calls : Calls id k t [(Store.window size 0 l, .error e)] steps) :
      Drained id k size t l steps (.ok (.rejected e.message)) l

theorem Drained.around {r : Except Error Drain.Outcome} {before after : List (Session × Session)}
    (h : Drained id k size t l steps r l') (first : OwnSteps id k before)
    (last : OwnSteps id k after) : Drained id k size t l (before ++ (steps ++ after)) r l' := by
  have wider {calls : List (List Event × Except Error Unit)} (h : Calls id k t calls steps) :
      Calls id k t calls (before ++ (steps ++ after)) := by
    simpa using (Calls.of_own first).append (h.append (.of_own last))
  cases h with
  | unusable seen unusable calls => exact .unusable (by simp [seen]) unusable (wider calls)
  | empty none calls => exact .empty none (wider calls)
  | delivered some_ calls => exact .delivered some_ (wider calls)
  | rejected e some_ calls => exact .rejected e some_ (wider calls)

theorem without_window (distinct : (l.map Event.id).Nodup) :
    Store.without (Drain.ids (Store.window size 0 l)) l = l.drop size := by
  have split : l.take size ++ l.drop size = l := List.take_append_drop size l
  have rest : Store.without (Drain.ids (l.take size)) (l.take size ++ l.drop size) =
      l.drop size := Store.without_append (by rwa [split])
  rwa [split] at rest

theorem Filled.claim (h : Filled id k size t false l s) :
    ∃ u, Session.claim id s = (some (if s.isUsable t then .reading t
        else .ended (.ok .transportUnusable)), u) ∧
      Own id k s u ∧ Filled id k size t true l u := by
  have free : (s.queue id).claim? = some { s.queue id with processing := true } :=
    Queue.claim?_eq_some.2 ⟨h.flag_eq, rfl⟩
  refine ⟨_, ?_, .setQueue { s.queue id with processing := true } s, h.setFlag true⟩
  rw [claim_of_some free]
  simp [Drain.opening, h.transport_eq]

theorem settles_ended (alone : Solitary id k R) (h : Filled id k size t true l s)
    (r : Except Error Drain.Outcome) :
    Settles R (Async.iterate (drainPhase id) (.ended r)) s fun steps x u =>
      OwnSteps id k steps ∧ x = r ∧ Filled id k size t true l u := by
  refine Settles.iterate (Settles.pure fun v changes w later => ?_)
  exact ⟨.single (.refl v), rfl, h.later alone (changes.trans later)⟩

theorem settles_deleting (alone : Solitary id k R) (h : Filled id k size t true l s)
    (ids : List String) :
    Settles R (Async.iterate (drainPhase id) (.deleting ids)) s fun steps x u =>
      OwnSteps id k steps ∧ x = .ok (.delivered ids.length) ∧
        Filled id k size t true (Store.without ids l) u := by
  refine Settles.iterate (Settles.bind (Settles.act fun v changes w later => ?_))
  have here := h.later alone changes
  have sameStore : (v.queue id).store = k := here.store_eq
  simp only [sameStore]
  refine Settles.bind ((settles_editStore alone (here.later alone later) (.remove ids)).mono ?_)
  rintro steps _ x ⟨own, rfl, filled⟩
  refine Settles.pure fun y more z last => ⟨?_, rfl, filled.later alone (more.trans last)⟩
  exact ((OwnSteps.single (.refl v)).append (own.append (by simp [OwnSteps]))).append
    (.single (.refl y))

inductive Answered (id : QueueId) (k : StoreId) (t : Transport) (batch l : List Event) :
    List (Session × Session) → Except Error Drain.Outcome → List Event → Prop where
  | accepted {steps : List (Session × Session)} (calls : Calls id k t [(batch, .ok ())] steps) :
      Answered id k t batch l steps (.ok (.delivered batch.length))
        (Store.without (Drain.ids batch) l)
  | rejected {steps : List (Session × Session)} (e : Error)
      (calls : Calls id k t [(batch, .error e)] steps) :
      Answered id k t batch l steps (.ok (.rejected e.message)) l

theorem settles_delivering (alone : Solitary id k R) (returns : Returns R id k size t)
    (h : Filled id k size t true l s) (batch : List Event) :
    Settles R (Async.iterate (drainPhase id) (.delivering t batch)) s fun steps x u =>
      ∃ l', Answered id k t batch l steps x l' ∧ Filled id k size t true l' u := by
  refine Settles.iterate (Settles.bind ((settles_handle alone returns h batch).mono ?_))
  rintro during r v ⟨call, filled⟩
  have called : Calls id k t [(batch, r)] during := .single call
  cases r with
  | ok =>
    refine Settles.bind (Settles.act fun w changes x later => ?_)
    have noted := (filled.later alone changes).note (.accepted id batch)
    refine Settles.pure fun y more => ?_
    refine (settles_deleting alone (noted.later alone (later.trans more)) _).mono ?_
    rintro deleting _ z ⟨own, rfl, last⟩
    refine ⟨_, ?_, last⟩
    have count : (Drain.ids batch).length = batch.length := List.length_map _
    have owns : OwnSteps id k ((w, (note (.accepted id batch) w).2) :: (y, y) :: deleting) :=
      .cons (.note _ w) (.cons (.refl y) own)
    rw [count]
    exact .accepted (by simpa using called.goes_on owns)
  | error e =>
    refine Settles.pure fun w changes => ?_
    refine (settles_ended alone (filled.later alone changes) _).mono ?_
    rintro ending _ x ⟨own, rfl, last⟩
    have owns : OwnSteps id k ((w, w) :: ending) := .cons (.refl w) own
    exact ⟨l, .rejected e (by simpa using called.goes_on owns), last⟩

theorem settles_reading (alone : Solitary id k R) (returns : Returns R id k size t)
    (distinct : (l.map Event.id).Nodup) (positive : 0 < size)
    (h : Filled id k size t true l s) :
    Settles R (Async.iterate (drainPhase id) (.reading t)) s fun steps x u =>
      ∃ l', Drained id k size t l steps x l' ∧ Filled id k size t true l' u := by
  refine Settles.iterate (Settles.bind (Settles.act fun v changes w later => ?_))
  have here := h.later alone changes
  have sameStore : (v.queue id).store = k := here.store_eq
  have sameSize : (v.queue id).batchSize = size := here.batchSize_eq
  simp only [sameStore, sameSize]
  refine Settles.bind ((settles_readStore alone (here.later alone later) size 0).mono ?_)
  rintro reading _ x ⟨own, rfl, filled⟩
  refine Settles.pure fun y more => ?_
  have filled := filled.later alone more
  have read : OwnSteps id k ((v, v) :: (reading ++ [(y, y)])) :=
    .cons (.refl v) (own.append (.single (.refl y)))
  have after {steps : List (Session × Session)} {r : Except Error Drain.Outcome}
      {l' : List Event} (h : Drained id k size t l steps r l') :
      Drained id k size t l ([(v, v)] ++ (reading ++ []) ++ (y, y) :: steps) r l' := by
    simpa using h.around read (.nil id k)
  cases window : Store.window size 0 l with
  | nil =>
    have none : l = [] := by
      have cut : l.take size = [] := window
      simpa [Nat.ne_of_gt positive] using cut
    refine (settles_ended alone filled (.ok .empty)).mono ?_
    rintro ending _ z ⟨own, rfl, last⟩
    exact ⟨l, after (.empty none (.of_own own)), last⟩
  | cons e batch =>
    have some_ : l ≠ [] := by
      rintro rfl
      simp [Store.window] at window
    refine (settles_delivering alone returns filled (e :: batch)).mono ?_
    rintro ending r z ⟨l', answered, last⟩
    rw [← window] at answered
    refine ⟨l', after ?_, last⟩
    cases answered with
    | accepted calls =>
      rw [without_window distinct]
      exact .delivered some_ calls
    | rejected e calls => exact .rejected e some_ calls

theorem settles_drain (alone : Solitary id k R) (returns : Returns R id k size t)
    (distinct : (l.map Event.id).Nodup) (positive : 0 < size)
    (h : Filled id k size t false l s) :
    Settles R (drain id) s fun steps x u =>
      ∃ l', Drained id k size t l steps x l' ∧ Filled id k size t false l' u := by
  refine Settles.bind (Settles.act fun v changes w later => ?_)
  have here := h.later alone changes
  obtain ⟨claimed, claims, own, filled⟩ := here.claim
  rw [claims] at later ⊢
  have filled := filled.later alone later
  have owns : OwnSteps id k [(v, claimed)] := .single own
  refine Settles.ensuring ?_
  by_cases usable : v.isUsable t = true
  · rw [if_pos usable]
    refine (settles_reading alone returns distinct positive filled).mono ?_
    rintro steps r x ⟨l', drained, last⟩ y more
    exact ⟨l', drained.around owns (.single (.setQueue _ x)), (last.setFlag false).later alone more⟩
  · rw [if_neg usable]
    refine (settles_ended alone filled (.ok .transportUnusable)).mono ?_
    rintro steps _ x ⟨own, rfl, last⟩ y more
    have seen : (v, claimed) ∈ [(v, claimed)] ++ (steps ++ [(x, leaving (unclaim id) x)]) := by simp
    have all := owns.append (own.append (.single (.setQueue (x.queue id).release x)))
    exact ⟨l, .unusable seen (by simpa using usable) (.of_own all),
      (last.setFlag false).later alone more⟩

-- What comes of a flush that finds `l` in the store and has delivered `n` events before, and what
-- is in the store then. All chunks were accepted, or all before the first one that was rejected, or
-- all before the transport was seen not to be usable.
inductive Flushed (id : QueueId) (k : StoreId) (size : Nat) (t : Transport) (n : Nat)
    (l : List Event) : List (Session × Session) → Except Error Nat → List Event → Prop where
  | delivered {steps : List (Session × Session)}
      (calls : Calls id k t ((Store.chunks size l).map (·, .ok ())) steps) :
      Flushed id k size t n l steps (.ok (n + l.length)) []
  | rejected {steps : List (Session × Session)} (j : Nat) (chunk : List Event) (e : Error)
      (there : (Store.chunks size l)[j]? = some chunk)
      (calls : Calls id k t
        (((Store.chunks size l).take j).map (·, .ok ()) ++ [(chunk, .error e)]) steps) :
      Flushed id k size t n l steps (.error (.transport e.message)) (l.drop (j * size))
  | unusable {steps : List (Session × Session)} (j : Nat) {p : Session × Session}
      (seen : p ∈ steps) (unusable : p.1.isUsable t = false)
      (calls : Calls id k t (((Store.chunks size l).take j).map (·, .ok ())) steps) :
      Flushed id k size t n l steps (.error Flush.unusable) (l.drop (j * size))

theorem Flushed.after {n : Nat} {r : Except Error Nat} {first : List (Session × Session)}
    (positive : 0 < size) (some_ : l ≠ [])
    (h : Flushed id k size t (n + (Store.window size 0 l).length) (l.drop size) steps r l')
    (call : Calls id k t [(Store.window size 0 l, .ok ())] first) :
    Flushed id k size t n l (first ++ steps) r l' := by
  have split := Store.chunks_of_ne_nil positive some_
  have rest (j : Nat) : (l.drop size).drop (j * size) = l.drop ((j + 1) * size) := by
    rw [List.drop_drop, Nat.succ_mul, Nat.add_comm]
  cases h with
  | delivered calls =>
    have all : n + (Store.window size 0 l).length + (l.drop size).length = n + l.length := by
      rw [Nat.add_assoc, ← List.length_append]
      exact congrArg (n + ·.length) (List.take_append_drop size l)
    rw [all]
    refine .delivered ?_
    rw [split]
    exact call.append calls
  | rejected j chunk e there calls =>
    rw [rest]
    refine .rejected (j + 1) chunk e (by rwa [split]) ?_
    rw [split]
    exact call.append calls
  | unusable j seen unusable calls =>
    rw [rest]
    refine .unusable (j + 1) (by simp [seen]) unusable ?_
    rw [split]
    exact call.append calls

theorem settles_flush_ended (alone : Solitary id k R) (h : Filled id k size t false l s)
    (r : Except Error Nat) :
    Settles R (Async.iterate (flushRound id) (.ended r)) s fun steps x u =>
      OwnSteps id k steps ∧ x = r ∧ Filled id k size t false l u := by
  refine Settles.iterate (Settles.pure fun v changes w later => ?_)
  exact ⟨.single (.refl v), rfl, h.later alone (changes.trans later)⟩

theorem settles_flushing (alone : Solitary id k R) (returns : Returns R id k size t)
    (positive : 0 < size) (n : Nat) (distinct : (l.map Event.id).Nodup)
    (h : Filled id k size t false l s) :
    Settles R (Async.iterate (flushRound id) (.drain n)) s fun steps r u =>
      ∃ l', Flushed id k size t n l steps r l' ∧ Filled id k size t false l' u := by
  -- Each chunk that is accepted leaves fewer events in the store.
  induction length : l.length using Nat.strongRecOn generalizing l s n with
  | ind m ih =>
    refine Settles.iterate (Settles.bind
      ((settles_drain alone returns distinct positive h).mono ?_))
    rintro drains r v ⟨l', drained, filled⟩
    refine Settles.pure fun w changes => ?_
    have filled := filled.later alone changes
    cases drained with
    | unusable seen unusable calls =>
      refine (settles_flush_ended alone filled (.error Flush.unusable)).mono ?_
      rintro ending _ x ⟨own, rfl, last⟩
      have made := calls.goes_on (.cons (.refl w) own)
      have stopped : Flushed id k size t n l (drains ++ (w, w) :: ending)
          (.error Flush.unusable) (l.drop (0 * size)) :=
        .unusable 0 (by simp [seen]) unusable made
      exact ⟨l, by simpa using stopped, last⟩
    | empty none calls =>
      refine (settles_flush_ended alone filled (.ok n)).mono ?_
      rintro ending _ x ⟨own, rfl, last⟩
      subst none
      refine ⟨[], .delivered ?_, last⟩
      rw [Store.chunks_nil positive]
      simpa using calls.goes_on (.cons (.refl w) own)
    | delivered some_ calls =>
      have shorter : (l.drop size).length < m := by
        have := List.length_pos_iff.2 some_
        rw [List.length_drop]
        omega
      have fewer : ((l.drop size).map Event.id).Nodup :=
        distinct.sublist ((List.drop_sublist size l).map _)
      refine (ih _ shorter _ fewer filled rfl).mono ?_
      rintro others r x ⟨l', flushed, last⟩
      have call := calls.goes_on (.single (.refl w))
      exact ⟨l', by simpa using flushed.after positive some_ call, last⟩
    | rejected e some_ calls =>
      refine (settles_flush_ended alone filled (.error (.transport e.message))).mono ?_
      rintro ending _ x ⟨own, rfl, last⟩
      have first : (Store.chunks size l)[0]? = some (Store.window size 0 l) := by
        rw [Store.chunks_of_ne_nil positive some_]
        rfl
      have made := calls.goes_on (.cons (.refl w) own)
      have rejected := Flushed.rejected (n := n) 0 _ e first (by simpa using made)
      exact ⟨l, by simpa using rejected, last⟩

/-- A flush of a queue that nobody else uses can be brought to its end if the calls of the transport
can. It calls the transport with the chunks of the store in their order. If all of them are accepted
it answers how many events there were, and none is left. If one is rejected it stops there, and this
chunk and those behind it are left. -/
theorem flush_chunks (alone : Solitary id k R) (returns : Returns R id k size t)
    (ready : Ready id k size t s) (free : (s.queue id).processing = false) (positive : 0 < size)
    (distinct : ((s.store k).events.map Event.id).Nodup) :
    (Store.chunks size (s.store k).events).flatten = (s.store k).events ∧
    (∀ steps b u, Trail R (flush id) s steps b u → ∃ rest r v, Trail R b u rest (.done r) v) ∧
    ∀ steps r u, Trail R (flush id) s steps (.done r) u →
      Flushed id k size t 0 (s.store k).events steps r (u.store k).events := by
  have settles := settles_flushing alone returns positive 0 distinct ⟨ready, free, rfl⟩
  refine ⟨Store.flatten_chunks positive _, fun _ _ _ trail => settles.ends trail, ?_⟩
  intro steps r u trail
  obtain ⟨l', flushed, filled⟩ := settles.result trail
  rwa [filled.events_eq]

def sampleCollecting : Session where
  network r := match r.body.find? "events" with
    | some (.arr [_]) => some 503
    | _ => some 200
  leaves := #[.collector { endpoint := "e" }]
  stores := #[{ events :=
    ["a", "b", "c", "d", "e"].map fun id => .stamp { type := "Flushed" } id 0 }]
  queues := #[{ batchSize := 2, store := 0, transport := some (.leaf 0) }]

def sampleRejection : Error :=
  .transport "Transport error: Collector at e answered 503 Service Unavailable"

theorem flush_chunks_sample : ∃ steps u,
    Trail Ticks (flush 0) sampleCollecting steps (.done (.error sampleRejection)) u ∧
    (u.store 0).events.map Event.id = ["e"] ∧
    Flushed 0 0 2 (.leaf 0) 0 (sampleCollecting.store 0).events steps (.error sampleRejection)
      (u.store 0).events := by
  have ready : Ready 0 0 2 (.leaf 0) sampleCollecting :=
    ⟨by decide, by decide, rfl, rfl, rfl, rfl, nofun⟩
  obtain ⟨_, _, flushed⟩ :=
    flush_chunks solitary_ticks (returns_leaf solitary_ticks 0) ready rfl (by decide) (by decide)
  have run : Async.Steps (flush 0) sampleCollecting (.done (.error sampleRejection))
      ((flush 0).poll 60 sampleCollecting).2 := Async.poll_steps 60 _ _
  obtain ⟨steps, trail⟩ := run.trail (R := Ticks)
  exact ⟨steps, _, trail, by decide, flushed _ _ _ trail⟩

end Session

end EventTracking
