import EventTracking.Proofs.Async.Gathering
import EventTracking.Proofs.Queue.Concluding
import EventTracking.Proofs.Tracker.Registry
import Mathlib.Data.List.Dedup
import Mathlib.Data.List.Flatten

set_option autoImplicit false

namespace EventTracking.Session

open Async Change Crowd

variable {R : Session → Session → Prop} {s u : Session} {id : QueueId}
  {trackers : List SessionTracker} {results : List (Except Error Nat)} {x : Except Error Nat}
  {steps : List (Session × Session)}

theorem total_ok (counts : List Nat) : total (counts.map .ok) = .ok counts.sum := by
  induction counts with
  | nil => rfl
  | cons n counts ih =>
    rw [List.map_cons, total, ih]
    rfl

theorem total_eq_error {e : Error} : total results = .error e ↔
    ∃ before after, results = before ++ .error e :: after ∧ ∀ r ∈ before, ∃ n, r = .ok n := by
  induction results with
  | nil => simp [total]
  | cons r results ih =>
    cases r with
    | error e' =>
      refine ⟨fun same => ?_, fun ⟨before, after, whole, well⟩ => ?_⟩
      · cases same
        exact ⟨[], results, rfl, by simp⟩
      · cases before with
        | nil =>
          cases whole
          rfl
        | cons r before =>
          obtain ⟨rfl, -⟩ := List.cons.inj whole
          obtain ⟨n, ok⟩ := well _ List.mem_cons_self
          cases ok
    | ok n =>
      have later : total (.ok n :: results) = .error e ↔ total results = .error e := by
        rw [total]
        cases total results <;> simp [Except.map]
      rw [later, ih]
      refine ⟨fun ⟨before, after, whole, well⟩ => ?_, fun ⟨before, after, whole, well⟩ => ?_⟩
      · exact ⟨.ok n :: before, after, by rw [whole]; rfl,
          List.forall_mem_cons.2 ⟨⟨n, rfl⟩, well⟩⟩
      · cases before with
        | nil => cases whole
        | cons r before =>
          exact ⟨before, after, (List.cons.inj whole).2, (List.forall_mem_cons.1 well).2⟩

-- The queues of trackers and the hand-offs in front of them.
def fleet (s : Session) (trackers : List SessionTracker) : Fleet where
  start := s
  queues := (trackers.filterMap (·.queue)).dedup
  nodup := List.nodup_dedup _
  handoffs := trackers.filterMap (·.handoff)

theorem covers_fleet (s : Session) (trackers : List SessionTracker) :
    (s.fleet trackers).Covers trackers where
  queues x listed _ its := List.mem_dedup.2 (List.mem_filterMap.2 ⟨x, listed, its⟩)
  handoffs x listed _ its := List.mem_filterMap.2 ⟨x, listed, its⟩

def acceptedSince (id : QueueId) (s u : Session) : List (List Event) :=
  (u.ledger.accepted id).drop (s.ledger.accepted id).length

-- What comes of flushing trackers at the same time, with a result for each of them.
structure FlushedAll (s : Session) (trackers : List SessionTracker)
    (steps : List (Session × Session)) (results : List (Except Error Nat)) (x : Except Error Nat)
    (u : Session) : Prop where
  -- Each flush took its own steps from its beginning to its end.
  ran : List.Forall₂ (fun t r => ∃ own, List.Sublist own steps ∧
    Passes (flushTracker t) own (.done r)) trackers results
  -- In their order.
  delivered : ∀ id ∈ (s.fleet trackers).queues, s.ledger.accepted id <+: u.ledger.accepted id ∧
    (acceptedSince id s u).flatten ++ u.stored id = s.stored id
  once : (((s.fleet trackers).queues.flatMap fun id => (acceptedSince id s u).flatten).map
    Event.id).Nodup
  emptied : ∀ id ∈ (s.fleet trackers).queues,
    (∀ p ∈ trackers.zip results, p.1.queue = some id → ∃ n, p.2 = .ok n) → u.stored id = []
  succeeds : (∀ r ∈ results, ∃ n, r = .ok n) →
    x = .ok ((s.fleet trackers).queues.map fun id => (acceptedSince id s u).flatten.length).sum ∧
      ∀ id ∈ (s.fleet trackers).queues, u.stored id = []
  -- The first result that is an error.
  fails : ∀ e, x = .error e ↔
    ∃ before after, results = before ++ .error e :: after ∧ ∀ r ∈ before, ∃ n, r = .ok n

theorem flushAll_ended (trail : Trail R (flushAll trackers) s steps (.done x) u) :
    ∃ results, x = total results ∧
      List.Forall₂ (fun t r => ∃ own, List.Sublist own steps ∧
        Passes (flushTracker t) own (.done r)) trackers results ∧
      Run (.closed _ R) ⟨s, trackers.map flushTracker⟩ ⟨u, results.map .done⟩ := by
  obtain ⟨a, passes, ended⟩ := Passes.of_map trail.passes
  obtain ⟨results, rfl, rfl⟩ := ended x rfl
  refine ⟨results, rfl, ?_, ?_⟩
  · obtain ⟨legs, own, idle, rfl, each, merges, whole, _, left⟩ := passes.of_gather
    have lefts := left results rfl
    have lengths : legs.length = results.length := by simpa using congrArg List.length lefts
    refine List.forall₂_iff_get.2 ⟨by simpa using lengths, fun i inside there => ?_⟩
    have here : i < legs.length := by simpa using inside
    have goes := each legs[i] (List.getElem_mem here)
    have ended : legs[i].left = .done results[i] := by
      have same := congrArg (·[i]?) lefts
      simpa [here, lengths ▸ here] using same
    rw [ended] at goes
    refine ⟨legs[i].steps, ?_, by simpa using goes⟩
    have listed : legs[i].steps ∈ legs.map Leg.steps := List.mem_map_of_mem (List.getElem_mem here)
    exact (merges.sublist listed).trans whole.sublist
  · have gathered : Trail R (gather (trackers.map flushTracker)) s steps (.done results) u :=
      ⟨passes, trail.linked⟩
    obtain ⟨tasks, run, joined⟩ := gathered.crowd (.gather _)
    exact joined.eq_of_done ▸ run

theorem trackersOf_ids {r : Repository TrackerRef} (fine : Registered s r) :
    (s.trackersOf r).map Tracker.trackerId = r.ids := by
  have each (entries : List (String × TrackerRef))
      (known : ∀ x ∈ entries, s.HasTracker x.2 x.1) :
      ((entries.map (·.2)).filterMap s.tracker?).map Tracker.trackerId = entries.map (·.1) := by
    induction entries with
    | nil => rfl
    | cons x entries ih =>
      obtain ⟨⟨_, t, found, named⟩, others⟩ := List.forall_mem_cons.1 known
      have rest := ih others
      simp only [List.map_cons, List.filterMap_cons_some found, named, rest]
  exact each r.trackers.entries fine.keyed

section Trackers

variable (sound : (s.fleet trackers).Sound) (alone : (s.fleet trackers).LeftAlone R)

include sound alone

theorem flushAll_ends (responds : (s.fleet trackers).Responds R) {b : Task (Except Error Nat)}
    (trail : Trail R (flushAll trackers) s steps b u) :
    ∃ rest x v, Trail R b u rest (.done x) v := by
  obtain ⟨a, passes, rfl⟩ | ⟨results, before, after, rfl, _, rest⟩ := Passes.of_bind trail.passes
  · have gathered : Trail R (gather (trackers.map flushTracker)) s steps a u :=
      ⟨passes, trail.linked⟩
    obtain ⟨tasks, run, joined⟩ := gathered.crowd (.gather _)
    obtain ⟨v, results, more⟩ :=
      Fleet.all_end sound alone (covers_fleet s trackers) responds run
    obtain ⟨during, b, goes, joined⟩ := more.trail joined
    obtain ⟨last, comes⟩ := (joined.finish rfl v).trail (R := R)
    have whole : Passes a (during ++ last) (.done results) := goes.passes.trans comes.passes
    exact ⟨during ++ last ++ [], total results, v, whole.bind .stay,
      (goes.linked.append comes.linked).append (.last .refl)⟩
  · obtain ⟨_, rfl⟩ := rest.of_done
    exact ⟨[], _, u, .stay, .last .refl⟩

section Ended

variable (run : Run (.closed _ R) ⟨s, trackers.map flushTracker⟩ ⟨u, results.map .done⟩)

include run

theorem stored_eq_view (id : QueueId) : u.stored id = ((s.fleet trackers).view id u).events := by
  have intact := Fleet.run_intact sound alone (covers_fleet s trackers) run
  unfold stored
  rw [intact.store_eq id]
  rfl

theorem delivered_since (mine : id ∈ (s.fleet trackers).queues) :
    s.ledger.accepted id <+: u.ledger.accepted id ∧
      (acceptedSince id s u).flatten ++ u.stored id = s.stored id := by
  have ended : ∀ a ∈ (results.map .done : List (Task (Except Error Nat))), ∃ r, a = .done r := by
    intro a ha
    obtain ⟨r, _, rfl⟩ := List.mem_map.1 ha
    exact ⟨r, rfl⟩
  obtain ⟨batches, drawn⟩ :=
    Fleet.drawn_of_ended sound alone (covers_fleet s trackers) mine run ended
  have accepted : u.ledger.accepted id = s.ledger.accepted id ++ batches := drawn.accepted
  have since : acceptedSince id s u = batches := by
    rw [acceptedSince, accepted, List.drop_left]
  rw [since, stored_eq_view sound alone run]
  exact ⟨⟨batches, accepted.symm⟩, drawn.events⟩

theorem once_since : (((s.fleet trackers).queues.flatMap fun id =>
    (acceptedSince id s u).flatten).map Event.id).Nodup := by
  refine sound.distinct.sublist (List.Sublist.map _ (List.Sublist.flatMap_right _ ?_))
  intro id mine
  have whole := (delivered_since sound alone run mine).2
  exact whole ▸ List.sublist_append_left _ _

theorem emptied_unless_failed (lengths : trackers.length = results.length)
    (mine : id ∈ (s.fleet trackers).queues)
    (well : ∀ p ∈ trackers.zip results, p.1.queue = some id → ∃ n, p.2 = .ok n) :
    u.stored id = [] := by
  obtain ⟨t, listed, its⟩ := List.mem_filterMap.1 (List.mem_dedup.1 mine)
  obtain ⟨i, inside, rfl⟩ := List.getElem_of_mem listed
  have there : i < results.length := lengths ▸ inside
  have paired : (trackers[i], results[i]) ∈ trackers.zip results :=
    List.mem_iff_getElem.2 ⟨i, by simpa using ⟨inside, there⟩, List.getElem_zip⟩
  obtain ⟨n, result⟩ : ∃ n, results[i] = .ok n := well _ paired its
  have ended : (results.map .done : List (Task (Except Error Nat)))[i]? =
      some (.done (.ok n)) := by
    rw [List.getElem?_map, List.getElem?_eq_getElem there, result]
    rfl
  rw [stored_eq_view sound alone run]
  exact Fleet.emptied sound alone (covers_fleet s trackers) mine run
    (List.getElem?_eq_getElem inside) its ended

theorem tally_since : (s.fleet trackers).tally u = (s.fleet trackers).tally s +
    ((s.fleet trackers).queues.map fun id => (acceptedSince id s u).flatten.length).sum := by
  have lengths : ∀ id ∈ (s.fleet trackers).queues, (u.ledger.accepted id).flatten.length =
      (s.ledger.accepted id).flatten.length + (acceptedSince id s u).flatten.length := by
    intro id mine
    obtain ⟨⟨batches, more⟩, -⟩ := delivered_since sound alone run mine
    rw [acceptedSince, ← more, List.drop_left, List.flatten_append, List.length_append]
  unfold Fleet.tally
  rw [List.map_congr_left lengths, List.sum_map_add]

end Ended

theorem flushAll_report (trail : Trail R (flushAll trackers) s steps (.done x) u) :
    ∃ results, FlushedAll s trackers steps results x u := by
  obtain ⟨results, rfl, ran, run⟩ := flushAll_ended trail
  have emptied : ∀ id ∈ (s.fleet trackers).queues, _ → u.stored id = [] :=
    fun _ => emptied_unless_failed sound alone run ran.length_eq
  refine ⟨results, ran, fun _ => delivered_since sound alone run, once_since sound alone run,
    emptied, fun well => ?_, fun e => total_eq_error⟩
  obtain ⟨counts, rfl⟩ : results ∈ Set.range (List.map Except.ok) := by
    rw [Set.range_list_map]
    exact fun r hr => (well r hr).imp fun _ => Eq.symm
  have counted : (s.fleet trackers).tally u = (s.fleet trackers).tally s + counts.sum :=
    Fleet.counted_of_ended sound alone (covers_fleet s trackers) run (by simp)
  have since := tally_since sound alone run
  rw [total_ok, Nat.add_left_cancel (counted.symm.trans since)]
  refine ⟨rfl, fun id mine => emptied id mine fun p hp _ => ?_⟩
  exact well p.2 (List.of_mem_zip hp).2

end Trackers

/-- Flushing a repository flushes the queues of all its trackers, whose results come in the order of
the ids. If the calls of the transports come back, it can be brought to its end from any point. When
it has ended, the flush of each tracker has run to its end; each event was accepted at most once, in
the order of its queue, and what was not accepted is still stored; and the queues are empty of which
no flush has failed. If all flushes succeeded, the answer is how many events were accepted in
between, and no queue has any left; otherwise it is the error of the first one that failed. -/
theorem flushAll_exact {r : Repository TrackerRef} (fine : Registered s r)
    (sound : (s.fleet (s.trackersOf r)).Sound) (alone : (s.fleet (s.trackersOf r)).LeftAlone R) :
    (s.trackersOf r).map Tracker.trackerId = r.ids ∧ r.ids.Pairwise (· < ·) ∧
    ((s.fleet (s.trackersOf r)).Responds R →
      ∀ steps b u, Trail R (flushAll (s.trackersOf r)) s steps b u →
        ∃ rest x v, Trail R b u rest (.done x) v) ∧
    ∀ steps x u, Trail R (flushAll (s.trackersOf r)) s steps (.done x) u →
      ∃ results, FlushedAll s (s.trackersOf r) steps results x u := by
  refine ⟨trackersOf_ids fine, List.pairwise_map.2 r.trackers.sorted, ?_, ?_⟩
  · exact fun responds _ _ _ trail => flushAll_ends sound alone responds trail
  · exact fun _ _ _ trail => flushAll_report sound alone trail

def sampleBranch (id : String) (queue : QueueId) : SessionTracker where
  applicationId := "shop"
  trackerId := id
  active := true
  contexts := {}
  plugins := ⟨[]⟩
  handoff := some 0
  queue := some queue
  console := 0

def sampleBranches : Session where
  network := sampleCollecting.network
  leaves := sampleCollecting.leaves
  stores := #[{ events := ["a", "b", "c", "d"].map fun id => .stamp { type := "Flushed" } id 0 },
    { events := ["e"].map fun id => .stamp { type := "Flushed" } id 0 }]
  queues := #[{ batchSize := 2, store := 0, transport := some (.leaf 0) },
    { batchSize := 2, store := 1, transport := some (.leaf 0) }]
  handoffs := #[{ transport := .queued 0 (.leaf 0) }]
  trackers := #[sampleBranch "east" 0, sampleBranch "north" 1, sampleBranch "south" 0]

def sampleRegister : Repository TrackerRef where
  trackers := .ofList [("east", ⟨0, "east"⟩), ("north", ⟨1, "north"⟩), ("south", ⟨2, "south"⟩)]

theorem fleet_branches (id : QueueId)
    (mine : id ∈ (sampleBranches.fleet (sampleBranches.trackersOf sampleRegister)).queues) :
    id = 0 ∨ id = 1 := by
  have queues : (sampleBranches.fleet (sampleBranches.trackersOf sampleRegister)).queues =
      [1, 0] := rfl
  rw [queues] at mine
  simpa [or_comm] using mine

theorem flushAll_exact_branches :
    let branches := sampleBranches.trackersOf sampleRegister
    Registered sampleBranches sampleRegister ∧ (sampleBranches.fleet branches).Sound ∧
    (sampleBranches.fleet branches).LeftAlone Ticks ∧
    (sampleBranches.fleet branches).Responds Ticks ∧
    (∃ rest x v, Trail Ticks (flushAll branches) sampleBranches rest (.done x) v) ∧
    ∃ steps results u,
      Trail Ticks (flushAll branches) sampleBranches steps (.done (.error sampleRejection)) u ∧
      FlushedAll sampleBranches branches steps results (.error sampleRejection) u ∧
      u.stored 0 = [] ∧ (u.stored 1).map Event.id = ["e"] := by
  intro branches
  have fine : Registered sampleBranches sampleRegister := by
    refine ⟨fun x there => ?_, nofun⟩
    have entries : sampleRegister.trackers.entries =
        [("east", ⟨0, "east"⟩), ("north", ⟨1, "north"⟩), ("south", ⟨2, "south"⟩)] := rfl
    rw [entries] at there
    simp only [List.mem_cons, List.not_mem_nil, or_false] at there
    rcases there with rfl | rfl | rfl <;> exact ⟨rfl, _, rfl, rfl⟩
  have wires (id : QueueId) (mine : id ∈ (sampleBranches.fleet branches).queues) :
      (sampleBranches.queue id).transport = some (.leaf 0) := by
    rcases fleet_branches id mine with rfl | rfl <;> rfl
  have sound : (sampleBranches.fleet branches).Sound := {
    hasQueue := fun id mine => by rcases fleet_branches id mine with rfl | rfl <;> decide
    hasStore := fun id mine => by rcases fleet_branches id mine with rfl | rfl <;> decide
    inMemory := fun id mine => by rcases fleet_branches id mine with rfl | rfl <;> rfl
    batchSize_pos := fun id mine => by rcases fleet_branches id mine with rfl | rfl <;> decide
    apart := by
      rintro inner ⟨id, mine, t, wired, fed⟩
      obtain rfl := Option.some.inj ((wires id mine).symm.trans wired)
      cases fed
    free := fun id mine => by rcases fleet_branches id mine with rfl | rfl <;> rfl
    settled := fun h waited => by
      obtain rfl : h = 0 := by simpa using (show h ∈ [0, 0, 0] from waited)
      rfl
    distinct := by decide }
  have alone : (sampleBranches.fleet branches).LeftAlone Ticks := by
    refine ⟨?_, fun _ scheduler => ⟨scheduler, rfl⟩⟩
    rintro s _ ⟨scheduler, rfl⟩
    exact .of_stock rfl
  have responds : (sampleBranches.fleet branches).Responds Ticks := by
    intro id mine t wired
    obtain rfl := Option.some.inj ((wires id mine).symm.trans wired)
    exact completes_leaf (fun _ scheduler => ⟨scheduler, rfl⟩) 0
  obtain ⟨_, _, ends, report⟩ := flushAll_exact fine sound alone
  have run : Async.Steps (flushAll branches) sampleBranches (.done (.error sampleRejection))
      ((flushAll branches).poll 200 sampleBranches).2 := Async.poll_steps 200 _ _
  obtain ⟨steps, trail⟩ := run.trail (R := Ticks)
  obtain ⟨results, flushed⟩ := report _ _ _ trail
  exact ⟨fine, sound, alone, responds, ends responds _ _ _ ⟨.stay, .last .refl⟩,
    steps, results, _, trail, flushed, by decide, by decide⟩

end EventTracking.Session
