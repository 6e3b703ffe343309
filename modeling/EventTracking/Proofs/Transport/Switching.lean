import EventTracking.Proofs.Async.Gathering
import EventTracking.Proofs.Transport.Accounting
import EventTracking.Proofs.Transport.Usability

set_option autoImplicit false

namespace EventTracking

namespace Switch

variable (u : LeafId → Bool) (routes : List (Matcher × Transport))

def CanTake (e : Event) (i : Nat) : Prop :=
  ∃ r ∈ routes[i]?, r.2.isUsable u = true ∧ r.1 e = true

instance (e : Event) (i : Nat) : Decidable (CanTake u routes e i) :=
  inferInstanceAs (Decidable (∃ r ∈ routes[i]?, r.2.isUsable u = true ∧ r.1 e = true))

def TakenBy (e : Event) (i : Nat) : Prop :=
  CanTake u routes e i ∧ ∀ j < i, ¬ CanTake u routes e j

instance (e : Event) (i : Nat) : Decidable (TakenBy u routes e i) :=
  inferInstanceAs (Decidable (CanTake u routes e i ∧ ∀ j < i, ¬ CanTake u routes e j))

def share (batch : List Event) (i : Nat) : List Event :=
  batch.filter fun e => TakenBy u routes e i

def unrouted (batch : List Event) : List Event :=
  batch.filter fun e => ∀ i < routes.length, ¬ CanTake u routes e i

structure Call where
  route : Nat
  transport : Transport
  events : List Event

def calls (batch : List Event) : List Call :=
  (routes.mapIdx fun i r => ⟨i, r.2, share u routes batch i⟩).filter (!·.events.isEmpty)

def Sums (answers : List (Except Error Unit)) (r : Except Error Unit) : Prop :=
  (r = .ok () ↔ ∀ a ∈ answers, a = .ok ()) ∧
    ∀ e, r = .error e ↔
      ∃ before after, answers = before ++ .error e :: after ∧ ∀ a ∈ before, a = .ok ()

variable {u routes} {e : Event} {i : Nat} {batch : List Event}

theorem canTake_iff_getElem (inside : i < routes.length) :
    CanTake u routes e i ↔ routes[i].2.isUsable u = true ∧ routes[i].1 e = true := by
  simp [CanTake, List.getElem?_eq_getElem inside]

theorem CanTake.lt (h : CanTake u routes e i) : i < routes.length := by
  obtain ⟨r, found, _⟩ := h
  exact (List.getElem?_eq_some_iff.1 found).1

theorem routeOf?_eq_some_iff :
    routeOf? (Transport.opened u routes) e = some i ↔ TakenBy u routes e i := by
  rw [routeOf?, List.findIdx?_eq_some_iff_getElem]
  constructor
  · rintro ⟨inside, takes, first⟩
    have here : i < routes.length := by simpa [Transport.opened] using inside
    refine ⟨(canTake_iff_getElem here).2 (by simpa [Transport.opened] using takes), ?_⟩
    intro j before
    rw [canTake_iff_getElem (before.trans here)]
    simpa [Transport.opened] using first j before
  · rintro ⟨takes, first⟩
    have here := takes.lt
    refine ⟨by simpa [Transport.opened] using here, ?_, ?_⟩
    · simpa [Transport.opened] using (canTake_iff_getElem here).1 takes
    · intro j before
      have passes := first j before
      rw [canTake_iff_getElem (before.trans here)] at passes
      simpa [Transport.opened] using passes

theorem routeOf?_eq_none_iff :
    routeOf? (Transport.opened u routes) e = none ↔
      ∀ i < routes.length, ¬ CanTake u routes e i := by
  rw [routeOf?, List.findIdx?_eq_none_iff, Transport.opened, List.forall_mem_map,
    List.forall_mem_iff_getElem]
  refine forall₂_congr fun i inside => ?_
  rw [canTake_iff_getElem inside]
  simp

theorem bucket_opened : bucket (Transport.opened u routes) batch = share u routes batch := by
  funext i
  refine List.filter_congr fun e _ => ?_
  rw [Bool.eq_iff_iff, beq_iff_eq, routeOf?_eq_some_iff, decide_eq_true_iff]

theorem dropped_opened : dropped (Transport.opened u routes) batch = unrouted u routes batch := by
  refine List.filter_congr fun e _ => ?_
  rw [Bool.eq_iff_iff, beq_iff_eq, routeOf?_eq_none_iff, decide_eq_true_iff]

theorem map_mapIdx {τ : Type} (f : Nat → Matcher × Transport → Call) {g : Call → τ} (h : Nat → τ)
    (routes : List (Matcher × Transport)) (same : ∀ i r, g (f i r) = h i) :
    (routes.mapIdx f).map g = (List.range routes.length).map h :=
  List.ext_getElem (by simp) (by simp [same])

theorem mem_calls {x : Call} : x ∈ calls u routes batch ↔
    routes[x.route]?.map Prod.snd = some x.transport ∧
      x.events = share u routes batch x.route ∧ x.events ≠ [] := by
  obtain ⟨i, t, events⟩ := x
  simp only [calls, List.mem_filter, List.mem_mapIdx, Call.mk.injEq, Option.map_eq_some_iff,
    List.getElem?_eq_some_iff, Bool.not_eq_true', List.isEmpty_eq_false_iff]
  constructor
  · rintro ⟨⟨j, inside, rfl, rfl, rfl⟩, some_⟩
    exact ⟨⟨_, ⟨inside, rfl⟩, rfl⟩, rfl, some_⟩
  · rintro ⟨⟨r, ⟨inside, rfl⟩, rfl⟩, rfl, some_⟩
    exact ⟨⟨i, inside, rfl, rfl, rfl⟩, some_⟩

theorem pairwise_calls : (calls u routes batch).Pairwise (·.route < ·.route) := by
  have numbers : (routes.mapIdx fun i r => (⟨i, r.2, share u routes batch i⟩ : Call)).map
      Call.route = List.range routes.length :=
    (map_mapIdx _ id routes fun _ _ => rfl).trans (List.map_id _)
  have increasing : (List.range routes.length).Pairwise (· < ·) := List.pairwise_lt_range
  rw [← numbers] at increasing
  exact (List.pairwise_map.1 increasing).filter _

theorem flatMap_calls : (calls u routes batch).flatMap Call.events =
    (List.range routes.length).flatMap (share u routes batch) := by
  have nonempty (l : List Call) :
      (l.filter (!·.events.isEmpty)).flatMap Call.events = l.flatMap Call.events := by
    induction l with
    | nil => rfl
    | cons x l ih => cases h : x.events <;> simp [h, ih]
  rw [calls, nonempty, List.flatMap_def, List.flatMap_def]
  exact congrArg List.flatten (map_mapIdx _ _ routes fun _ _ => rfl)

theorem perm_calls_append_unrouted :
    batch.Perm ((calls u routes batch).flatMap Call.events ++ unrouted u routes batch) := by
  have split : batch.Perm ((List.range (Transport.opened u routes).length).flatMap
      (bucket (Transport.opened u routes) batch) ++ dropped (Transport.opened u routes) batch) :=
    perm_buckets_append_dropped batch
  rwa [bucket_opened, dropped_opened, Transport.opened, List.length_map, ← flatMap_calls] at split

theorem sums_collect (answers : List (Except Error Unit)) : Sums answers (collect answers) := by
  induction answers with
  | nil => exact ⟨by simp [collect], by simp [collect]⟩
  | cons a answers ih =>
    obtain e | _ := a
    · refine ⟨by simp [collect], fun e' => ⟨?_, ?_⟩⟩
      · intro same
        cases same
        exact ⟨[], answers, rfl, by simp⟩
      · rintro ⟨_ | ⟨b, before⟩, after, split, fine⟩
        · cases split
          rfl
        · cases split
          cases fine (.error e) (by simp)
    · refine ⟨by simpa [collect] using ih.1, fun e => (ih.2 e).trans ⟨?_, ?_⟩⟩
      · rintro ⟨before, after, rfl, fine⟩
        exact ⟨.ok () :: before, after, rfl, by simpa using fine⟩
      · rintro ⟨_ | ⟨b, before⟩, after, split, fine⟩
        · cases split
        · obtain ⟨_, rfl⟩ := List.cons.inj split
          exact ⟨before, after, rfl, fun a ha => fine a (by simp [ha])⟩

end Switch

namespace Transport

open Async (Passes Leg Ends)
open Switch (Call)

variable {σ : Type} {env : Surroundings σ} {u : LeafId → Bool}
  {routes : List (Matcher × Transport)} {batch : List Event}

theorem handleRoutes_eq_map (env : Surroundings σ) (bucket : Nat → List Event) (i : Nat)
    (routes : List (Matcher × Transport)) : handleRoutes env bucket i routes =
      ((routes.mapIdx fun j r => (⟨i + j, r.2, bucket (i + j)⟩ : Call)).filter
        (!·.events.isEmpty)).map fun x => x.transport.handle env x.events := by
  induction routes generalizing i with
  | nil => rfl
  | cons r rest ih =>
    have later := ih (i + 1)
    simp only [Nat.add_right_comm i 1] at later
    rw [handleRoutes, List.mapIdx_cons, List.filter_cons]
    split
    next none => simpa [none, Nat.add_assoc] using later
    next some_ => simpa [some_, Nat.add_assoc] using later

structure Called (env : Surroundings σ) (calls : List Call)
    (legs : List (Leg σ Call (Except Error Unit))) (own idle steps : List (σ × σ)) : Prop where
  tasks : legs.map Leg.task = calls
  passes : ∀ x ∈ legs, Passes (x.task.transport.handle env x.task.events) x.steps x.left
  merges : Merges (legs.map Leg.steps) own
  merge : Merge own idle steps
  idle : ∀ p ∈ idle, p.2 = p.1

def warnAll (env : Surroundings σ) (console : ConsoleId) (unrouted : List Event) (s : σ) : σ :=
  unrouted.foldl (fun s e => env.warn console (Switch.dropMessage e) s) s

inductive Distributes (env : Surroundings σ) (console : ConsoleId) (calls : List Call)
    (unrouted : List Event) : List (σ × σ) → Async σ (Except Error Unit) → Prop where
  | looks {steps : List (σ × σ)} {b : Async σ (Except Error Unit)} (short : steps.length ≤ 1)
      (quiet : ∀ p ∈ steps, p.2 = p.1) (goesOn : ∀ r, b ≠ .done r) :
      Distributes env console calls unrouted steps b
  | calls {legs : List (Leg σ Call (Except Error Unit))} {own idle rest : List (σ × σ)}
      {b : Async σ (Except Error Unit)} (s t : σ) (called : Called env calls legs own idle rest)
      (answers : ∀ r, b = .done r →
        ∃ answers, legs.map Leg.left = answers.map .done ∧ Switch.Sums answers r) :
      Distributes env console calls unrouted
        ((s, s) :: (t, warnAll env console unrouted t) :: rest) b

def distribute (env : Surroundings σ) (console : ConsoleId) (routes : List (Matcher × Transport))
    (batch : List Event) (open_ : List (Matcher × Bool)) : Async σ (Except Error Unit) :=
  if open_.any (·.2) then
    .step (fun s => ((), warnAll env console (Switch.dropped open_ batch) s)) fun _ =>
      .bind (.gather (handleRoutes env (Switch.bucket open_ batch) 0 routes)) fun results =>
        .done (Switch.collect results)
  else refuse env switchError

theorem handle_switch (env : Surroundings σ) (console : ConsoleId)
    (routes : List (Matcher × Transport)) (batch : List Event) :
    (switch console routes).handle env batch =
      .step (fun s => (opened (env.leafUsable · s) routes, s))
        (distribute env console routes batch) := rfl

theorem distribute_opened (console : ConsoleId) (usable : anyRouteUsable u routes = true) :
    distribute env console routes batch (opened u routes) =
      .step (fun s => ((), warnAll env console (Switch.unrouted u routes batch) s)) fun _ =>
        .gather ((Switch.calls u routes batch).map fun x => x.transport.handle env x.events) >>=
          fun results => .done (Switch.collect results) := by
  rw [distribute, if_pos ((any_opened routes).trans usable), Switch.dropped_opened,
    Switch.bucket_opened, handleRoutes_eq_map]
  simp only [Nat.zero_add]
  rfl

theorem distributes {console : ConsoleId} {steps : List (σ × σ)} {b : Async σ (Except Error Unit)}
    (usable : anyRouteUsable u routes = true)
    (go : Passes ((switch console routes).handle env batch) steps b)
    (steady : ∀ p ∈ steps, Steady env u (leaves.ofRoutes routes) p.1) :
    Distributes env console (Switch.calls u routes batch) (Switch.unrouted u routes batch)
      steps b := by
  rw [handle_switch] at go
  cases go with
  | stay => exact .looks (by simp) (by simp) nofun
  | @step _ _ _ s _ _ step go =>
    cases step
    have here : Steady env u (leaves.ofRoutes routes) s := steady (s, s) (by simp)
    change Passes (distribute env console routes batch (opened (env.leafUsable · s) routes))
      _ b at go
    rw [opened_of_steady here, distribute_opened console usable] at go
    cases go with
    | stay => exact .looks (by simp) (by simp) nofun
    | @step _ _ _ t _ _ step go =>
      cases step
      obtain ⟨b', go, ends⟩ := go.of_map
      obtain ⟨legs, own, idle, tasks, passes, merges, merge, quiet, lefts⟩ := go.of_gather
      refine .calls s t ⟨tasks, passes, merges, merge, quiet⟩ fun r ended => ?_
      obtain ⟨answers, rfl, rfl⟩ := ends r ended
      exact ⟨answers, lefts answers rfl, Switch.sums_collect answers⟩

theorem ends_switch {console : ConsoleId} (usable : anyRouteUsable u routes = true)
    (steady : ∃ s, Steady env u (leaves.ofRoutes routes) s)
    (ends : ∀ x ∈ Switch.calls u routes batch,
      Ends (Steady env u (leaves.ofRoutes routes) ·.1) (x.transport.handle env x.events)) :
    Ends (Steady env u (leaves.ofRoutes routes) ·.1)
      ((switch console routes).handle env batch) := by
  refine .step steady fun s here => ?_
  change Ends _ (distribute env console routes batch (opened (env.leafUsable · s) routes))
  rw [opened_of_steady here, distribute_opened console usable]
  obtain ⟨s, hs⟩ := steady
  refine .step ⟨s, hs⟩ fun t _ => .bind (.gather ⟨s, hs⟩ ?_) fun results => .pure _
  simpa using ends

/-- Each event of a batch goes to the first usable route that accepts it, or is dropped where there
is none. A switch warns of each dropped event once, and then calls each route that events go to,
once, with all of them in their order. These calls go on side by side until all of them have ended,
and the first error in the order of the routes, if any, is the result. The switch can be brought to
its end if each of the calls can. -/
theorem switch_partitions (env : Surroundings σ) (u : LeafId → Bool) (console : ConsoleId)
    (routes : List (Matcher × Transport)) (batch : List Event)
    (usable : anyRouteUsable u routes = true) :
    let calls := Switch.calls u routes batch
    let unrouted := Switch.unrouted u routes batch
    batch.Perm (calls.flatMap Call.events ++ unrouted) ∧
    calls.Pairwise (·.route < ·.route) ∧
    (∀ x, x ∈ calls ↔ routes[x.route]?.map Prod.snd = some x.transport ∧
      x.events = Switch.share u routes batch x.route ∧ x.events ≠ []) ∧
    (∀ {steps b}, Passes ((switch console routes).handle env batch) steps b →
      (∀ p ∈ steps, Steady env u (leaves.ofRoutes routes) p.1) →
        Distributes env console calls unrouted steps b) ∧
    ((∃ s, Steady env u (leaves.ofRoutes routes) s) →
      (∀ x ∈ calls,
        Ends (Steady env u (leaves.ofRoutes routes) ·.1) (x.transport.handle env x.events)) →
      Ends (Steady env u (leaves.ofRoutes routes) ·.1)
        ((switch console routes).handle env batch)) :=
  ⟨Switch.perm_calls_append_unrouted, Switch.pairwise_calls, fun _ => Switch.mem_calls,
    distributes usable, ends_switch usable⟩

def sampleRoutes : List (Matcher × Transport) :=
  [(Matcher.anything, .leaf 0), (Matcher.byType "Failure", .leaf 1),
    (Matcher.byType "Press", .leaf 2)]

def sampleBatch : List Event :=
  ["Press", "Failure", "Visible", "Press"].zipIdx.map fun (type, i) =>
    .stamp { type } (toString i) 0

def sampleEndpoints : Surroundings Nat where
  leafUsable id _ := id != 0
  deliver id _ := .act fun n => (if id = 1 then .error .http else .ok (), n)
  enqueue _ _ := pure (.ok ())
  warn _ _ n := n + 1
  isCancelled _ _ := false
  cancelled _ := Async.never
  pause _ _ := pure ()
  elapsed n := (0, n)

theorem switch_partitions_sample :
    ((Switch.calls (· != 0) sampleRoutes sampleBatch).map fun x =>
      (x.route, x.events.map Event.id)) = [(1, ["1"]), (2, ["0", "3"])] ∧
    (Switch.unrouted (· != 0) sampleRoutes sampleBatch).map Event.id = ["2"] ∧
    ∃ steps, Passes ((switch 0 sampleRoutes).handle sampleEndpoints sampleBatch) steps
        (.done (.error .http)) ∧
      Distributes sampleEndpoints 0 (Switch.calls (· != 0) sampleRoutes sampleBatch)
        (Switch.unrouted (· != 0) sampleRoutes sampleBatch) steps (.done (.error .http)) ∧
      Ends (Steady sampleEndpoints (· != 0) (leaves.ofRoutes sampleRoutes) ·.1)
        ((switch 0 sampleRoutes).handle sampleEndpoints sampleBatch) := by
  obtain ⟨steps, go⟩ := (Async.poll_steps 50
    ((switch 0 sampleRoutes).handle sampleEndpoints sampleBatch) 0).passes
  obtain ⟨_, _, called, distributes, ends⟩ :=
    switch_partitions sampleEndpoints (· != 0) 0 sampleRoutes sampleBatch (by decide)
  refine ⟨by decide, by decide, steps, go, distributes go fun _ _ _ _ => rfl, ?_⟩
  refine ends ⟨0, fun _ _ => rfl⟩ fun x hx => ?_
  obtain ⟨r, found, routed⟩ := Option.map_eq_some_iff.1 ((called x).1 hx).1
  have leaf : ∃ id, x.transport = .leaf id := by
    rw [← routed]
    have listed := List.mem_of_getElem? found
    simp only [sampleRoutes, List.mem_cons, List.not_mem_nil, or_false] at listed
    rcases listed with rfl | rfl | rfl <;> exact ⟨_, rfl⟩
  obtain ⟨id, leaf⟩ := leaf
  rw [leaf]
  exact .act ⟨0, fun _ _ => rfl⟩

end Transport

end EventTracking
