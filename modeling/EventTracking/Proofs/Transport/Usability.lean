import EventTracking.Proofs.Transport.Record

set_option autoImplicit false

namespace EventTracking

def Deed.Serves (ends : List Endpoint) : Deed → Prop
  | called x _ => x ∈ ends
  | refused _ => False
  | _ => True

theorem Deed.Serves.mono {ends ends' : List Endpoint} (sub : ends ⊆ ends') {x : Deed}
    (h : x.Serves ends) : x.Serves ends' := by
  cases x with
  | called => exact sub h
  | refused => exact h
  | answered | warned | began | cancelled | read | paused | resumed => trivial

namespace Transport

open Async (Records record Passes)

variable {σ : Type} {P : σ → Prop} {env : Surroundings σ} {u v : LeafId → Bool}

def leaves : Transport → List LeafId
  | leaf id => [id]
  | group members => ofMembers members
  | switch _ routes => ofRoutes routes
  | retry _ _ _ inner => leaves inner
  | queued _ inner => leaves inner
where
  ofMembers : List Transport → List LeafId
    | [] => []
    | t :: rest => leaves t ++ ofMembers rest
  ofRoutes : List (Matcher × Transport) → List LeafId
    | [] => []
    | (_, t) :: rest => leaves t ++ ofRoutes rest

def usableEnds (u : LeafId → Bool) : Transport → List Endpoint
  | leaf id => if u id then [.leaf id] else []
  | group members => ofMembers members
  | switch _ routes => ofRoutes routes
  | retry _ _ _ inner => usableEnds u inner
  | queued queue inner => if isUsable u inner then [.queue queue] else []
where
  ofMembers : List Transport → List Endpoint
    | [] => []
    | t :: rest => usableEnds u t ++ ofMembers rest
  ofRoutes : List (Matcher × Transport) → List Endpoint
    | [] => []
    | (_, t) :: rest => usableEnds u t ++ ofRoutes rest

-- What a transport says that is not usable.
def refusal? : Transport → Option Error
  | group members => some (groupError members.length)
  | switch _ _ => some switchError
  | leaf _ | retry _ _ _ _ | queued _ _ => none

-- Whether exactly those of the leaves are usable.
def Steady (env : Surroundings σ) (u : LeafId → Bool) (ids : List LeafId) (s : σ) : Prop :=
  ∀ id ∈ ids, env.leafUsable id s = u id

mutual

theorem isUsable_congr (t : Transport) (h : ∀ id ∈ t.leaves, u id = v id) :
    t.isUsable u = t.isUsable v :=
  match t with
  | .leaf id => h id (by simp [leaves])
  | .group members => anyUsable_congr members h
  | .switch _ routes => anyRouteUsable_congr routes h
  | .retry _ _ _ inner => isUsable_congr inner h
  | .queued _ inner => isUsable_congr inner h

theorem anyUsable_congr (members : List Transport)
    (h : ∀ id ∈ leaves.ofMembers members, u id = v id) :
    anyUsable u members = anyUsable v members :=
  match members with
  | [] => rfl
  | t :: rest => by
    have this := isUsable_congr t fun id hid => h id (by simp [leaves.ofMembers, hid])
    have others := anyUsable_congr rest fun id hid => h id (by simp [leaves.ofMembers, hid])
    rw [anyUsable, anyUsable, this, others]

theorem anyRouteUsable_congr (routes : List (Matcher × Transport))
    (h : ∀ id ∈ leaves.ofRoutes routes, u id = v id) :
    anyRouteUsable u routes = anyRouteUsable v routes :=
  match routes with
  | [] => rfl
  | (_, t) :: rest => by
    have this := isUsable_congr t fun id hid => h id (by simp [leaves.ofRoutes, hid])
    have others := anyRouteUsable_congr rest fun id hid => h id (by simp [leaves.ofRoutes, hid])
    rw [anyRouteUsable, anyRouteUsable, this, others]

end

theorem anyRouteUsable_eq_any (routes : List (Matcher × Transport)) :
    anyRouteUsable u routes = routes.any fun r => isUsable u r.2 := by
  induction routes with
  | nil => rfl
  | cons r rest ih => rw [anyRouteUsable, List.any_cons, ih]

theorem isUsable_of_steady {t : Transport} {s : σ} (h : Steady env u t.leaves s) :
    t.isUsable (env.leafUsable · s) = t.isUsable u := isUsable_congr t h

def opened (u : LeafId → Bool) (routes : List (Matcher × Transport)) : List (Matcher × Bool) :=
  routes.map fun r => (r.1, r.2.isUsable u)

theorem opened_of_steady {routes : List (Matcher × Transport)} {s : σ}
    (h : Steady env u (leaves.ofRoutes routes) s) : opened (env.leafUsable · s) routes =
      opened u routes := by
  induction routes with
  | nil => rfl
  | cons r rest ih =>
    have this : Steady env u r.2.leaves s := fun id hid => h id (by simp [leaves.ofRoutes, hid])
    have others := ih fun id hid => h id (by simp [leaves.ofRoutes, hid])
    simp only [opened, List.map_cons, isUsable_of_steady this] at others ⊢
    rw [others]

theorem any_opened (routes : List (Matcher × Transport)) :
    (opened u routes).any (·.2) = anyRouteUsable u routes := by
  rw [anyRouteUsable_eq_any, opened, List.any_map]
  rfl

theorem isUsable_of_bucket {routes : List (Matcher × Transport)} {batch : List Event} {i : Nat}
    {r : Matcher × Transport} (found : routes[i]? = some r)
    (some_ : Switch.bucket (opened u routes) batch i ≠ []) : r.2.isUsable u = true := by
  obtain ⟨e, he⟩ := List.exists_mem_of_ne_nil _ some_
  have routed : Switch.routeOf? (opened u routes) e = some i := by
    simpa using (List.mem_filter.1 he).2
  obtain ⟨inside, picked, _⟩ := List.findIdx?_eq_some_iff_getElem.1 routed
  obtain ⟨_, rfl⟩ := List.getElem?_eq_some_iff.1 found
  simp [opened] at picked
  exact picked.1

def Serves (P : σ → Prop) (ends : List Endpoint)
    (a : Async (σ × List Deed) (Except Error Unit)) : Prop :=
  Records P a (fun l => ∀ x ∈ l, x.Serves ends) fun _ l => ∀ x ∈ l, x.Serves ends

theorem Serves.mono {ends ends' : List Endpoint} (sub : ends ⊆ ends')
    {a : Async (σ × List Deed) (Except Error Unit)} (h : Serves P ends a) : Serves P ends' a :=
  Records.mono h (fun _ hl x hx => (hl x hx).mono sub) fun _ _ hl x hx => (hl x hx).mono sub

theorem serves_calling {x : Endpoint} {ends : List Endpoint} (mine : x ∈ ends) (batch : List Event)
    (a : Async σ (Except Error Unit)) : Serves P ends (Surroundings.calling x batch a) := by
  have all (r : Except Error Unit) :
      ∀ y ∈ [Deed.called x batch, .answered x batch r], y.Serves ends := by
    simpa [Deed.Serves] using mine
  apply (Surroundings.records_calling x batch a).mono
  · rintro l ⟨r, hl⟩ y hy
    exact all r y (hl.subset hy)
  · rintro r _ rfl
    exact all r

mutual

theorem serves_handle (env : Surroundings σ) (t : Transport) (batch : List Event)
    (steady : ∀ s, P s → Steady env u t.leaves s) (usable : t.isUsable u = true) :
    Serves P (t.usableEnds u) (t.handle env.recorded batch) :=
  match t with
  | .leaf id => by
    have ready : u id = true := usable
    exact serves_calling (by simp [usableEnds, ready]) batch (env.deliver id batch)
  | .group members => serves_handleFirst env members members.length batch steady usable
  | .switch console routes => by
    have some_ : (opened u routes).any (·.2) = true := (any_opened routes).trans usable
    apply Records.bind (F := fun open_ l => open_ = opened u routes ∧ l = [])
    · exact .get (by simp) fun s hs => ⟨opened_of_steady (steady s.1 hs), rfl⟩
    rintro _ _ ⟨rfl, rfl⟩
    rw [if_pos some_]
    have routed := serves_handleRoutes env routes (Switch.bucket (opened u routes) batch) 0 steady
      fun j r found some_ => isUsable_of_bucket found (by simpa using some_)
    have all := routed.mono (fun _ => id) fun _ _ hl => And.intro hl trivial
    exact (Surroundings.records_spread (fun _ => trivial) all).mono (fun _ => id)
      fun _ _ => And.left
  | .retry policy pauser cancellation inner => by
    have attempt := serves_handle env inner batch steady usable
    refine (Surroundings.records_retry (A := fun _ => True) ?_ (fun _ _ => id)
      (Records.mono attempt (fun _ => id) fun _ _ hl => ⟨hl, fun _ => trivial⟩) _).mono
      (fun _ => id) fun _ _ => And.left
    intro x retries
    cases x with
    | called | refused => exact retries.elim
    | answered | warned | began | cancelled | read | paused | resumed => trivial
  | .queued queue inner => by
    have ready : inner.isUsable u = true := usable
    exact serves_calling (by simp [usableEnds, ready]) batch (env.enqueue queue batch)

theorem serves_handleFirst (env : Surroundings σ) (members : List Transport) (size : Nat)
    (batch : List Event) (steady : ∀ s, P s → Steady env u (leaves.ofMembers members) s)
    (usable : anyUsable u members = true) :
    Serves P (usableEnds.ofMembers u members) (handleFirst env.recorded size members batch) :=
  match members with
  | [] => nomatch usable
  | t :: rest => by
    have this (s : σ) (hs : P s) : Steady env u t.leaves s :=
      fun id hid => steady s hs id (by simp [leaves.ofMembers, hid])
    have others (s : σ) (hs : P s) : Steady env u (leaves.ofMembers rest) s :=
      fun id hid => steady s hs id (by simp [leaves.ofMembers, hid])
    apply Records.bind (F := fun seen l => seen = t.isUsable u ∧ l = [])
    · exact .get (by simp) fun s hs => ⟨isUsable_of_steady (this s.1 hs), rfl⟩
    rintro _ _ ⟨rfl, rfl⟩
    split
    next ready =>
      exact (serves_handle env t batch this ready).mono (List.subset_append_left _ _)
    next unready =>
      have later : anyUsable u rest = true := by simpa [anyUsable, unready] using usable
      exact (serves_handleFirst env rest size batch others later).mono
        (List.subset_append_right _ _)

theorem serves_handleRoutes (env : Surroundings σ) (routes : List (Matcher × Transport))
    (bucket : Nat → List Event) (i : Nat)
    (steady : ∀ s, P s → Steady env u (leaves.ofRoutes routes) s)
    (usable : ∀ j r, routes[j]? = some r → bucket (i + j) ≠ [] → r.2.isUsable u = true) :
    Records P (.gather (handleRoutes env.recorded bucket i routes))
      (fun l => ∀ x ∈ l, x.Serves (usableEnds.ofRoutes u routes))
      fun _ l => ∀ x ∈ l, x.Serves (usableEnds.ofRoutes u routes) :=
  match routes with
  | [] => .pure (by simp) (by simp)
  | (m, t) :: rest => by
    have later := serves_handleRoutes env rest bucket (i + 1)
      (fun s hs id hid => steady s hs id (by simp [leaves.ofRoutes, hid]))
      fun j r found some_ => usable (j + 1) r (by simpa using found)
        (by rwa [Nat.add_right_comm] at some_)
    have others := later.mono
      (fun l hl x hx => (hl x hx).mono (List.subset_append_right (usableEnds u t) _))
      fun _ l hl x hx => (hl x hx).mono (List.subset_append_right (usableEnds u t) _)
    unfold handleRoutes
    split
    · exact others
    next some_ =>
      have ready : t.isUsable u = true := usable 0 (m, t) rfl (by simpa using some_)
      have this := (serves_handle env t (bucket i)
        (fun s hs id hid => steady s hs id (by simp [leaves.ofRoutes, hid])) ready).mono
        (List.subset_append_left _ (usableEnds.ofRoutes u rest))
      have merged {l r w : List Deed}
          (hl : ∀ x ∈ l, x.Serves (usableEnds.ofRoutes u ((m, t) :: rest)))
          (hr : ∀ x ∈ r, x.Serves (usableEnds.ofRoutes u ((m, t) :: rest))) (merge : Merge l r w) :
          ∀ x ∈ w, x.Serves (usableEnds.ofRoutes u ((m, t) :: rest)) :=
        fun x hx => (merge.mem.1 hx).elim (hl x) (hr x)
      apply Records.both this others merged
      intro r results l m w hl hr merge
      have all := merged hl hr merge
      exact .pure (by simpa using all) (by simpa using all)

end

def Refuses (P : σ → Prop) (e : Error) (a : Async (σ × List Deed) (Except Error Unit)) : Prop :=
  Records P a (· <+: [.refused e]) fun r _ => r = .error e

theorem refuses_refuse (e : Error) : Refuses P e (refuse env.recorded e) :=
  (Surroundings.records_refuse e).mono (fun _ => id) fun _ _ => And.left

theorem refuses_handleFirst (members : List Transport) (size : Nat) (batch : List Event)
    (steady : ∀ s, P s → Steady env u (leaves.ofMembers members) s)
    (unusable : anyUsable u members = false) :
    Refuses P (groupError size) (handleFirst env.recorded size members batch) := by
  induction members with
  | nil => exact refuses_refuse _
  | cons t rest ih =>
    have this (s : σ) (hs : P s) : Steady env u t.leaves s :=
      fun id hid => steady s hs id (by simp [leaves.ofMembers, hid])
    have others (s : σ) (hs : P s) : Steady env u (leaves.ofMembers rest) s :=
      fun id hid => steady s hs id (by simp [leaves.ofMembers, hid])
    obtain ⟨unready, later⟩ : t.isUsable u = false ∧ anyUsable u rest = false := by
      simpa [anyUsable] using unusable
    apply Records.bind (F := fun seen l => seen = t.isUsable u ∧ l = [])
    · exact .get (by simp) fun s hs => ⟨isUsable_of_steady (this s.1 hs), rfl⟩
    rintro _ _ ⟨rfl, rfl⟩
    rw [unready]
    exact ih others later

theorem refuses_handle {t : Transport} {e : Error} (batch : List Event)
    (refusal : t.refusal? = some e) (steady : ∀ s, P s → Steady env u t.leaves s)
    (unusable : t.isUsable u = false) : Refuses P e (t.handle env.recorded batch) := by
  cases t with
  | leaf | retry | queued => cases refusal
  | group members =>
    cases refusal
    exact refuses_handleFirst members members.length batch steady unusable
  | switch console routes =>
    cases refusal
    have none : (opened u routes).any (·.2) = false := (any_opened routes).trans unusable
    apply Records.bind (F := fun open_ l => open_ = opened u routes ∧ l = [])
    · exact .get (by simp) fun s hs => ⟨opened_of_steady (steady s.1 hs), rfl⟩
    rintro _ _ ⟨rfl, rfl⟩
    rw [if_neg (by simp [none])]
    exact refuses_refuse switchError

theorem poll_handleFirst {members : List Transport} {s : σ} (size : Nat) (batch : List Event)
    (unusable : anyUsable (env.leafUsable · s) members = false) :
    (handleFirst env size members batch).poll (members.length + 2) s =
      (.ready (.error (groupError size)), env.refuses (groupError size) s) := by
  induction members with
  | nil => rfl
  | cons t rest ih =>
    obtain ⟨unready, later⟩ : t.isUsable (env.leafUsable · s) = false ∧
        anyUsable (env.leafUsable · s) rest = false := by simpa [anyUsable] using unusable
    simpa [handleFirst, Async.get, Async.act, Async.bind, Async.poll, unready] using ih later

theorem poll_handle {t : Transport} {e : Error} {s : σ} (batch : List Event)
    (refusal : t.refusal? = some e) (unusable : t.isUsable (env.leafUsable · s) = false) :
    ∃ fuel, (t.handle env batch).poll fuel s = (.ready (.error e), env.refuses e s) := by
  cases t with
  | leaf | retry | queued => cases refusal
  | group members =>
    cases refusal
    exact ⟨_, poll_handleFirst members.length batch unusable⟩
  | switch console routes =>
    cases refusal
    have none : (opened (env.leafUsable · s) routes).any (·.2) = false :=
      (any_opened routes).trans unusable
    refine ⟨3, ?_⟩
    change Async.poll 2 (if (opened (env.leafUsable · s) routes).any (·.2) then _
      else refuse env switchError) s = _
    rw [if_neg (by simp [none])]
    rfl

theorem unusable_of_refusal {t : Transport} {e : Error} (refusal : t.refusal? = some e) :
    ∃ text, e = .unusable text := by
  cases t with
  | leaf | retry | queued => cases refusal
  | group | switch => cases refusal; exact ⟨_, rfl⟩

/-- While its leaves stay as they are, a usable transport calls usable endpoints only, and no group
or switch in it refuses the batch. A group or a switch that is not usable refuses the batch, at
once, and calls nothing. -/
theorem usable_sound (env : Surroundings σ) (u : LeafId → Bool) (t : Transport)
    (batch : List Event) :
    (t.isUsable u = true → ∀ {steps b}, Passes (t.handle env.recorded batch) steps b →
      (∀ p ∈ steps, Steady env u t.leaves p.1.1) →
        (∀ x events, .called x events ∈ record steps → x ∈ t.usableEnds u) ∧
          ∀ e, .refused e ∉ record steps) ∧
    ∀ e, t.refusal? = some e → t.isUsable u = false →
      (∃ text, e = .unusable text) ∧
      (∀ {steps b}, Passes (t.handle env.recorded batch) steps b →
        (∀ p ∈ steps, Steady env u t.leaves p.1.1) →
          record steps <+: [.refused e] ∧ ∀ r, b = .done r → r = .error e) ∧
      ∀ s, Steady env u t.leaves s →
        ∃ fuel, (t.handle env batch).poll fuel s = (.ready (.error e), env.refuses e s) := by
  refine ⟨fun usable steps b go steady => ?_, fun e refusal unusable => ⟨?_, ?_, ?_⟩⟩
  · have serves := (serves_handle env t batch (fun _ => id) usable).stands go steady
    exact ⟨fun x events called => serves _ called, fun e refused => serves _ refused⟩
  · exact unusable_of_refusal refusal
  · intro steps b go steady
    have refuses : Refuses (Steady env u t.leaves) e (t.handle env.recorded batch) :=
      refuses_handle batch refusal (fun _ => id) unusable
    refine ⟨refuses.stands go steady, ?_⟩
    rintro r rfl
    exact refuses.ends go steady
  · exact fun s steady => poll_handle batch refusal ((isUsable_of_steady steady).trans unusable)

-- There is a way to a usable leaf in one of the two; in the other, all leaves are closed.
theorem usable_sound_nested :
    let closed : Transport := .group [.leaf 0, .switch 0 [(Matcher.anything, .leaf 0)]]
    nested.isUsable (· != 0) = true ∧ closed.isUsable (· != 0) = false ∧
      (∃ steps, Passes (nested.handle nestedSurroundings.recorded nestedBatch) steps
          (.done (.ok ())) ∧
        (record steps).filterMap Deed.call? =
          [(.leaf 1, ["1"]), (.leaf 1, ["1"]), (.leaf 2, ["0", "3"])] ∧
        (∀ x events, .called x events ∈ record steps → x ∈ nested.usableEnds (· != 0)) ∧
        ∀ e, .refused e ∉ record steps) ∧
      ∃ fuel, (closed.handle nestedSurroundings nestedBatch).poll fuel 0 =
        (.ready (.error (groupError 2)), 0) := by
  intro closed
  obtain ⟨sound, _⟩ := usable_sound nestedSurroundings (· != 0) nested nestedBatch
  obtain ⟨_, refuses⟩ := usable_sound nestedSurroundings (· != 0) closed nestedBatch
  obtain ⟨steps, go, calls⟩ := nested_accepts
  obtain ⟨served, unrefused⟩ := sound rfl go fun _ _ _ _ => rfl
  obtain ⟨_, _, refused⟩ := refuses (groupError 2) rfl rfl
  exact ⟨rfl, rfl, ⟨steps, go, calls, served, unrefused⟩, refused 0 fun _ _ => rfl⟩

end Transport

end EventTracking
