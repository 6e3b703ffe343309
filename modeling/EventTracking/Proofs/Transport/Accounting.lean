import EventTracking.Proofs.Transport.Record
import Mathlib.Algebra.BigOperators.Group.List.Basic
import Mathlib.Algebra.Order.Group.Multiset

set_option autoImplicit false

namespace EventTracking

open Async (Records record Passes)
open scoped List

namespace Deed

def accepted : Deed → Multiset Event
  | answered _ batch (.ok ()) => batch
  | _ => 0

def warning : Deed → Multiset String
  | warned _ message => {message}
  | _ => 0

def Within (batch : List Event) : Deed → Prop
  | called _ events => events <+ batch
  | _ => True

theorem Within.mono {batch batch' : List Event} (sub : batch <+ batch') {x : Deed}
    (h : x.Within batch) : x.Within batch' := by
  cases x with
  | called => exact h.trans sub
  | answered | warned | began | cancelled | read | paused | resumed | refused => trivial

end Deed

def accepted (l : List Deed) : Multiset Event := (l.map Deed.accepted).sum

def warnings (l : List Deed) : Multiset String := (l.map Deed.warning).sum

-- Whether each of the events was in a batch that an endpoint accepted, or was reported as
-- dropped.
def Accounted (events : Multiset Event) (l : List Deed) : Prop :=
  ∃ delivered dropped, events = delivered + dropped ∧ delivered ≤ accepted l ∧
    dropped.map Switch.dropMessage ≤ warnings l

namespace Accounted

variable {events events' : Multiset Event} {l r w : List Deed}

theorem none : Accounted 0 l := ⟨0, 0, by simp, Multiset.zero_le _, Multiset.zero_le _⟩

theorem append (h : Accounted events l) (h' : Accounted events' r) :
    Accounted (events + events') (l ++ r) := by
  obtain ⟨delivered, dropped, rfl, taken, warned⟩ := h
  obtain ⟨delivered', dropped', rfl, taken', warned'⟩ := h'
  refine ⟨delivered + delivered', dropped + dropped', add_add_add_comm _ _ _ _, ?_, ?_⟩
  · simpa [accepted] using add_le_add taken taken'
  · simpa [warnings] using add_le_add warned warned'

theorem perm (h : Accounted events l) (same : l.Perm r) : Accounted events r := by
  obtain ⟨delivered, dropped, split, taken, warned⟩ := h
  refine ⟨delivered, dropped, split, ?_, ?_⟩
  · rwa [accepted, ← (same.map Deed.accepted).sum_eq]
  · rwa [warnings, ← (same.map Deed.warning).sum_eq]

theorem merge (h : Accounted events l) (h' : Accounted events' r) (merge : Merge l r w) :
    Accounted (events + events') w := (h.append h').perm merge.perm.symm

theorem later (h : Accounted events r) : Accounted events (l ++ r) := by
  simpa using none.append h

theorem of_drops (console : ConsoleId) (dropped : List Event) :
    Accounted dropped (dropped.map fun e => .warned console (Switch.dropMessage e)) := by
  refine ⟨0, dropped, by simp, Multiset.zero_le _, ?_⟩
  induction dropped with
  | nil => rfl
  | cons e dropped ih =>
    rw [← Multiset.cons_coe, Multiset.map_cons]
    exact (Multiset.cons_le_cons _ ih).trans_eq (by simp [warnings, Deed.warning])

end Accounted

namespace Switch

variable {routes : List (Matcher × Bool)}

theorem routeOf_lt {e : Event} {i : Nat} (h : routeOf? routes e = some i) : i < routes.length := by
  obtain ⟨inside, _⟩ := List.findIdx?_eq_some_iff_getElem.1 h
  exact inside

theorem perm_buckets (batch : List Event) (n : Nat) :
    (batch.filter fun e => (routeOf? routes e).any (· < n)).Perm
      ((List.range n).flatMap (bucket routes batch)) := by
  induction n with
  | zero => simp
  | succ n ih =>
    have split := List.filter_append_perm (fun e => (routeOf? routes e).any (· < n))
      (batch.filter fun e => (routeOf? routes e).any (· < n + 1))
    rw [List.range_succ, List.flatMap_append, List.flatMap_singleton]
    refine split.symm.trans (List.Perm.append ?_ ?_)
    · refine (List.Perm.of_eq ?_).trans ih
      rw [List.filter_filter]
      congr 1
      ext e
      cases routeOf? routes e <;> simp
      omega
    · refine List.Perm.of_eq ?_
      rw [List.filter_filter, bucket]
      congr 1
      ext e
      rw [Bool.eq_iff_iff]
      cases routeOf? routes e <;> simp
      omega

theorem perm_buckets_append_dropped (batch : List Event) :
    batch.Perm ((List.range routes.length).flatMap (bucket routes batch) ++
      dropped routes batch) := by
  have routed : ∀ e, (routeOf? routes e).any (· < routes.length) = !(routeOf? routes e == none) := by
    intro e
    cases h : routeOf? routes e with
    | none => rfl
    | some i => simp [routeOf_lt h]
  have split := List.filter_append_perm (fun e => !(routeOf? routes e == none)) batch
  refine split.symm.trans (List.Perm.append ?_ (List.Perm.of_eq (by simp [dropped])))
  have buckets : (batch.filter fun e => (routeOf? routes e).any (· < routes.length)).Perm
      ((List.range routes.length).flatMap (bucket routes batch)) := perm_buckets batch _
  simpa only [routed] using buckets

end Switch

namespace Transport

variable {σ : Type} {P : σ → Prop} {env : Surroundings σ}

theorem of_collect_cons {r : Except Error Unit} {rest : List (Except Error Unit)}
    (h : Switch.collect (r :: rest) = .ok ()) : r = .ok () ∧ Switch.collect rest = .ok () := by
  obtain e | ⟨⟨⟩⟩ := r
  · cases h
  · exact ⟨rfl, h⟩

def Accounts (P : σ → Prop) (batch : List Event)
    (a : Async (σ × List Deed) (Except Error Unit)) : Prop :=
  Records P a (fun l => ∀ x ∈ l, x.Within batch)
    fun r l => (∀ x ∈ l, x.Within batch) ∧ (r = .ok () → Accounted batch l)

theorem accounts_calling (x : Endpoint) (batch : List Event) (a : Async σ (Except Error Unit)) :
    Accounts P batch (Surroundings.calling x batch a) := by
  have within (r : Except Error Unit) :
      ∀ y ∈ [Deed.called x batch, .answered x batch r], y.Within batch := by
    simp [Deed.Within]
  apply (Surroundings.records_calling x batch a).mono
  · rintro l ⟨r, hl⟩ y hy
    exact within r y (hl.subset hy)
  · rintro r _ rfl
    refine ⟨within r, ?_⟩
    rintro rfl
    exact ⟨batch, 0, by simp, by simp [accepted, Deed.accepted], Multiset.zero_le _⟩

theorem accounts_refuse (batch : List Event) (e : Error) :
    Accounts P batch (refuse env.recorded e) := by
  apply (Surroundings.records_refuse e).mono
  · intro l hl x hx
    obtain rfl : x = .refused e := by simpa using hl.subset hx
    trivial
  · rintro _ _ ⟨rfl, rfl⟩
    simp [Deed.Within]

mutual

theorem accounts_handle (env : Surroundings σ) (t : Transport) (batch : List Event) :
    Accounts P batch (t.handle env.recorded batch) :=
  match t with
  | .leaf id => accounts_calling (.leaf id) batch (env.deliver id batch)
  | .group members => accounts_handleFirst env members members.length batch
  | .switch console routes => by
    apply Records.bind (F := fun open_ l => open_.length = routes.length ∧ l = [])
    · exact .get (by simp) fun s _ => by simp
    rintro open_ _ ⟨size, rfl⟩
    split
    · have sub (i : Nat) : Switch.bucket open_ batch i <+ batch := List.filter_sublist
      have routed := accounts_handleRoutes env routes (Switch.bucket open_ batch) 0 sub
      apply (Surroundings.records_spread (fun _ => trivial) routed).mono fun _ => id
      rintro _ _ ⟨within, results, m, counts, rfl, rfl⟩
      refine ⟨within, fun ok => ?_⟩
      have whole :=
        (Accounted.of_drops console (Switch.dropped open_ batch)).append (counts ok)
      rwa [← size, ← List.range_eq_range', add_comm, Multiset.coe_add,
        ← Multiset.coe_eq_coe.2 (Switch.perm_buckets_append_dropped batch)] at whole
    · exact accounts_refuse batch switchError
  | .retry policy pauser cancellation inner => by
    apply Surroundings.records_retry
    · intro x retries
      cases x with
      | called => exact retries.elim
      | answered | warned | began | cancelled | read | paused | resumed | refused => trivial
    · exact fun _ _ => .later
    · exact accounts_handle env inner batch
  | .queued queue _ => accounts_calling (.queue queue) batch (env.enqueue queue batch)

theorem accounts_handleFirst (env : Surroundings σ) (members : List Transport) (size : Nat)
    (batch : List Event) : Accounts P batch (handleFirst env.recorded size members batch) :=
  match members with
  | [] => accounts_refuse batch (groupError size)
  | t :: rest => by
    apply Records.bind (F := fun _ l => l = [])
    · exact .get (by simp) fun _ _ => rfl
    rintro usable _ rfl
    split
    · exact accounts_handle env t batch
    · exact accounts_handleFirst env rest size batch

theorem accounts_handleRoutes (env : Surroundings σ) (routes : List (Matcher × Transport))
    (bucket : Nat → List Event) (i : Nat) {batch : List Event} (sub : ∀ i, bucket i <+ batch) :
    Records P (.gather (handleRoutes env.recorded bucket i routes))
      (fun l => ∀ x ∈ l, x.Within batch)
      fun results l => (∀ x ∈ l, x.Within batch) ∧ (Switch.collect results = .ok () →
        Accounted ↑((List.range' i routes.length).flatMap bucket) l) :=
  match routes with
  | [] => .pure (by simp) ⟨by simp, fun _ => .none⟩
  | (_, t) :: rest => by
    have others := accounts_handleRoutes env rest bucket (i + 1) sub
    unfold handleRoutes
    split
    next none =>
      apply others.mono fun _ => id
      rintro results l ⟨within, counts⟩
      refine ⟨within, fun ok => ?_⟩
      simpa [List.range'_succ, List.isEmpty_iff.1 none] using counts ok
    next =>
      have this := (accounts_handle env t (bucket i)).mono
        (fun l hl x hx => (hl x hx).mono (sub i))
        fun r l h => And.imp_left (fun hl x hx => (hl x hx).mono (sub i)) h
      apply Records.both this others
      · intro l r w hl hr merge x hx
        exact (merge.mem.1 hx).elim (hl x) (hr x)
      · rintro r results l m w ⟨withinL, countsL⟩ ⟨withinR, countsR⟩ merge
        have all : ∀ x ∈ w, x.Within batch := fun x hx =>
          (merge.mem.1 hx).elim (withinL x) (withinR x)
        refine .pure (by simpa using all) ⟨by simpa using all, fun ok => ?_⟩
        obtain ⟨first, rest⟩ := of_collect_cons ok
        simpa [List.range'_succ] using (countsL first).merge (countsR rest) merge

end

/-- Every batch that an endpoint is given consists of events of the batch in their order. If the
transport accepts the batch, each event was in a batch that an endpoint accepted during this call,
or a switch warned that it drops it. -/
theorem accepted_or_dropped (env : Surroundings σ) (t : Transport) (batch : List Event) :
    (∀ {steps b}, Passes (t.handle env.recorded batch) steps b →
      ∀ {x events}, .called x events ∈ record steps → events <+ batch) ∧
    ∀ {steps}, Passes (t.handle env.recorded batch) steps (.done (.ok ())) →
      Accounted batch (record steps) := by
  have accounts := accounts_handle (P := fun _ => True) env t batch
  constructor
  · intro steps b go x events called
    exact accounts.stands go (by simp) _ called
  · intro steps go
    exact (accounts.ends go (by simp)).2 rfl

theorem accepted_or_dropped_nested :
    ∃ steps, Passes (nested.handle nestedSurroundings.recorded nestedBatch) steps
        (.done (.ok ())) ∧
      (record steps).filterMap Deed.call? =
        [(.leaf 1, ["1"]), (.leaf 1, ["1"]), (.leaf 2, ["0", "3"])] ∧
      (∀ x events, .called x events ∈ record steps → events <+ nestedBatch) ∧
      Accounted nestedBatch (record steps) := by
  obtain ⟨steps, go, calls⟩ := nested_accepts
  obtain ⟨ordered, accounted⟩ := accepted_or_dropped nestedSurroundings nested nestedBatch
  exact ⟨steps, go, calls, fun _ _ called => ordered go called, accounted go⟩

end Transport

end EventTracking
