import EventTracking.Proofs.Before
import EventTracking.Proofs.Family.Delivering
import Mathlib.Data.List.Perm.Subperm

set_option autoImplicit false

namespace EventTracking

-- The events that went to the transport of a hand-off, as they took their places. The flag says
-- whether an event went through the channel.
def Ledger.places (h : HandoffId) : Ledger → List (Event × Bool) := select fun
  | .sent h' e => if h' = h then some (e, true) else none
  | .delivered h' e => if h' = h then some (e, false) else none
  | _ => none

@[simp]
theorem Ledger.places_cons (h : HandoffId) (m : Milestone) (l : Ledger) :
    places h (m :: l) = places h l ++ (match m with
      | .sent h' e => if h' = h then some (e, true) else none
      | .delivered h' e => if h' = h then some (e, false) else none
      | _ => none).toList := select_cons _ m l

theorem Ledger.mem_places_of_sent {h : HandoffId} {l : Ledger} {e : Event} (sent : e ∈ l.sent h) :
    (e, true) ∈ l.places h := by
  obtain ⟨m, listed, found⟩ := Ledger.mem_select.1 sent
  refine Ledger.mem_select.2 ⟨m, listed, ?_⟩
  cases m <;> simp_all

inductive OrderRole where
  | other
  -- Its event is finalized and has no place yet.
  | holding (e : Event)

def OrderRole.inHand : OrderRole → Option Event
  | other => none
  | holding e => some e

def hands (roles : List OrderRole) : List Event := roles.filterMap OrderRole.inHand

@[simp]
theorem hands_nil : hands [] = [] := rfl

@[simp]
theorem hands_append (front back : List OrderRole) :
    hands (front ++ back) = hands front ++ hands back := List.filterMap_append

@[simp]
theorem hands_other (roles : List OrderRole) : hands (.other :: roles) = hands roles := rfl

@[simp]
theorem hands_holding (e : Event) (roles : List OrderRole) :
    hands (.holding e :: roles) = e :: hands roles := rfl

structure OrderView where
  forwarded : List (List Event)
  passed : List (List Event)
  sent : List Event
  places : List (Event × Bool)

def orderView (h : HandoffId) (l : Ledger) : OrderView where
  forwarded := l.forwarded h
  passed := l.passed h
  sent := l.sent h
  places := l.places h

open scoped List

structure Ordered (h : HandoffId) (l : Ledger) (inHand : List Event) : Prop where
  passed : (l.passed h).flatten ++ (l.sent h).drop (l.forwarded h).flatten.length =
    (l.places h).map Prod.fst
  finalized : (l.places h).map Prod.fst ++ inHand <+~ l.stamped
  tracked : (l.places h).Pairwise fun x y => y.2 = true → Before l.stamped x.1 y.1

namespace Ordered

variable {h : HandoffId} {l l' : Ledger} {xs ys : List Event} {e : Event}

theorem overlooked (ordered : Ordered h l xs) (grown : l <:+ l')
    (same : orderView h l' = orderView h l) : Ordered h l' xs := by
  simp only [orderView, OrderView.mk.injEq] at same
  obtain ⟨forwarded, passed, sent, places⟩ := same
  have stamped : l.stamped <+ l'.stamped := (Ledger.select_prefix _ grown).sublist
  constructor
  · rw [passed, sent, forwarded, places]
    exact ordered.passed
  · rw [places]
    exact ordered.finalized.trans stamped.subperm
  · rw [places]
    exact ordered.tracked.imp fun earlier through => (earlier through).of_sublist stamped

theorem stamp (ordered : Ordered h l xs) (e : Event) : Ordered h (.stamped e :: l) (e :: xs) := by
  have stamped : Ledger.stamped (.stamped e :: l) = l.stamped ++ [e] := by simp
  have places : Ledger.places h (.stamped e :: l) = l.places h := by simp
  constructor
  · simpa [places] using ordered.passed
  · rw [places, stamped]
    have one := (List.subperm_cons e).2 ordered.finalized
    exact (List.perm_middle.subperm.trans one).trans (List.perm_append_singleton e _).symm.subperm
  · rw [places, stamped]
    exact ordered.tracked.imp fun earlier through =>
      (earlier through).of_sublist (List.sublist_append_left _ _)

theorem perm (ordered : Ordered h l xs) (same : xs ~ ys) : Ordered h l ys where
  passed := ordered.passed
  finalized := (same.symm.append_left _).subperm.trans ordered.finalized
  tracked := ordered.tracked

theorem forget (ordered : Ordered h l (e :: xs)) : Ordered h l xs where
  passed := ordered.passed
  finalized :=
    ((List.sublist_cons_self e xs).append_left _).subperm.trans ordered.finalized
  tracked := ordered.tracked

theorem track (ordered : Ordered h l xs) (e : Event)
    (front : (l.forwarded h).flatten <+: l.sent h) :
    Ordered h (.sent h e :: .stamped e :: l) xs := by
  have stamped : Ledger.stamped (.sent h e :: .stamped e :: l) = l.stamped ++ [e] := by
    simp
  have places : Ledger.places h (.sent h e :: .stamped e :: l) = l.places h ++ [(e, true)] := by
    simp
  have one := (ordered.stamp e).finalized
  -- The event is the last one sent, the last one placed, and the last one finalized.
  constructor
  · have sent : Ledger.sent h (.sent h e :: .stamped e :: l) = l.sent h ++ [e] := by
      simp
    have rest : (l.sent h ++ [e]).drop (l.forwarded h).flatten.length =
        (l.sent h).drop (l.forwarded h).flatten.length ++ [e] :=
      List.drop_append_of_le_length front.length_le
    rw [sent, places, List.map_append, ← ordered.passed]
    simpa using rest
  · have order : (l.places h ++ [(e, true)]).map Prod.fst ++ xs =
        (l.places h).map Prod.fst ++ e :: xs := by simp
    rw [stamped, places, order]
    simpa using one
  · rw [places, stamped, List.pairwise_append]
    refine ⟨?_, by simp, ?_⟩
    · exact ordered.tracked.imp fun earlier through =>
        (earlier through).of_sublist (List.sublist_append_left _ _)
    · intro x placed y last _
      obtain rfl := List.mem_singleton.1 last
      refine Before.last (ordered.finalized.subset ?_) e
      exact List.mem_append_left _ (List.mem_map_of_mem placed)

theorem call (ordered : Ordered h l xs) {batch : List Event}
    (front : (l.forwarded h).flatten ++ batch <+: l.sent h) :
    Ordered h (.forwarded h batch :: l) xs := by
  refine ⟨?_, ?_, ?_⟩
  · obtain ⟨rest, whole⟩ := front
    have passed : Ledger.passed h (.forwarded h batch :: l) = l.passed h ++ [batch] := by
      simp
    have forwarded : Ledger.forwarded h (.forwarded h batch :: l) = l.forwarded h ++ [batch] := by
      simp
    have sent : Ledger.sent h (.forwarded h batch :: l) = l.sent h := by simp
    have places : Ledger.places h (.forwarded h batch :: l) = l.places h := by
      simp
    have before : (l.sent h).drop (l.forwarded h).flatten.length = batch ++ rest := by
      rw [← whole, List.append_assoc, List.drop_left]
    have after : (l.sent h).drop (l.forwarded h ++ [batch]).flatten.length = rest := by
      rw [← whole, List.flatten_append, List.flatten_singleton, List.drop_left]
    rw [passed, forwarded, sent, places, after, ← ordered.passed, before]
    simp
  · simpa using ordered.finalized
  · simpa using ordered.tracked

theorem deliver (ordered : Ordered h l (e :: xs)) (settled : (l.forwarded h).flatten = l.sent h) :
    Ordered h (.delivered h e :: l) xs := by
  have places : Ledger.places h (.delivered h e :: l) = l.places h ++ [(e, false)] := by
    simp
  -- All that was sent was forwarded, so the call is next after all that has a place.
  constructor
  · have passed : Ledger.passed h (.delivered h e :: l) = l.passed h ++ [[e]] := by
      simp
    have forwarded : Ledger.forwarded h (.delivered h e :: l) = l.forwarded h := by
      simp
    have sent : Ledger.sent h (.delivered h e :: l) = l.sent h := by simp
    rw [passed, forwarded, sent, places, List.map_append, ← ordered.passed, settled]
    simp
  · have order : (l.places h ++ [(e, false)]).map Prod.fst ++ xs =
        (l.places h).map Prod.fst ++ e :: xs := by simp
    rw [places, order]
    simpa using ordered.finalized
  · rw [places, List.pairwise_append]
    refine ⟨by simpa using ordered.tracked, by simp, ?_⟩
    intro x _ y last through
    obtain rfl := List.mem_singleton.1 last
    cases through

theorem before_iff (ordered : Ordered h l xs) (distinct : l.stamped.Nodup) {a b : Event}
    (finalized : Before l.stamped a b) (ha : a ∈ (l.passed h).flatten)
    (hb : b ∈ (l.passed h).flatten) :
    Before (l.passed h).flatten a b ↔
      a ∈ l.sent h ∨ Before ((l.places h).map Prod.fst) a b := by
  have front : (l.passed h).flatten <+: (l.places h).map Prod.fst := ⟨_, ordered.passed⟩
  have apart : ((l.places h).map Prod.fst).Nodup := by
    obtain ⟨part, perm, sub⟩ := ordered.finalized
    exact (List.nodup_append.1 (perm.nodup_iff.1 (distinct.sublist sub))).1
  constructor
  · intro before
    exact .inr (before.of_sublist front.sublist)
  · rintro (through | places)
    · -- Had `b` its place before `a`, which is in the channel, it would have been finalized first.
      obtain ⟨⟨_, flag⟩, placed, rfl⟩ := List.mem_map.1 (front.subset hb)
      have sent := Ledger.mem_places_of_sent through
      have ne := finalized.ne distinct
      rcases Before.total sent placed (by simp [ne]) with before | behind
      · exact (before.map Prod.fst).of_front apart front ha hb
      · have reversed := ordered.tracked.forall_sublist behind rfl
        exact absurd reversed (finalized.asymm distinct)
    · exact places.of_front apart front ha hb

end Ordered

namespace Session

open Async Change Crowd

variable {h : HandoffId} {s t : Session}

inductive OrderMove (h : HandoffId) : OrderRole → Session → OrderRole → Session → Prop
  | quiet {l : OrderRole} {s t : Session} (overlooked : Overlooked h none (orderView h) s t) :
      OrderMove h l s l t
  | finalize {s t : Session} {e : Event} (ledger : t.ledger = .stamped e :: s.ledger) :
      OrderMove h .other s (.holding e) t
  | call {s t : Session} {batch : List Event} (ledger : t.ledger = .forwarded h batch :: s.ledger) :
      OrderMove h .other s .other t
  | deliver {s u t : Session} {e : Event} (nothing : (s.handoff h).pending = 0)
      (overlooked : Overlooked h none (orderView h) s u)
      (ledger : t.ledger = .delivered h e :: u.ledger) : OrderMove h (.holding e) s .other t

def orderProtocol (h : HandoffId) : Protocol Session OrderRole where
  toFrame := familyFrame h none (orderView h)
  moves := OrderMove h
  rests _ := True
  moves_quiet _ _ _ _ quiet := .quiet quiet

theorem order_delivery : AllowsDelivery (orderProtocol h).toFrame fun _ => True :=
  familyFrame.delivery fun _ _ _ _ => by
    simp [orderView]

theorem order_forwarding : AllowsForwarding (orderProtocol h).toFrame h fun _ => True :=
  familyFrame.forwarding order_delivery
    (fun _ _ => by simp [orderView])
    (fun _ _ => by simp [orderView])

theorem order_forwards :
    Forwards (orderProtocol h) .other (fun _ => .other) (fun _ => .other) h fun _ => True where
  toAllowsForwarding := order_forwarding
  rests := trivial
  calls _ _ := .call rfl
  handles batch _ :=
    Obeys.of_keeps (order_delivery.handle _ batch fun _ _ => trivial) trivial fun _ => rfl
  comesBack batch _ := .quiet <| .of_noted (.note _ _) rfl <| by
    simp [orderView]
  stays _ := trivial
  closes _ := .of_noted (.note _ _) rfl <| by
    simp [orderView]

theorem order_delivers : Delivers (orderProtocol h) .other .holding h where
  toAllowsSettling := order_forwarding.settling
  rests_idle := trivial
  rests_holding _ := trivial
  finalizes _ stamped := .finalize (congrArg Stock.ledger stamped)
  delivers _ nothing quiet := .deliver nothing quiet rfl

theorem track_ledger {t : SessionTracker} (mine : t.handoff = some h) (e : UntrackedEvent)
    (extra : List Contexts) (s : Session) :
    ∃ ev, (track t e extra s).2.ledger = .stamped ev :: s.ledger ∨
      (track t e extra s).2.ledger = .sent h ev :: .stamped ev :: s.ledger := by
  have stamped : (finalize t e extra s).2.ledger =
      .stamped (finalize t e extra s).1 :: s.ledger :=
    congrArg (·.1.ledger) (stamps_finalize t e extra s)
  refine ⟨(finalize t e extra s).1, ?_⟩
  change (handOver t _ (finalize t e extra s).2).2.ledger = _ ∨
    (handOver t _ (finalize t e extra s).2).2.ledger = _
  rw [← stamped]
  rcases handOver_cases (finalize t e extra s).1 t (finalize t e extra s).2 with
    same | ⟨id, found, sent⟩
  · exact .inl (congrArg (·.1.ledger) same)
  · obtain rfl : h = id := Option.some.inj (mine.symm.trans found)
    rcases send_cases (finalize t e extra s).1 h (finalize t e extra s).2 with
      refused | ⟨u, x, begun, _, noted⟩
    · exact .inl ((congrArg (·.1.ledger) sent).trans (congrArg Session.ledger refused))
    · have ledger : u.ledger = (finalize t e extra s).2.ledger := by
        rcases begun with rfl | rfl
        · rfl
        · obtain ⟨_, _, stock⟩ := spawn?_stock (.forwards h) (finalize t e extra s).2
          exact congrArg Stock.ledger stock
      refine .inr ((congrArg (·.1.ledger) (sent.trans noted)).trans ?_)
      exact congrArg (Milestone.sent h _ :: ·) ledger

theorem orderView_append {new l : Ledger} (foreign : ∀ m ∈ new, ¬ Milestone.concerns h m) :
    orderView h (new ++ l) = orderView h l := by
  have missed {α : Type} (f : Milestone → Option α)
      (only : ∀ m, ¬ Milestone.concerns h m → f m = none) :
      Ledger.select f (new ++ l) = Ledger.select f l :=
    Ledger.select_append_of_none f l fun m listed => only m (foreign m listed)
  simp only [orderView, OrderView.mk.injEq]
  refine ⟨missed _ ?_, missed _ ?_, missed _ ?_, missed _ ?_⟩
  all_goals
    clear missed foreign
    intro m foreign
    cases m <;> first | rfl | exact if_neg foreign

def Placed (h : HandoffId) (s : Session) (roles : List OrderRole) : Prop :=
  Ordered h s.ledger (hands roles)

namespace Placed

variable {roles : List OrderRole} {i : Nat} {l l' : OrderRole}

theorem overlooked (placed : Placed h s roles) (change : Overlooked h none (orderView h) s t) :
    Placed h t roles := Ordered.overlooked placed change.ledger change.view_eq

theorem move (placed : Placed h s roles) (before : Exact h s) (after : Exact h t)
    (here : roles[i]? = some l) (move : OrderMove h l s l' t) : Placed h t (roles.set i l') := by
  obtain ⟨front, back, whole, changed⟩ := Sole.split here l'
  cases move with
  | quiet overlooked =>
    rw [Sole.set_same here]
    exact placed.overlooked overlooked
  | @finalize _ _ e ledger =>
    have stamped := Ordered.stamp placed e
    rw [Placed, changed, ledger]
    refine stamped.perm ?_
    simpa [whole] using List.perm_middle.symm
  | @call _ _ batch ledger =>
    rw [Sole.set_same here, Placed, ledger]
    refine Ordered.call placed ?_
    have calls := after.front
    rw [ledger] at calls
    simpa using calls
  | @deliver _ u _ e nothing overlooked ledger =>
    -- Whatever lies between the look at the hand-off and the call sends and forwards nothing.
    have settled := before.forwarded_of_settled nothing
    have forwarded : u.ledger.forwarded h = s.ledger.forwarded h :=
      congrArg OrderView.forwarded overlooked.view_eq
    have sent : u.ledger.sent h = s.ledger.sent h := congrArg OrderView.sent overlooked.view_eq
    rw [← forwarded, ← sent] at settled
    have holds : Ordered h u.ledger (e :: hands (front ++ back)) := by
      refine Ordered.perm (placed.overlooked overlooked) ?_
      simp [whole]
    rw [Placed, changed, ledger]
    simpa using holds.deliver settled

theorem come (placed : Placed h s roles) (change : Overlooked h none (orderView h) s t) :
    Placed h t (roles ++ [.other]) :=
  Ordered.perm (placed.overlooked change) (by simp)

theorem changed (placed : Placed h s roles) (exact : Exact h s) (change : DeliveryChange h s t) :
    Placed h t roles := by
  cases change with
  | track t mine _ e extra =>
    obtain ⟨ev, stamped | sent⟩ := track_ledger mine e extra s
    · rw [Placed, stamped]
      exact (Ordered.stamp placed ev).forget
    · rw [Placed, sent]
      exact Ordered.track placed ev exact.front
  | other unrelated =>
    obtain ⟨new, ledger, foreign⟩ := unrelated.ledger
    refine placed.overlooked ⟨nofun, ledger ▸ List.suffix_append new _, ?_⟩
    rw [ledger]
    exact orderView_append foreign

end Placed

def orderDiscipline (h : HandoffId) :
    Discipline (deliverySetting h) (orderProtocol h) (fun _ _ => True) (Exact h) where
  holds := Placed h
  always _ := nofun
  moves before after placed here move := placed.move before after here move
  comes {s t roles a} _ _ placed coming := by
    rcases coming with ⟨task, begun, rfl⟩ | ⟨rfl, tracker, e, extra, mine, rfl⟩
    · exact ⟨.other, order_forwards.forwards.mono fun _ _ _ => trivial, placed.come (.begins begun)⟩
    · exact ⟨.other, order_delivers.deliverTask mine e extra,
        placed.come (.of_same (.refl _) rfl)⟩
  outside before _ placed change := placed.changed before change

structure Unused (h : HandoffId) (s : Session) : Prop extends NewHandoff h s where
  nothingPassed : s.ledger.passed h = []
  noPlaces : s.ledger.places h = []

theorem Unused.placed (unused : Unused h s) : Placed h s [] := by
  constructor
  · simp [unused.nothingPassed, unused.nothingSent, unused.noPlaces]
  · simp [unused.noPlaces]
  · simp [unused.noPlaces]

/-- Of two events that both reach the transport, the one that was finalized first goes first exactly
if it was tracked, or had its place before the other one: if a task delivers it, whatever is handed
off before its call goes first. -/
theorem passed_in_order_iff {tasks : List (Task Answer)} {a b : Event} (unused : Unused h s)
    (run : Run (deliverySetting h) ⟨s, []⟩ ⟨t, tasks⟩)
    (distinct : (t.ledger.stamped.map Event.id).Nodup) (finalized : Before t.ledger.stamped a b)
    (ha : a ∈ (t.ledger.passed h).flatten) (hb : b ∈ (t.ledger.passed h).flatten) :
    Before (t.ledger.passed h).flatten a b ↔
      a ∈ t.ledger.sent h ∨ Before ((t.ledger.places h).map Prod.fst) a b := by
  obtain ⟨_, _, placed⟩ := (orderDiscipline h).run_alone
    (fun _ => delivery_exact unused.toNewHandoff) unused.placed run
  exact Ordered.before_iff placed (List.Nodup.of_map _ distinct) finalized ha hb

def sampleDirect : Session where
  leaves := #[.scripted { name := "leaf", script := {} }]
  handoffs := #[{ transport := .leaf 0 }]

def sampleFirst : Session := (track (sampleTracker none) ⟨"First", {}, ∅⟩ [] sampleDirect).2

def sampleSecond : Async.Polled Session Answer × Session :=
  (deliverTask (sampleTracker none) ⟨"Second", {}, ∅⟩ []).poll 100 sampleFirst

def sampleThird : Session := (track (sampleTracker none) ⟨"Third", {}, ∅⟩ [] sampleSecond.2).2

def sampleBatch : Async.Polled Session Answer × Session :=
  (Job.task (.forwards 0)).poll 100 { sampleThird with jobs := [] }

def sampleOvertaken : Async.Polled Session Answer × Session :=
  sampleSecond.1.rest.poll 100 sampleBatch.2

def sampleStamped (i : Nat) : Event := sampleOvertaken.2.ledger.stamped.getD i default

theorem passed_in_order_iff_sample :
    Before sampleOvertaken.2.ledger.stamped (sampleStamped 1) (sampleStamped 2) ∧
      ¬ Before (sampleOvertaken.2.ledger.passed 0).flatten (sampleStamped 1) (sampleStamped 2) := by
  have unused : Unused 0 sampleDirect := by
    constructor
    · constructor <;> first | rfl | decide
    all_goals rfl
  have nobody : Run (deliverySetting 0) ⟨sampleDirect, []⟩ ⟨sampleDirect, []⟩ := .refl
  have first := nobody.tail (.outside (.track (sampleTracker none) rfl rfl ⟨"First", {}, ∅⟩ []))
  have delivers : (deliverySetting 0).comes sampleFirst
      (deliverTask (sampleTracker none) ⟨"Second", {}, ∅⟩ []) sampleFirst :=
    .inr ⟨rfl, sampleTracker none, _, _, rfl, rfl⟩
  have second := first.trans (Run.come_poll delivers 100)
  have third := second.tail
    (.outside (.track (sampleTracker none) rfl rfl ⟨"Third", {}, ∅⟩ []))
  have begins : (deliverySetting 0).comes sampleThird (Job.task (.forwards 0))
      { sampleThird with jobs := [] } := .inl ⟨1, rfl, rfl⟩
  have batch := third.trans (Run.come_poll begins 100)
  have overtaken : Run (deliverySetting 0)
      ⟨sampleBatch.2, [sampleSecond.1.rest, sampleBatch.1.rest]⟩
      ⟨sampleOvertaken.2, [sampleOvertaken.1.rest, sampleBatch.1.rest]⟩ :=
    Run.steps (i := 0) rfl (Async.poll_steps 100 _ _)
  have stamped : sampleOvertaken.2.ledger.stamped =
      [sampleStamped 0, sampleStamped 1, sampleStamped 2] := rfl
  have passed : (sampleOvertaken.2.ledger.passed 0).flatten =
      [sampleStamped 0, sampleStamped 2, sampleStamped 1] := rfl
  have finalized :
      Before sampleOvertaken.2.ledger.stamped (sampleStamped 1) (sampleStamped 2) := by
    rw [stamped]
    exact (List.Sublist.refl _).cons _
  refine ⟨finalized, fun before => ?_⟩
  rcases (passed_in_order_iff unused (batch.trans overtaken) (by decide) finalized
    (by simp [passed]) (by simp [passed])).1 before with through | places
  · have ids := List.mem_map_of_mem (f := Event.id) through
    exact absurd ids (by decide)
  · exact absurd (places.map Event.id) (by decide)

end Session

end EventTracking
