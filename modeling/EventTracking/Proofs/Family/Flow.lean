import EventTracking.Proofs.Family.Link

set_option autoImplicit false

namespace EventTracking.Session

open Async Change Crowd

variable {h : HandoffId} {d : Depot} {depot : Option Depot} {s t : Session}

structure NewFamily (h : HandoffId) (depot : Option Depot) (s : Session) : Prop where
  handoff : NewHandoff h s
  queue : ∀ d ∈ depot, NewQueue d.queue d.store s
  connected : ∀ d ∈ depot, Connected h d s

theorem NewFamily.linked (new : NewFamily h depot s) (mine : d ∈ depot) : Linked h d s [] := by
  refine ⟨new.connected d mine, .other, rfl, ?_, ?_⟩
  · simp [linkView, new.handoff.nothingForwarded, new.handoff.nothingReturned, LinkRole.underWay]
  · simp [linkView, new.handoff.nothingReturned, (new.queue d mine).nothingWritten, LinkRole.ahead]

section Queue

variable {q : QueueId} {k : StoreId}

theorem undisturbed_note {m : Milestone} (missed : ∀ l : Ledger,
    Ledger.written k (m :: l) = l.written k ∧ Ledger.accepted q (m :: l) = l.accepted q ∧
      Ledger.removed k (m :: l) = l.removed k) : Undisturbed q k s (note m s).2 := by
  obtain ⟨written, accepted, removed⟩ := missed s.ledger
  refine .of_eq ?_
  rw [queueView_note, written, accepted, removed]
  rfl

theorem queue_tracking : AllowsTracking (queueFrame q k) h fun _ => True where
  toAllowsDelivery := queueFrame_allows
  sets _ _ := .of_eq rfl
  receives _ _ := undisturbed_note fun l => by
    simp
  counts _ _ := undisturbed_note fun l => by
    simp
  begins {s} _ := by
    obtain ⟨jobs, _, stock⟩ := spawn?_stock (.forwards h) s
    exact .of_eq (queueView_of_stock (s := { s with jobs := s.jobs ++ jobs }) stock)
  stamps _ _ := undisturbed_note fun l => by
    simp
  notesSent _ _ := undisturbed_note fun l => by
    simp

theorem queue_forwards : Obeys (queueProtocol q k) .away (forwards h) fun _ _ => True := by
  refine (queue_tracking.forwards trivial (fun batch _ => undisturbed_note fun l => ?_)
    (fun batch _ => undisturbed_note fun l => ?_) (fun _ => undisturbed_note fun l => ?_)
    fun _ _ _ => trivial).mono fun _ _ _ => trivial
  · simp
  · simp
  · simp

theorem queue_serves : Serves (queueProtocol d.queue k) .away h (some d) where
  rests := trivial
  settling := ⟨_, queue_tracking.settling⟩
  draining _ mine := by
    obtain rfl : d = _ := Option.some.inj mine
    exact ⟨_, _, rfl, rfl, queueProtocol_drains⟩

def familyQueue (h : HandoffId) (d : Depot) :
    Discipline (familySetting h (some d)) (queueProtocol d.queue d.store) (fun _ _ => True)
      fun _ => True :=
  queueDiscipline
    (fun coming => by
      rcases coming with ⟨task, begun, rfl⟩ | ⟨rfl, task⟩
      · obtain ⟨_, rfl⟩ := begin?_eq_some begun
        exact ⟨.of_eq rfl, queue_forwards⟩
      · exact ⟨.of_eq rfl, (queue_serves.obeys task).mono fun _ _ _ => trivial⟩)
    (fun wired change => by
      cases change with
      | track t mine _ e extra => exact queue_tracking.tracks mine.handoff_eq e extra wired
      | other unconcerned => exact .of_eq (unconcerned.queue d rfl))

end Queue

section Handoff

theorem handoff_settling : AllowsSettling (handoffFrame h) h fun _ => True where
  toAllowsDelivery := handoffFrame_allows
  signals _ _ := handoffView_setHandoff_same rfl rfl rfl rfl

theorem handoff_draining (q : QueueId) : AllowsDraining (handoffFrame h) q fun _ => True where
  toAllowsDelivery := handoffFrame_allows
  flags _ _ := rfl
  accepts _ _ := handoffView_note_other (by simp [Milestone.concerns]) _
  removes _ _ _ := handoffView_note_other (by simp [Milestone.concerns]) _
  transports _ _ _ _ := trivial

theorem handed_track (t : SessionTracker) (mine : t.handoff = some h) (e : UntrackedEvent)
    (extra : List Contexts) (there : (handoffView h s).isThere)
    (usable : (handoffView h s).isClosed = false) :
    HandoffView.Handed (handoffView h s) (handoffView h (track t e extra s).2) := by
  have stamped : handoffView h (finalize t e extra s).2 = handoffView h s := by
    rw [handoffView_of_stock h (stock_of_setup (stamps_finalize t e extra s))]
    exact handoffView_note_other (by simp [Milestone.concerns]) s
  change HandoffView.Handed (handoffView h s)
    (handoffView h (handOver t (finalize t e extra s).1 (finalize t e extra s).2).2)
  rw [← stamped] at there usable ⊢
  rcases handOver_cases (finalize t e extra s).1 t (finalize t e extra s).2 with
    same | ⟨h', found, sent⟩
  · rw [handoffView_of_stock h (stock_of_setup same)]
    exact .nothing
  · obtain rfl : h = h' := Option.some.inj (mine.symm.trans found)
    rw [handoffView_of_stock h (stock_of_setup sent)]
    exact handed_send _ there usable

def familyHandoff (h : HandoffId) (depot : Option Depot) :
    Discipline (familySetting h depot) (forwardProtocol h) (fun _ _ => True) fun _ => True :=
  forwardDiscipline
    (fun coming => by
      rcases coming with begun | ⟨rfl, task⟩
      · exact .inl begun
      · have serves : Serves (forwardProtocol h) .away h depot :=
          .bystander trivial handoff_settling fun d _ => handoff_draining d.queue
        exact .inr ⟨rfl, (serves.obeys task).mono fun _ _ _ => trivial⟩)
    (fun there change => by
      cases change with
      | track t mine usable e extra => exact handed_track t mine.handoff_eq e extra there usable
      | other unconcerned => exact unconcerned.handoff ▸ .nothing)

end Handoff

def familyLink (h : HandoffId) (d : Depot) :
    Discipline (familySetting h (some d)) (linkProtocol h d) (fun _ _ => True) (Exact h) where
  holds := Linked h d
  always linked := fun _ mine => Option.some.inj mine ▸ linked.1
  moves _ after linked here move := linked.move after here move
  comes {s t roles a} _ _ linked coming := by
    rcases coming with ⟨task, begun, rfl⟩ | ⟨rfl, task⟩
    · exact ⟨.other, link_forwards.forwards.mono fun _ _ _ => trivial, linked.come (.begins begun)⟩
    · have serves : Serves (linkProtocol h d) .other h (some d) :=
        .bystander trivial link_tracking.settling fun _ mine => by
          obtain rfl : d = _ := Option.some.inj mine
          exact link_draining
      exact ⟨.other, (serves.obeys task).mono fun _ _ _ => trivial,
        linked.come (.of_same (.refl _) rfl)⟩
  outside {s t roles} _ _ linked change := by
    cases change with
    | track t mine _ e extra =>
      have all : ∀ d' ∈ some d, Connected h d' s := fun _ mine => Option.some.inj mine ▸ linked.1
      exact linked.overlooked (link_tracking.tracks mine.handoff_eq e extra all)
    | other unconcerned =>
      refine linked.overlooked ⟨unconcerned.wires, unconcerned.ledger, ?_⟩
      have forwarded := congrArg HandoffView.forwarded unconcerned.handoff
      have returned := congrArg HandoffView.returned unconcerned.handoff
      have written := congrArg QueueView.written (unconcerned.queue d rfl)
      simp only [handoffView, queueView] at forwarded returned written
      simp only [linkView, forwarded, returned, written]

structure Stocked (h : HandoffId) (d : Depot) (s : Session) : Prop where
  returned : (s.ledger.returned h).flatten <+: s.ledger.written d.store
  written : s.ledger.written d.store <+: s.ledger.sent h
  accepted : ((s.ledger.sent h).map Event.id).Nodup →
    (s.ledger.accepted d.queue).flatten <+: s.ledger.written d.store
  drained : ((s.ledger.sent h).map Event.id).Nodup → (s.store d.store).events = [] →
    (s.ledger.accepted d.queue).flatten = s.ledger.written d.store

theorem InOrder.accepted {roles : List DrainRole} {q : QueueId} {k : StoreId}
    (inOrder : InOrder q k s roles) (distinct : ((s.ledger.written k).map Event.id).Nodup) :
    (s.ledger.accepted q).flatten <+: s.ledger.written k ∧
      ((s.store k).events = [] → (s.ledger.accepted q).flatten = s.ledger.written k) := by
  obtain ⟨_, l, _, _, fits⟩ := inOrder
  cases fits distinct with
  | away balanced | busy balanced | holding balanced _ =>
    have events : (s.ledger.accepted q).flatten ++ (s.store k).events = s.ledger.written k :=
      balanced.events
    refine ⟨⟨_, events⟩, fun empty => ?_⟩
    rw [← events, empty, List.append_nil]
  | @removing batch rest _ _ front events _ =>
    have whole : (s.ledger.accepted q).flatten ++ rest = s.ledger.written k := events
    refine ⟨⟨_, whole⟩, fun empty => ?_⟩
    have both : batch ++ rest = [] := front.symm.trans empty
    rw [← whole, (List.append_eq_nil_iff.1 both).2, List.append_nil]

variable {c : Crowd Session Answer}

theorem family_exact (new : NewFamily h depot s) (run : Run (familySetting h depot) ⟨s, []⟩ c) :
    Exact h c.state := by
  obtain ⟨_, _, accounted⟩ :=
    (familyHandoff h depot).run_alone (fun _ _ => trivial) new.handoff.accounted run
  exact Accounted.exact accounted

theorem family_stocked (new : NewFamily h depot s) (run : Run (familySetting h depot) ⟨s, []⟩ c)
    (mine : d ∈ depot) : Stocked h d c.state := by
  obtain rfl : depot = some d := mine
  obtain ⟨_, _, inOrder⟩ :=
    (familyQueue h d).run_alone (fun _ _ => trivial) (new.queue d rfl).inOrder run
  obtain ⟨_, _, _, _, _, fits⟩ :=
    (familyLink h d).run_alone (fun _ => family_exact new) (new.linked rfl) run
  obtain ⟨returned, forwarded⟩ := fits.between
  -- The store gets events by way of the hand-off only, so their ids are distinct there as well.
  have written : c.state.ledger.written d.store <+: c.state.ledger.sent h :=
    forwarded.trans (family_exact new run).front
  have distinct (apart : ((c.state.ledger.sent h).map Event.id).Nodup) :
      ((c.state.ledger.written d.store).map Event.id).Nodup :=
    apart.sublist (written.sublist.map _)
  constructor
  · exact returned
  · exact written
  · exact fun apart => (inOrder.accepted (distinct apart)).1
  · exact fun apart => (inOrder.accepted (distinct apart)).2

end EventTracking.Session
