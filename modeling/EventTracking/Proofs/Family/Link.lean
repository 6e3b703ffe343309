import EventTracking.Proofs.Family.Tasks

set_option autoImplicit false

namespace EventTracking

inductive LinkRole where
  | other
  | unwritten (batch : List Event)
  | written (batch : List Event)

namespace LinkRole

def isCalling : LinkRole → Bool
  | other => false
  | _ => true

def underWay : LinkRole → List (List Event)
  | other => []
  | unwritten batch | written batch => [batch]

def ahead : LinkRole → List Event
  | written batch => batch
  | _ => []

end LinkRole

structure LinkView where
  forwarded : List (List Event)
  returned : List (List Event)
  written : List Event

namespace LinkView

structure Fits (v : LinkView) (l : LinkRole) : Prop where
  returned : v.returned ++ l.underWay = v.forwarded
  written : v.returned.flatten ++ l.ahead = v.written

inductive Link : LinkRole → LinkView → LinkRole → LinkView → Prop
  | call {v : LinkView} {batch : List Event} :
      Link .other v (.unwritten batch) { v with forwarded := v.forwarded ++ [batch] }
  | write {v : LinkView} {batch : List Event} :
      Link (.unwritten batch) v (.written batch) { v with written := v.written ++ batch }
  | back {v : LinkView} {batch : List Event} :
      Link (.written batch) v .other { v with returned := v.returned ++ [batch] }

variable {v : LinkView} {l : LinkRole}

theorem Fits.between (fits : v.Fits l) :
    v.returned.flatten <+: v.written ∧ v.written <+: v.forwarded.flatten := by
  refine ⟨⟨_, fits.written⟩, ?_⟩
  rw [← fits.returned, ← fits.written, List.flatten_append, List.prefix_append_right_inj]
  cases l with
  | other | unwritten => exact List.nil_prefix
  | written batch => simp [LinkRole.underWay, LinkRole.ahead]

end LinkView

namespace Session

open Async Change Crowd

variable {h : HandoffId} {d : Depot} {depot : Option Depot} {s t : Session}

def linkView (h : HandoffId) (d : Depot) (l : Ledger) : LinkView where
  forwarded := l.forwarded h
  returned := l.returned h
  written := l.written d.store

def linkProtocol (h : HandoffId) (d : Depot) : Protocol Session LinkRole where
  toFrame := familyFrame h (some d) (linkView h d)
  moves l s l' t :=
    Connected h d t ∧
      (l' = l ∧ linkView h d t.ledger = linkView h d s.ledger ∨
        LinkView.Link l (linkView h d s.ledger) l' (linkView h d t.ledger))
  rests _ := True
  moves_quiet _ _ _ all quiet :=
    ⟨quiet.wires d rfl (all d rfl), .inl ⟨rfl, quiet.view_eq⟩⟩

theorem link_delivery :
    AllowsDelivery (linkProtocol h d).toFrame (· ∈ queuesOf d.inner) :=
  familyFrame.delivery fun all fed events l => by
    have other := (all d rfl).apart _ fed
    simp [linkView, other]

theorem link_forwarding : AllowsForwarding (linkProtocol h d).toFrame h (· ∈ queuesOf d.inner) :=
  familyFrame.forwarding link_delivery
    (fun _ _ => by simp [linkView])
    (fun _ _ => by simp [linkView])

theorem link_tracking : AllowsTracking (linkProtocol h d).toFrame h (· ∈ queuesOf d.inner) :=
  familyFrame.tracking link_forwarding
    (fun _ _ => by simp [linkView])
    (fun _ _ => by simp [linkView])

theorem link_draining :
    AllowsDraining (linkProtocol h d).toFrame d.queue (· ∈ queuesOf d.inner) :=
  familyFrame.draining link_delivery rfl (fun _ fed => fed)
    (fun _ _ => by simp [linkView])
    (fun _ _ _ => by simp [linkView])

theorem obeys_enqueue (batch : List Event) :
    Obeys (linkProtocol h d) (.unwritten batch) (enqueue d.queue batch) fun l _ =>
      l = .written batch := by
  have pushes : Obeys (linkProtocol h d) (.unwritten batch) (push d.queue batch) fun l _ =>
      l = .written batch := by
    refine Obeys.bind (Obeys.get fun s₀ all₀ => ?_)
    rw [(all₀ d rfl).store_eq]
    refine link_delivery.obeys_editStore trivial _ _ (fun s e all refused => ?_) fun s all => ?_
    · simp [Store.refusal?, (all d rfl).inMemory] at refused
    · refine ⟨.written batch, ⟨?_, .inr ?_⟩, trivial, fun _ => rfl⟩
      · exact (all d rfl).of_same (.applyEdit _ _ _)
      · have write := @LinkView.Link.write (linkView h d s.ledger) batch
        change LinkView.Link _ _ _ (linkView h d (.edited d.store (.append batch) :: s.ledger))
        simpa [linkView] using write
  refine Obeys.bind (pushes.mono fun l r done => ?_)
  subst done
  cases r with
  | ok =>
    have runs : Keeps (linkProtocol h d).toFrame (now (ensureRunning d.queue)) :=
      Keeps.act fun s all => link_delivery.starts d.queue all
    exact Obeys.of_keeps runs trivial fun _ => rfl
  | error => rfl

theorem link_forwards :
    Forwards (linkProtocol h d) .other .unwritten .written h (· ∈ queuesOf d.inner) where
  toAllowsForwarding := link_forwarding
  rests := trivial
  calls {s} batch all := by
    refine ⟨(all d rfl).of_same (.note _ _), .inr ?_⟩
    have call := @LinkView.Link.call (linkView h d s.ledger) batch
    simpa [linkView] using call
  handles {s} batch all := by
    rw [(all d rfl).handoff]
    exact obeys_enqueue batch
  comesBack {s} batch all := by
    refine ⟨(all d rfl).of_same (.note _ _), .inr ?_⟩
    have back := @LinkView.Link.back (linkView h d s.ledger) batch
    simpa [linkView] using back
  stays _ := trivial
  closes _ := .of_noted (.note _ _) rfl (by simp [linkView])

def Linked (h : HandoffId) (d : Depot) (s : Session) (roles : List LinkRole) : Prop :=
  Connected h d s ∧ ∃ l, Sole LinkRole.isCalling roles l ∧ (linkView h d s.ledger).Fits l

namespace Linked

variable {roles : List LinkRole} {i : Nat} {l l' : LinkRole}

theorem overlooked (linked : Linked h d s roles)
    (change : Overlooked h (some d) (linkView h d) s t) : Linked h d t roles := by
  obtain ⟨connected, l, sole, fits⟩ := linked
  refine ⟨change.wires d rfl connected, l, sole, ?_⟩
  rw [change.view_eq]
  exact fits

theorem move (linked : Linked h d s roles) (after : Exact h t) (here : roles[i]? = some l)
    (move : (linkProtocol h d).moves l s l' t) : Linked h d t (roles.set i l') := by
  obtain ⟨_, l₀, sole, fits⟩ := linked
  obtain ⟨connected, ⟨rfl, same⟩ | link⟩ := move
  · rw [Sole.set_same here]
    exact ⟨connected, l₀, sole, same ▸ fits⟩
  generalize view : linkView h d t.ledger = w at link
  cases link with
  | @call v batch =>
    -- The hand-off has one call under way at most, so nobody else is in one.
    have one := after.oneCall
    have forwarded : t.ledger.forwarded h = s.ledger.forwarded h ++ [batch] :=
      congrArg LinkView.forwarded view
    have returned : t.ledger.returned h = s.ledger.returned h := congrArg LinkView.returned view
    have calls : s.ledger.returned h ++ l₀.underWay = s.ledger.forwarded h := fits.returned
    have nobody : l₀ = .other := by
      rw [forwarded, returned, ← calls] at one
      cases l₀ with
      | other => rfl
      | unwritten | written => simp [LinkRole.underWay] at one
    subst nobody
    refine ⟨connected, .unwritten batch, sole.take rfl here, ?_⟩
    rw [view]
    constructor
    · rw [← fits.returned]
      simp [LinkRole.underWay]
    · exact fits.written
  | @write v batch =>
    obtain rfl := sole.eq_of_busy here rfl
    refine ⟨connected, .written batch, sole.change rfl here, ?_⟩
    rw [view]
    constructor
    · exact fits.returned
    · rw [← fits.written]
      simp [LinkRole.ahead]
  | @back v batch =>
    obtain rfl := sole.eq_of_busy here rfl
    refine ⟨connected, .other, sole.change rfl here, ?_⟩
    rw [view]
    constructor
    · rw [← fits.returned]
      simp [LinkRole.underWay]
    · rw [← fits.written]
      simp [LinkRole.ahead]

theorem come (linked : Linked h d s roles) (change : Overlooked h (some d) (linkView h d) s t) :
    Linked h d t (roles ++ [.other]) := by
  obtain ⟨connected, l, sole, fits⟩ := linked.overlooked change
  exact ⟨connected, l, sole.append rfl, fits⟩

end Linked

end Session

end EventTracking
