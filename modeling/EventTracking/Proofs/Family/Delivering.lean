import EventTracking.Proofs.Family.Flow

set_option autoImplicit false

namespace EventTracking.Session

open Async Change Crowd

variable {L : Type} {h : HandoffId} {s t : Session}

def deliverTask (t : SessionTracker) (e : UntrackedEvent) (extra : List Contexts) :
    Task Answer := do
  match ← trackAndDeliver t e extra with
  | .ok e => return .json e.json
  | .error err => return .failed err

structure Delivers (P : Protocol Session L) (idle : L) (holding : Event → L) (h : HandoffId) : Prop
    extends AllowsSettling P.toFrame h fun _ => True where
  rests_idle : P.rests idle
  rests_holding : ∀ e, P.rests (holding e)
  finalizes : ∀ {s t : Session} {e : Event}, P.always s →
    t.stock = (note (.stamped e) s).2.stock → P.moves idle s (holding e) t
  -- The hand-off is seen to have settled just before the call.
  delivers : ∀ {s t : Session} {e : Event}, P.always s → (s.handoff h).pending = 0 →
    P.quiet s t → P.moves (holding e) s idle (note (.delivered h e) t).2

namespace Delivers

variable {P : Protocol Session L} {idle : L} {holding : Event → L}

theorem trackAndDeliver (allows : Delivers P idle holding h) {t : SessionTracker}
    (mine : t.handoff = some h) (e : UntrackedEvent) (extra : List Contexts) :
    Obeys P idle (trackAndDeliver t e extra) fun _ _ => True := by
  refine Obeys.bind (Obeys.act fun s hs => ?_)
  refine ⟨_, allows.finalizes hs (stock_of_setup (stamps_finalize t e extra s)), ?_⟩
  generalize (finalize t e extra s).1 = ev
  cases t.active with
  | false => trivial
  | true =>
    refine Obeys.bind (Obeys.get fun s hs => ?_)
    cases usable : s.usableHandoff t with
    | none => trivial
    | some id =>
      have found : t.handoff = some id := (Option.filter_eq_some_iff.1 usable).1
      obtain rfl : h = id := Option.some.inj (mine.symm.trans found)
      have waits : Obeys P (holding ev) (settled h (callTransport h (.delivered h ev)))
          fun l _ => l = idle :=
        allows.obeys_settled (allows.rests_holding ev)
          fun hs nothing quiet => ⟨idle, allows.delivers hs nothing quiet, rfl⟩
      refine Obeys.bind (waits.mono fun l transport called => ?_)
      subst called
      have calls := allows.handle transport [ev] fun _ _ => trivial
      refine Obeys.keeps_bind calls allows.rests_idle fun r => ?_
      cases r <;> trivial

theorem deliverTask (allows : Delivers P idle holding h) {t : SessionTracker}
    (mine : t.handoff = some h) (e : UntrackedEvent) (extra : List Contexts) :
    Obeys P idle (deliverTask t e extra) fun _ _ => True := by
  refine Obeys.bind ((allows.trackAndDeliver mine e extra).mono fun l r _ => ?_)
  cases r <;> trivial

end Delivers

structure Unrelated (h : HandoffId) (s t : Session) : Prop where
  handoff : handoffView h t = handoffView h s
  ledger : ∃ new, t.ledger = new ++ s.ledger ∧ ∀ m ∈ new, ¬ Milestone.concerns h m

inductive DeliveryChange (h : HandoffId) : Session → Session → Prop
  | track {s : Session} (t : SessionTracker) (mine : t.handoff = some h)
      (usable : (s.handoff h).isClosed = false) (e : UntrackedEvent) (extra : List Contexts) :
      DeliveryChange h s (track t e extra s).2
  | other {s t : Session} (unrelated : Unrelated h s t) : DeliveryChange h s t

-- Trackers with the same hand-off. They track, the hand-off forwards, and any number of tasks
-- deliver events themselves.
def deliverySetting (h : HandoffId) : Setting Session Answer where
  comes s a t :=
    (∃ task, s.begin? task = some (.forwards h, t) ∧ a = Job.task (.forwards h)) ∨
      t = s ∧ ∃ tracker e extra, tracker.handoff = some h ∧ a = deliverTask tracker e extra
  outside := DeliveryChange h

theorem handoff_delivers : Delivers (forwardProtocol h) .away (fun _ => .away) h where
  toAllowsSettling := handoff_settling
  rests_idle := trivial
  rests_holding _ := trivial
  finalizes {s t e} _ stamped := by
    refine .inl <| .inl ⟨rfl, ?_⟩
    rw [handoffView_of_stock h stamped]
    exact handoffView_note_other (by simp [Milestone.concerns]) s
  delivers {s t e} _ _ quiet := by
    refine .inl <| .inl ⟨rfl, ?_⟩
    have missed : handoffView h (note (.delivered h e) t).2 = handoffView h t := by
      rw [handoffView_note]
      simp [handoffView]
    exact missed.trans quiet

def deliveryHandoff (h : HandoffId) :
    Discipline (deliverySetting h) (forwardProtocol h) (fun _ _ => True) fun _ => True :=
  forwardDiscipline
    (fun coming => by
      rcases coming with begun | ⟨rfl, tracker, e, extra, mine, rfl⟩
      · exact .inl begun
      · exact .inr ⟨rfl, handoff_delivers.deliverTask mine e extra⟩)
    (fun there change => by
      cases change with
      | track t mine usable e extra => exact handed_track t mine e extra there usable
      | other unrelated => exact unrelated.handoff ▸ .nothing)

theorem delivery_exact {c : Crowd Session Answer} (new : NewHandoff h s)
    (run : Run (deliverySetting h) ⟨s, []⟩ c) : Exact h c.state := by
  obtain ⟨_, _, accounted⟩ :=
    (deliveryHandoff h).run_alone (fun _ _ => trivial) new.accounted run
  exact Accounted.exact accounted

end EventTracking.Session
