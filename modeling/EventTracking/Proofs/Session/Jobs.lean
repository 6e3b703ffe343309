import EventTracking.Proofs.Handoff.Tasks
import EventTracking.Proofs.Queue.Draining

set_option autoImplicit false

namespace EventTracking.Session

open Async Change

structure AllowsJobs (F : Frame Session) : Prop where
  forwarding : ∀ h, AllowsForwarding F h fun _ => True
  notes : ∀ {s : Session} (m : Milestone), F.always s → F.quiet s (note m s).2
  edits : ∀ {s : Session} (k : StoreId) (e : Store.Edit), F.always s →
    F.quiet s (applyEdit k e s).2
  stops : ∀ {s : Session} (id : QueueId), F.always s → F.quiet s (stopLoop id s).2

structure SharedByDrains (F : Frame Session) (C : {α : Type} → Task α → Prop) : Prop
    extends Composes C where
  of_keeps : ∀ {α : Type} {a : Task α}, Keeps F a → C a
  gather : ∀ {α : Type} {l : List (Task α)}, (∀ a ∈ l, C a) → C (Async.gather l)
  drain : ∀ id, C (drain id)

variable {F : Frame Session} {C : {α : Type} → Task α → Prop}

theorem SharedByDrains.withTracker (shared : SharedByDrains F C) (ref : TrackerRef)
    {k : SessionTracker → Task Answer} (rest : ∀ t, C (k t)) : C (Session.withTracker ref k) := by
  apply shared.bind (shared.get _)
  intro t
  cases t with
  | none => exact shared.pure _
  | some t => exact rest t

namespace AllowsJobs

theorem delivery (allows : AllowsJobs F) : AllowsDelivery F fun _ => True :=
  (allows.forwarding 0).toAllowsDelivery

theorem handle (allows : AllowsJobs F) (t : Transport) (batch : List Event) :
    Keeps F (Session.handle t batch) := allows.delivery.handle t batch fun _ _ => trivial

theorem drainPhase (allows : AllowsJobs F) (id : QueueId) (p : Drain.Phase) :
    Keeps F (drainPhase id p) := by
  cases p with
  | reading t =>
    apply (Keeps.get _).bind
    intro q
    exact (allows.delivery.readStore _ _ _).bind fun _ => Confined.pure _
  | delivering t batch =>
    apply (allows.handle t batch).bind
    intro r
    cases r with
    | ok => exact (Keeps.act fun s hs => allows.notes _ hs).bind fun _ => Confined.pure _
    | error => exact Confined.pure _
  | deleting ids =>
    apply (Keeps.get _).bind
    intro q
    exact (allows.delivery.editStore _ _ fun s hs => allows.edits _ _ hs).bind fun _ => Confined.pure _
  | ended r => exact Confined.pure _

theorem keeps_drain (allows : AllowsJobs F) {id : QueueId}
    (flags : ∀ {s : Session} (processing : Bool), F.always s →
      F.quiet s (setQueue id { s.queue id with processing } s).2) : Keeps F (Session.drain id) := by
  refine Confined.bind (Keeps.act fun s hs => ?_) fun phase => ?_
  · cases taken : (s.queue id).claim? with
    | none =>
      rw [claim_of_none taken]
      exact F.quiet_refl s
    | some q =>
      obtain ⟨_, rfl⟩ := Queue.claim?_eq_some.1 taken
      rw [claim_of_some taken]
      exact flags true hs
  · cases phase with
    | none => exact Confined.pure _
    | some p =>
      exact Confined.ensuring (fun s hs => flags false hs) (Confined.iterate (allows.drainPhase id) p)

theorem settled {α : Type} (allows : AllowsJobs F) (h : HandoffId) {m : Change α}
    (quiet : ∀ s, F.always s → F.quiet s (m s).2) : Keeps F (settled h m) :=
  (allows.forwarding h).settling.settled quiet

theorem untilIdle (allows : AllowsJobs F) (q? : Option QueueId) (timeout started : Nat) :
    Keeps F (match q? with
      | none => pure true
      | some q => do
        waitUntilIdle q (timeout - ((← .get Session.systemTime) - started)) : Task Bool) := by
  cases q? with
  | none => exact Confined.pure _
  | some q => exact (Keeps.get _).bind fun _ => allows.delivery.waitUntilIdle q _

theorem waitForTracker (allows : AllowsJobs F) (t : SessionTracker) (timeout : Nat) :
    Keeps F (waitForTracker t timeout) := by
  apply (Keeps.get _).bind
  intro started
  cases t.handoff with
  | none => exact allows.untilIdle t.queue timeout started
  | some h =>
    apply ((allows.forwarding h).settling.settledWithin timeout).bind
    intro inTime
    cases inTime with
    | false => exact Confined.pure _
    | true => exact allows.untilIdle t.queue timeout started

theorem trackAndDeliver (allows : AllowsJobs F) (t : SessionTracker) (e : UntrackedEvent)
    (extra : List Contexts) : Keeps F (trackAndDeliver t e extra) := by
  have finalizes (s : Session) (hs : F.always s) : F.quiet s (finalize t e extra s).2 :=
    F.quiet_trans (allows.notes _ hs) (allows.delivery.aside (stamps_finalize t e extra s))
  apply Confined.bind (Keeps.act finalizes)
  intro e
  split
  · exact Confined.pure _
  · apply (Keeps.get _).bind
    intro h
    cases h with
    | none => exact Confined.pure _
    | some h =>
      have calls (s : Session) (hs : F.always s) :
          F.quiet s (callTransport h (.delivered h e) s).2 := allows.notes _ hs
      apply (allows.settled h calls).bind
      intro transport
      apply (allows.handle transport [e]).bind
      intro r
      cases r <;> exact Confined.pure _

theorem flush (allows : AllowsJobs F) (shared : SharedByDrains F C) (id : QueueId) :
    C (flush id) :=
  flush_composes shared.toComposes (fun due => shared.of_keeps (allows.delivery.sleepUntil due))
    (shared.drain id)

theorem drains (allows : AllowsJobs F) (shared : SharedByDrains F C) (id : QueueId) :
    C (drains id) :=
  drains_composes shared.toComposes (fun due => shared.of_keeps (allows.delivery.sleepUntil due))
    (shared.drain id)

theorem flushTracker (allows : AllowsJobs F) (shared : SharedByDrains F C) (t : SessionTracker) :
    C (flushTracker t) := by
  unfold Session.flushTracker
  split
  · exact shared.pure _
  · next q _ =>
    cases t.handoff with
    | none => exact allows.flush shared q
    | some h =>
      have settles : Keeps F (Session.settled h (pure ())) :=
        allows.settled h fun s _ => F.quiet_refl s
      exact shared.bind (shared.of_keeps settles) fun _ => allows.flush shared q

theorem withTrackersOf (allows : AllowsJobs F) (shared : SharedByDrains F C) (r : Nat)
    {k : List SessionTracker → Task Answer} (rest : ∀ trackers, C (k trackers)) :
    C (withTrackersOf r k) := by
  apply shared.bind (shared.get _)
  intro r
  apply shared.bind (shared.of_keeps (Keeps.act fun s _ => allows.delivery.aside rfl))
  intro _
  exact shared.bind (shared.get _) rest

theorem errand (allows : AllowsJobs F) (shared : SharedByDrains F C) (e : Errand) :
    C (Job.task (.errand e)) := by
  have delivery := allows.delivery
  have answers {α : Type} {a : Task α} {f : α → Answer} (h : Keeps F a) :
      C (do return f (← a) : Task Answer) :=
    shared.bind (shared.of_keeps h) fun _ => shared.pure _
  cases e with
  | answered a => exact shared.pure _
  | handle t batch => exact answers (allows.handle t batch)
  | awaitCancel c =>
    exact shared.bind (shared.of_keeps (delivery.cancelled c)) fun _ => answers (Keeps.get _)
  | readStore k count position =>
    apply shared.bind (shared.of_keeps (delivery.readStore k count position))
    intro r
    cases r <;> exact shared.pure _
  | editStore k e => exact answers (delivery.editStore k e fun s hs => allows.edits k e hs)
  | measureStore k => exact answers (delivery.storeLength k)
  | stopQueue q => exact answers (delivery.stop q fun s hs => allows.stops q hs)
  | push q events => exact answers (delivery.push trivial events)
  | drain q =>
    apply shared.bind (shared.drain q)
    intro r
    cases r <;> exact shared.pure _
  | flush q => exact shared.bind (allows.flush shared q) fun _ => shared.pure _
  | awaitIdle q timeout => exact answers (delivery.waitUntilIdle q timeout)
  | describeQueue q => exact answers (delivery.queueStatus q)
  | deliver ref e extra =>
    apply shared.withTracker
    intro t
    apply shared.bind (shared.of_keeps (allows.trackAndDeliver t e extra))
    intro r
    cases r <;> exact shared.pure _
  | flushTracker ref =>
    apply shared.withTracker
    intro t
    exact shared.bind (allows.flushTracker shared t) fun _ => shared.pure _
  | awaitTracker ref timeout =>
    exact shared.withTracker ref fun t => answers (allows.waitForTracker t timeout)
  | flushAll r =>
    apply allows.withTrackersOf shared
    intro trackers
    have all : C (flushAll trackers) := by
      apply shared.bind (shared.gather ?_) fun _ => shared.pure _
      simpa using fun t _ => allows.flushTracker shared t
    exact shared.bind all fun _ => shared.pure _
  | awaitAll r timeout =>
    apply allows.withTrackersOf shared
    intro trackers
    have all : Keeps F (waitForAll trackers timeout) := by
      apply (Confined.gather ?_).bind fun _ => Confined.pure _
      simpa using fun t _ => allows.waitForTracker t timeout
    exact answers all
  | sleep ms => exact shared.bind (shared.of_keeps (delivery.sleep _)) fun _ => shared.pure _
  | yield =>
    have waits : Keeps F yield :=
      (Keeps.act fun s _ => delivery.aside rfl).bind fun _ =>
        Keeps.await (fun s _ => F.quiet_refl s) fun s _ => F.quiet_refl s
    exact shared.bind (shared.of_keeps waits) fun _ => shared.pure _
  | join task => exact shared.of_keeps (delivery.join task)

theorem job (allows : AllowsJobs F) (shared : SharedByDrains F C) (job : Job) :
    C (Job.task job) := by
  cases job with
  | drains id => exact allows.drains shared id
  | forwards h =>
    exact shared.of_keeps <| (allows.forwarding h).keeps_forwards
      (fun _ hs => allows.notes _ hs) (fun _ hs => allows.notes _ hs)
      (fun hs => allows.notes _ hs) fun _ _ _ => trivial
  | errand e => exact allows.errand shared e

end AllowsJobs

end EventTracking.Session
