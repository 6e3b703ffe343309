import EventTracking.Proofs.Async.Frame
import EventTracking.Proofs.Session.Stock
import EventTracking.Proofs.Transport.Deliveries

set_option autoImplicit false

namespace EventTracking.Session

open Async Change

structure AllowsDelivery (F : Frame Session) (queues : QueueId → Prop) : Prop where
  aside : ∀ {s s' : Session}, s'.setup = s.setup → F.quiet s s'
  locks : ∀ {s : Session} (id : StoreId) (l : Lock), F.always s → F.quiet s (setLock id l s).2
  starts : ∀ {s : Session} (id : QueueId), F.always s → F.quiet s (ensureRunning id s).2
  -- The store of a queue is looked up some time before.
  appends : ∀ {s₀ s : Session} {id : QueueId} (events : List Event), F.always s₀ → queues id →
    F.always s → F.quiet s (applyEdit (s₀.queue id).store (.append events) s).2

namespace AllowsDelivery

variable {F : Frame Session} {queues : QueueId → Prop} {α : Type}

theorem now (allows : AllowsDelivery F queues) {c : Change α} (h : Aside c) : Keeps F (now c) :=
  Keeps.act fun s _ => allows.aside (h s)

theorem look (allows : AllowsDelivery F queues) {ready : Session → Option α × Session}
    (h : ∀ s, F.always s → F.quiet s (ready s).2) (s : Session) (hs : F.always s) :
    F.quiet s (whenAllowed ready s).2 := by
  rcases whenAllowed_cases ready s with ⟨_, same⟩ | ⟨_, same⟩
  · exact allows.aside same
  · exact F.quiet_trans (h s hs) (allows.aside same)

theorem proceed (allows : AllowsDelivery F queues) : Keeps F proceed :=
  Keeps.await (allows.look fun s _ => F.quiet_refl s) fun s _ => F.quiet_refl s

theorem breathe (allows : AllowsDelivery F queues) : Keeps F breathe := by
  refine Keeps.await (fun s _ => ?_) fun s _ => F.quiet_refl s
  split
  · exact allows.aside rfl
  · exact F.quiet_refl s

theorem sleepUntil (allows : AllowsDelivery F queues) (due : Nat) : Keeps F (sleepUntil due) := by
  refine allows.breathe.bind fun _ => (Keeps.act fun s _ => allows.aside rfl).bind fun timer => ?_
  cases timer with
  | none => exact allows.proceed
  | some timer =>
    exact Keeps.await (allows.look fun s _ => F.quiet_refl s) fun s _ => allows.aside rfl

theorem sleep (allows : AllowsDelivery F queues) (d : Duration) : Keeps F (sleep d) :=
  (Keeps.get _).bind allows.sleepUntil

theorem cancelled (allows : AllowsDelivery F queues) (id : CancellationId) :
    Keeps F (cancelled id) := by
  refine Confined.bind (Keeps.act fun s _ => allows.aside rfl) fun ticket => ?_
  refine Confined.ensuring (fun s _ => allows.aside rfl) ((Keeps.get _).bind fun stop => ?_)
  cases stop with
  | true => exact Confined.pure ()
  | false => exact Keeps.await (fun s _ => F.quiet_refl s) fun s _ => F.quiet_refl s

theorem pause (allows : AllowsDelivery F queues) (id : PauserId) (d : Duration) :
    Keeps F (pause id d) := by
  refine allows.breathe.bind fun _ => (Keeps.get _).bind fun pauser => ?_
  cases pauser with
  | clock => exact allows.sleep d
  | stalled => exact Keeps.await (fun s _ => F.quiet_refl s) fun s _ => F.quiet_refl s
  | recording transport pauses cancelOn =>
    have records : Aside (modify fun s => { s with
        pausers := s.pausers.set! id (.recording transport (pauses + 1) cancelOn) }) :=
      fun _ => rfl
    exact allows.now <| records.bind fun _ => (aside_observe _).bind fun _ => aside_cancelAt _ _

theorem deliverToLeaf (allows : AllowsDelivery F queues) (id : LeafId) (batch : List Event) :
    Keeps F (deliverToLeaf id batch) := by
  refine (Keeps.get _).bind fun leaf => ?_
  cases leaf with
  | scripted x =>
    exact (allows.now (aside_beginCall id x batch)).bind fun d =>
      (allows.sleep d).bind fun _ => allows.now (aside_endCall id)
  | debug console =>
    refine allows.now ((Fixes.forM fun e => Fixes.forM fun r => ?_).bind fun _ => Fixes.pure _)
    exact aside_report console r
  | collector c => exact Keeps.get _

theorem writeFile (allows : AllowsDelivery F queues) (file text : String) :
    Keeps F (writeFile file text) :=
  (allows.now fun _ => rfl).bind fun _ =>
    Keeps.await (allows.look fun s _ => F.quiet_refl s) fun s _ => F.quiet_refl s

theorem locked (allows : AllowsDelivery F queues) (id : StoreId) {a : Task α} (h : Keeps F a) :
    Keeps F (locked id a) := by
  have wakes (s : Session) (tasks : List TaskId) (l : Lock) (hs : F.always s) :
      F.quiet s (wakeAll tasks (setLock id l s).2).2 :=
    F.quiet_trans (allows.locks id l hs) (allows.aside rfl)
  refine Confined.bind (Keeps.act fun s hs => allows.locks id _ hs) fun ticket => ?_
  have held : Keeps F (Async.ensuring (leaving (releaseLock id)) a) :=
    Confined.ensuring (fun s hs => wakes s _ _ hs) h
  cases ticket with
  | none => exact held
  | some ticket =>
    exact Confined.bind (Keeps.await (fun s _ => F.quiet_refl s) fun s hs => wakes s _ _ hs)
      fun _ => held

theorem onStore (allows : AllowsDelivery F queues) (id : StoreId) (method : Store.Method)
    {run : Task (Except Error α)} (h : Keeps F run) : Keeps F (onStore id method run) := by
  refine (Keeps.get _).bind fun x => ?_
  cases x.refusal? method with
  | some e => exact Confined.pure _
  | none =>
    refine allows.proceed.bind fun _ => ?_
    cases x.kind with
    | file => exact allows.locked id h
    | memory | flaky => exact h

theorem editStore (allows : AllowsDelivery F queues) (id : StoreId) (e : Store.Edit)
    (h : ∀ s, F.always s → F.quiet s (applyEdit id e s).2) : Keeps F (editStore id e) := by
  refine allows.onStore id e.method ((Keeps.act h).bind fun x => ?_)
  cases x.file? with
  | none => exact Confined.pure _
  | some file =>
    refine (allows.writeFile file.1 file.2).bind fun r => ?_
    cases r <;> exact Confined.pure _

theorem push (allows : AllowsDelivery F queues) {id : QueueId} (mine : queues id)
    (events : List Event) : Keeps F (push id events) :=
  fun s₀ h₀ => ⟨F.quiet_refl s₀,
    allows.editStore _ _ fun _ hs => allows.appends events h₀ mine hs⟩

theorem enqueue (allows : AllowsDelivery F queues) {id : QueueId} (mine : queues id)
    (batch : List Event) : Keeps F (enqueue id batch) := by
  refine (allows.push mine batch).bind fun r => ?_
  cases r with
  | ok => exact Keeps.act fun s hs => allows.starts id hs
  | error => exact Confined.pure _

theorem deliveries (allows : AllowsDelivery F queues) :
    Deliveries (Keeps F) surroundings queues where
  toComposes := Keeps.composes
  gather := Confined.gather
  deliver := allows.deliverToLeaf
  enqueue batch mine := allows.enqueue mine batch
  warns console f events := Keeps.act fun s _ => allows.aside (warns_setup console f events s)
  begins _ := Keeps.act fun s _ => by split <;> exact F.quiet_refl s
  reads := Keeps.act fun s _ => F.quiet_refl s
  backoff pauser c d := Confined.firstOf (allows.pause pauser d) (allows.cancelled c)
  refuses _ := Keeps.act fun s _ => F.quiet_refl s

theorem handle (allows : AllowsDelivery F queues) (t : Transport) (batch : List Event)
    (mine : ∀ id ∈ queuesOf t, queues id) : Keeps F (t.handle surroundings batch) :=
  allows.deliveries.handle t batch mine

theorem storeLength (allows : AllowsDelivery F queues) (id : StoreId) :
    Keeps F (storeLength id) := allows.onStore id _ (Keeps.get _)

theorem readStore (allows : AllowsDelivery F queues) (id : StoreId) (count position : Nat) :
    Keeps F (readStore id count position) := allows.onStore id _ (Keeps.get _)

theorem isIdle (allows : AllowsDelivery F queues) (id : QueueId) : Keeps F (isIdle id) := by
  refine (Keeps.get _).bind fun q => ?_
  split
  · exact Confined.pure _
  · refine (allows.storeLength q.store).bind fun r => ?_
    cases r <;> exact Confined.pure _

theorem waitUntilIdle (allows : AllowsDelivery F queues) (id : QueueId) (timeout : Nat) :
    Keeps F (waitUntilIdle id timeout) := by
  apply (Keeps.get _).bind
  intro start
  apply Confined.iterate
  intro _
  apply (allows.isIdle id).bind
  intro holds
  apply (Keeps.get _).bind
  intro now
  cases Waiting.judge timeout holds (now - start) with
  | held | expired => exact Confined.pure _
  | askAgain => exact (allows.sleep _).bind fun _ => Confined.pure _

theorem join (allows : AllowsDelivery F queues) (task : TaskId) : Keeps F (join task) := by
  apply Keeps.await _ fun s _ => F.quiet_refl s
  apply allows.look
  intro s _
  cases s.result? task with
  | none => exact allows.aside rfl
  | some a => exact F.quiet_refl s

theorem stop (allows : AllowsDelivery F queues) (id : QueueId)
    (stops : ∀ s, F.always s → F.quiet s (stopLoop id s).2) : Keeps F (stop id) := by
  apply (Keeps.act stops).bind
  intro task
  cases task with
  | none => exact Confined.pure _
  | some task =>
    apply (allows.join task).bind
    intro a
    cases a <;> exact Confined.pure _

theorem queueStatus (allows : AllowsDelivery F queues) (id : QueueId) :
    Keeps F (queueStatus id) :=
  (Keeps.get _).bind fun _ => (allows.storeLength _).bind fun _ => (allows.isIdle id).bind fun _ =>
    (allows.readStore _ _ _).bind fun _ => Confined.pure _

end AllowsDelivery

section Loops

variable {C : {α : Type} → Task α → Prop} {id : QueueId}

theorem flush_composes (composes : Composes C) (sleeps : ∀ due, C (sleepUntil due))
    (drain : C (drain id)) : C (flush id) := by
  apply composes.iterate
  intro next
  cases next with
  | drain n => exact composes.bind drain fun _ => composes.pure _
  | pause n =>
    have sleeps : C (sleep pollInterval) := composes.bind (composes.get _) sleeps
    exact composes.bind sleeps fun _ => composes.pure _
  | ended r => exact composes.pure _

theorem drains_composes (composes : Composes C) (sleeps : ∀ due, C (sleepUntil due))
    (drain : C (drain id)) : C (drains id) := by
  apply composes.bind (composes.get _)
  intro period
  split
  · exact composes.pure _
  · apply composes.bind (composes.get _)
    intro start
    apply composes.iterate
    intro due
    apply composes.bind (composes.get _)
    intro stopping
    split
    · exact composes.pure _
    · apply composes.bind (sleeps _)
      intro _
      apply composes.bind (composes.get _)
      intro next
      cases next with
      | none => exact composes.pure _
      | some next =>
        apply composes.bind (composes.get _)
        intro stopping
        split
        · exact composes.pure _
        · exact composes.bind drain fun _ => composes.pure _

end Loops

end EventTracking.Session
