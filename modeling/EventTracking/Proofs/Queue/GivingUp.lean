import EventTracking.Proofs.Async.Abandon
import EventTracking.Proofs.Session.Delivery

set_option autoImplicit false

namespace EventTracking.Session

open Async Change

variable {F : Frame Session} {queues : QueueId → Prop} {α : Type}

namespace AllowsDelivery

theorem abandons_locked (allows : AllowsDelivery F queues) (id : StoreId) {a : Task α}
    (h : Abandons F a) : Abandons F (Session.locked id a) := by
  have wakes (s : Session) (tasks : List TaskId) (lock : Lock) (hs : F.always s) :
      F.quiet s (wakeAll tasks (setLock id lock s).2).2 :=
    F.quiet_trans (allows.locks id lock hs) (allows.aside rfl)
  have held : Abandons F (Async.ensuring (leaving (releaseLock id)) a) :=
    Confined.ensuring (fun s hs => wakes s _ _ hs) h
  apply Confined.bind (Abandons.act _)
  intro ticket
  cases ticket with
  | none => exact held
  | some ticket =>
    apply Confined.bind _ fun _ => held
    exact fun s hs => ⟨trivial, wakes s _ _ hs, fun _ _ => trivial⟩

theorem abandons_onStore (allows : AllowsDelivery F queues) (id : StoreId) (method : Store.Method)
    {run : Task (Except Error α)} (h : Abandons F run) :
    Abandons F (Session.onStore id method run) := by
  apply Confined.bind (Abandons.act _)
  intro x
  cases x.refusal? method with
  | some e => exact Confined.pure _
  | none =>
    apply Confined.bind allows.proceed.abandons
    intro _
    cases x.kind with
    | file => exact allows.abandons_locked id h
    | memory | flaky => exact h

theorem abandons_editStore (allows : AllowsDelivery F queues) (id : StoreId) (e : Store.Edit) :
    Abandons F (Session.editStore id e) := by
  apply allows.abandons_onStore
  apply Confined.bind (Abandons.act _)
  intro x
  cases x.file? with
  | none => exact Confined.pure _
  | some file =>
    apply Confined.bind (allows.writeFile file.1 file.2).abandons
    intro r
    cases r <;> exact Confined.pure _

theorem abandons_push (allows : AllowsDelivery F queues) (id : QueueId) (events : List Event) :
    Abandons F (Session.push id events) :=
  (Abandons.act _).bind fun _ => allows.abandons_editStore _ _

end AllowsDelivery

structure AllowsGivingUp (F : Frame Session) (id : QueueId) : Prop
    extends AllowsDelivery F fun _ => True where
  releases : ∀ {s : Session}, F.always s → F.quiet s (unclaim id s).2

namespace AllowsGivingUp

variable {id : QueueId}

theorem drainPhase (allows : AllowsGivingUp F id) (p : Drain.Phase) :
    Abandons F (drainPhase id p) := by
  cases p with
  | reading t =>
    apply Confined.bind (Abandons.act _)
    intro q
    exact (allows.readStore _ _ _).abandons.bind fun _ => Confined.pure _
  | delivering t batch =>
    apply (allows.handle t batch fun _ _ => trivial).abandons.bind
    intro r
    cases r with
    | ok => exact (Abandons.act _).bind fun _ => Confined.pure _
    | error => exact Confined.pure _
  | deleting ids =>
    apply Confined.bind (Abandons.act _)
    intro q
    exact (allows.abandons_editStore _ _).bind fun _ => Confined.pure _
  | ended r => exact Confined.pure _

theorem drain (allows : AllowsGivingUp F id) : Abandons F (drain id) := by
  apply Confined.bind (Abandons.act _)
  intro phase
  cases phase with
  | none => exact Confined.pure _
  | some phase =>
    exact Confined.ensuring (fun s hs => allows.releases hs)
      (Confined.iterate allows.drainPhase phase)

theorem flush (allows : AllowsGivingUp F id) : Abandons F (flush id) :=
  flush_composes Abandons.composes (fun due => (allows.sleepUntil due).abandons) allows.drain

theorem drains (allows : AllowsGivingUp F id) : Abandons F (drains id) :=
  drains_composes Abandons.composes (fun due => (allows.sleepUntil due).abandons) allows.drain

end AllowsGivingUp

end EventTracking.Session
