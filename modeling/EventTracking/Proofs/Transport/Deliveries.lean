import EventTracking.Proofs.Async.Frame
import EventTracking.Session.Run

set_option autoImplicit false

namespace EventTracking

open Async
open Session (queuesOf)

variable {σ : Type} {C : {α : Type} → Async σ α → Prop} {env : Surroundings σ}
  {queues : QueueId → Prop}

structure Deliveries (C : {α : Type} → Async σ α → Prop) (env : Surroundings σ)
    (queues : QueueId → Prop) : Prop extends Composes C where
  gather : ∀ {α : Type} {l : List (Async σ α)}, (∀ a ∈ l, C a) → C (.gather l)
  deliver : ∀ id batch, C (env.deliver id batch)
  enqueue : ∀ {id} batch, queues id → C (env.enqueue id batch)
  warns : ∀ console (f : Event → String) (events : List Event),
    C (.modify fun s => events.foldl (fun s e => env.warn console (f e) s) s)
  begins : ∀ c, C (Transport.beginAttempt env c)
  reads : C (.act env.elapsed)
  backoff : ∀ pauser c d, C (.firstOf (env.pause pauser d) (env.cancelled c))
  refuses : ∀ e, C (Transport.refuse env e)

namespace Deliveries

theorem retryRound (h : Deliveries C env queues) (pauser : PauserId) (c : CancellationId)
    {attempt : Async σ (Except Error Unit)} (each : C attempt) (phase : Retry.Phase) :
    C (Transport.retryRound env pauser c attempt phase) := by
  cases phase with
  | attempting s =>
    apply h.bind (h.begins c)
    intro stop
    cases s.attempt stop with
    | error e => exact h.pure _
    | ok s =>
      apply h.bind each
      rintro (e | _)
      · apply h.bind h.reads
        intro elapsed
        cases s.failed e elapsed <;> exact h.pure _
      · exact h.pure _
  | pausing s d =>
    apply h.bind (h.backoff pauser c d)
    rintro (_ | _) <;> exact h.pure _

mutual

theorem handle (h : Deliveries C env queues) (t : Transport) (batch : List Event)
    (mine : ∀ id ∈ queuesOf t, queues id) : C (t.handle env batch) :=
  match t with
  | .leaf id => h.deliver id batch
  | .group members => h.handleFirst members members.length batch mine
  | .switch console routes => by
    apply h.bind (h.get _)
    intro open_
    split
    · apply h.bind (h.warns console _ _)
      intro _
      exact h.bind (h.gather (h.handleRoutes routes _ 0 mine)) fun _ => h.pure _
    · exact h.refuses _
  | .retry policy pauser c inner =>
    h.iterate (h.retryRound pauser c (h.handle inner batch mine)) _
  | .queued queue inner => h.enqueue batch (mine queue (by simp [queuesOf]))

theorem handleFirst (h : Deliveries C env queues) (members : List Transport) (size : Nat)
    (batch : List Event) (mine : ∀ id ∈ queuesOf.ofMembers members, queues id) :
    C (Transport.handleFirst env size members batch) :=
  match members with
  | [] => h.refuses _
  | t :: rest => by
    apply h.bind (h.get _)
    intro usable
    split
    · exact h.handle t batch fun id hid => mine id (by simp [queuesOf.ofMembers, hid])
    · exact h.handleFirst rest size batch fun id hid =>
        mine id (by simp [queuesOf.ofMembers, hid])

theorem handleRoutes (h : Deliveries C env queues) (routes : List (Matcher × Transport))
    (bucket : Nat → List Event) (i : Nat) (mine : ∀ id ∈ queuesOf.ofRoutes routes, queues id) :
    ∀ a ∈ Transport.handleRoutes env bucket i routes, C a :=
  match routes with
  | [] => by simp [Transport.handleRoutes]
  | (_, t) :: rest => by
    have others := h.handleRoutes rest bucket (i + 1) fun id hid =>
      mine id (by simp [queuesOf.ofRoutes, hid])
    have this := h.handle t (bucket i) fun id hid => mine id (by simp [queuesOf.ofRoutes, hid])
    unfold Transport.handleRoutes
    split
    · exact others
    · exact List.forall_mem_cons.2 ⟨this, others⟩

end

end Deliveries

end EventTracking
