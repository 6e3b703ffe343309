import EventTracking.Async
import EventTracking.Transport.Basic

set_option autoImplicit false

namespace EventTracking

structure Surroundings (σ : Type) where
  leafUsable : LeafId → σ → Bool
  deliver : LeafId → List Event → Async σ (Except Error Unit)
  -- Puts a batch into a queue and sees to it that the queue is running.
  enqueue : QueueId → List Event → Async σ (Except Error Unit)
  warn : ConsoleId → String → σ → σ
  isCancelled : CancellationId → σ → Bool
  -- Ends once the cancellation is cancelled.
  cancelled : CancellationId → Async σ Unit
  pause : PauserId → Duration → Async σ Unit
  -- The time since the first attempt of the call.
  elapsed : σ → Duration × σ
  -- Takes note of an attempt that begins.
  attempts : CancellationId → σ → σ := fun _ s => s
  -- Takes note of a batch that nothing usable is there for.
  refuses : Error → σ → σ := fun _ s => s

namespace Transport

variable {σ : Type}

def beginAttempt (env : Surroundings σ) (cancellation : CancellationId) : Async σ Bool :=
  .act fun s =>
    if env.isCancelled cancellation s then (true, s) else (false, env.attempts cancellation s)

def retryRound (env : Surroundings σ) (pauser : PauserId) (cancellation : CancellationId)
    (attempt : Async σ (Except Error Unit)) :
    Retry.Phase → Async σ (Retry.Phase ⊕ Except Error Unit)
  | .attempting s => do
    match s.attempt (← beginAttempt env cancellation) with
    | .error e => return .inr (.error e)
    | .ok s =>
      match ← attempt with
      | .ok () => return .inr (.ok ())
      | .error e =>
        match s.failed e (← .act env.elapsed) with
        | .fail e => return .inr (.error e)
        | .pause d => return .inl (.pausing s d)
  | .pausing s d => do
    match ← Async.firstOf (env.pause pauser d) (env.cancelled cancellation) with
    | .inl () => return .inl (.attempting s)
    | .inr () => return .inr (.error (Retry.cancelledError s.attempts))

def refuse (env : Surroundings σ) (e : Error) : Async σ (Except Error Unit) :=
  .act fun s => (.error e, env.refuses e s)

mutual

def handle (env : Surroundings σ) : Transport → List Event → Async σ (Except Error Unit)
  | leaf id, batch => env.deliver id batch
  | group members, batch => handleFirst env members.length members batch
  | switch console routes, batch =>
    .bind (.get fun s => routes.map fun r => (r.1, isUsable (env.leafUsable · s) r.2)) fun open_ =>
      if open_.any (·.2) then
        .bind (.modify fun s => (Switch.dropped open_ batch).foldl
            (fun s e => env.warn console (Switch.dropMessage e) s) s) fun _ =>
          .bind (.gather (handleRoutes env (Switch.bucket open_ batch) 0 routes)) fun results =>
            .done (Switch.collect results)
      else refuse env switchError
  | retry policy pauser cancellation inner, batch =>
    Async.iterate (retryRound env pauser cancellation (handle env inner batch))
      (.attempting { policy })
  | queued queue _, batch => env.enqueue queue batch

def handleFirst (env : Surroundings σ) (size : Nat) :
    List Transport → List Event → Async σ (Except Error Unit)
  | [], _ => refuse env (groupError size)
  | t :: rest, batch =>
    .bind (.get fun s => isUsable (env.leafUsable · s) t) fun usable =>
      if usable then handle env t batch else handleFirst env size rest batch

def handleRoutes (env : Surroundings σ) (bucket : Nat → List Event) (i : Nat) :
    List (Matcher × Transport) → List (Async σ (Except Error Unit))
  | [] => []
  | (_, t) :: rest =>
    if (bucket i).isEmpty then handleRoutes env bucket (i + 1) rest
    else handle env t (bucket i) :: handleRoutes env bucket (i + 1) rest

end

end Transport

end EventTracking
