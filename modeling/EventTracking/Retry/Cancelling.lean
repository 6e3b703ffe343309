import EventTracking.Async
import EventTracking.Retry.Run

set_option autoImplicit false

namespace EventTracking

structure CancellationPlace (σ : Type) where
  look : σ → Cancellation
  put : Cancellation → σ → σ
  running : σ → TaskId

namespace CancellationPlace

variable {σ : Type} (p : CancellationPlace σ)

def edit (f : Cancellation → Cancellation) (s : σ) : σ := p.put (f (p.look s)) s

def register (s : σ) : Nat × σ :=
  let (ticket, c) := (p.look s).register (p.running s)
  (ticket, p.put c s)

def notified (ticket : Nat) (s : σ) : Option Unit × σ :=
  (if (p.look s).isWatching ticket then none else some (), s)

def park (ticket : Nat) : Async σ Unit := do
  if ← .get fun s => (p.look s).cancelled then return
  Async.await (p.notified ticket)

def awaited : Async σ Unit := do
  let ticket ← .act p.register
  Async.ensuring (p.edit fun c => c.leave ticket) (p.park ticket)

end CancellationPlace

end EventTracking
