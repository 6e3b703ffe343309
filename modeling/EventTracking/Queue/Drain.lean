import EventTracking.Queue.Basic

set_option autoImplicit false

namespace EventTracking

namespace Drain

inductive Outcome where
  -- Another drain was under way.
  | skipped
  | transportUnusable
  | empty
  | delivered (count : Nat)
  -- The batch was rejected and stays in the store.
  | rejected (reason : String)
  deriving Repr, DecidableEq

inductive Phase where
  | reading (t : Transport)
  | delivering (t : Transport) (batch : List Event)
  | deleting (ids : List String)
  | ended (r : Except Error Outcome)

def ids (batch : List Event) : List String := batch.map Event.id

def opening (usable : Transport → Bool) (q : Queue) : Phase :=
  match q.transport with
  | none => .ended (.error Queue.noTransport)
  | some t => if usable t then .reading t else .ended (.ok .transportUnusable)

def read (t : Transport) : Except Error (List Event) → Phase
  | .error e => .ended (.error e)
  | .ok [] => .ended (.ok .empty)
  | .ok batch => .delivering t batch

def answered (batch : List Event) : Except Error Unit → Phase
  | .ok () => .deleting (ids batch)
  | .error e => .ended (.ok (.rejected e.message))

def deleted (ids : List String) : Except Error Unit → Except Error Outcome
  | .ok () => .ok (.delivered ids.length)
  | .error e => .error e

end Drain

namespace Queue

def claim? (q : Queue) : Option Queue :=
  if q.processing then none else some { q with processing := true }

theorem claim?_eq_some {q q' : Queue} :
    q.claim? = some q' ↔ q.processing = false ∧ q' = { q with processing := true } := by
  cases h : q.processing <;> simp [claim?, h, eq_comm]

def release (q : Queue) : Queue := { q with processing := false }

end Queue

namespace Flush

inductive Next where
  | drain (delivered : Nat)
  -- Another drain is under way: looks again a little later.
  | pause (delivered : Nat)
  | ended (r : Except Error Nat)

def unusable : Error := .unusable "Queue transport is not usable"

def next (delivered : Nat) : Except Error Drain.Outcome → Next
  | .error e => .ended (.error e)
  | .ok (.delivered count) => .drain (delivered + count)
  | .ok .empty => .ended (.ok delivered)
  | .ok .skipped => .pause delivered
  | .ok .transportUnusable => .ended (.error unusable)
  | .ok (.rejected reason) => .ended (.error (.transport reason))

end Flush

end EventTracking
