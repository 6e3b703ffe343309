set_option autoImplicit false

namespace EventTracking.Waiting

inductive Verdict where
  | held
  | expired
  | askAgain
  deriving Repr, DecidableEq

def judge (timeout : Nat) (holds : Bool) (elapsed : Nat) : Verdict :=
  if holds then .held else if timeout ≤ elapsed then .expired else .askAgain

structure Result where
  held : Bool
  calls : Nat
  elapsed : Nat
  deriving Repr, DecidableEq

def poll (interval timeout cost : Nat) (holds : Nat → Bool) : Nat → Nat → Nat → Result
  | 0, calls, now => ⟨false, calls, now⟩
  | fuel + 1, calls, now =>
    let n := calls + 1
    let t := now + cost
    match judge timeout (holds n) t with
    | .held => ⟨true, n, t⟩
    | .expired => ⟨false, n, t⟩
    | .askAgain => poll interval timeout cost holds fuel n (t + interval)

-- Asks every `interval` until the condition holds, as it does from the question `holdsFrom` on, or
-- `timeout` has passed. Where a round takes any time at all `timeout + 2` rounds are enough, and
-- where it takes none the condition ends the wait.
def waitUntil (interval timeout cost : Nat) (holdsFrom : Option Nat) : Result :=
  poll interval timeout cost (fun n => holdsFrom.any (· ≤ n)) (timeout + holdsFrom.getD 0 + 2) 0 0

def defaultInterval : Nat := 50

end EventTracking.Waiting
