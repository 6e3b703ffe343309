set_option autoImplicit false

namespace EventTracking

abbrev TaskId := Nat

structure Signal where
  waiters : List (Nat × TaskId) := []
  nextTicket : Nat := 0
  deriving Repr, Inhabited

namespace Signal

def register (s : Signal) (task : TaskId) : Nat × Signal :=
  (s.nextTicket, ⟨s.waiters ++ [(s.nextTicket, task)], s.nextTicket + 1⟩)

def isWaiting (s : Signal) (ticket : Nat) : Bool := s.waiters.any fun w => w.1 == ticket

def leave (s : Signal) (ticket : Nat) : Signal :=
  { s with waiters := s.waiters.filter fun w => w.1 != ticket }

def notify (s : Signal) : List TaskId × Signal :=
  (s.waiters.map (·.2), { s with waiters := [] })

theorem isWaiting_notify (s : Signal) (ticket : Nat) : s.notify.2.isWaiting ticket = false := by
  simp [notify, isWaiting]

end Signal

structure Lock where
  held : Bool := false
  queue : Signal := {}
  deriving Repr, Inhabited

namespace Lock

def take (l : Lock) (task : TaskId) : Option Nat × Lock :=
  if l.held then
    let (ticket, queue) := l.queue.register task
    (some ticket, { l with queue })
  else (none, { l with held := true })

def release (l : Lock) : List TaskId × Lock :=
  match l.queue.waiters with
  | [] => ([], { l with held := false })
  | (_, task) :: rest => ([task], { l with queue := { l.queue with waiters := rest } })

-- Leaves the line, or gives the lock on if it was passed already.
def leave (l : Lock) (ticket : Nat) : List TaskId × Lock :=
  if l.queue.isWaiting ticket then ([], { l with queue := l.queue.leave ticket }) else l.release

end Lock

end EventTracking
