import EventTracking.Queue.Store
import EventTracking.Tracker.Handoff

set_option autoImplicit false

namespace EventTracking

inductive Milestone where
  -- An event got its identity.
  | stamped (e : Event)
  | edited (store : StoreId) (edit : Store.Edit)
  -- The transport of a queue accepted a batch.
  | accepted (queue : QueueId) (batch : List Event)
  -- An event went into the channel of a hand-off.
  | sent (handoff : HandoffId) (e : Event)
  -- The forwarding task took an event out of the channel.
  | received (handoff : HandoffId) (e : Event)
  -- The forwarding task called the transport.
  | forwarded (handoff : HandoffId) (batch : List Event)
  -- The call of the forwarding task came back.
  | returned (handoff : HandoffId) (batch : List Event)
  -- A batch was counted as through the transport.
  | counted (handoff : HandoffId) (batch : List Event)
  -- A task called the transport with an event of its own.
  | delivered (handoff : HandoffId) (e : Event)
  -- The channel of a hand-off closed at the end of the forwarding task.
  | closed (handoff : HandoffId)

abbrev Ledger := List Milestone

namespace Ledger

variable {α : Type}

def select (f : Milestone → Option α) (l : Ledger) : List α := l.reverse.filterMap f

@[simp]
theorem select_nil (f : Milestone → Option α) : select f [] = [] := rfl

@[simp]
theorem select_cons (f : Milestone → Option α) (m : Milestone) (l : Ledger) :
    select f (m :: l) = select f l ++ (f m).toList := by
  cases h : f m <;> simp [select, h]

theorem mem_select {f : Milestone → Option α} {l : Ledger} {a : α} :
    a ∈ select f l ↔ ∃ m ∈ l, f m = some a := by
  simp [select]

theorem select_prefix (f : Milestone → Option α) {l l' : Ledger} (h : l <:+ l') :
    select f l <+: select f l' := (List.reverse_prefix.2 h).filterMap f

theorem select_append (f : Milestone → Option α) (new l : Ledger) :
    select f (new ++ l) = select f l ++ select f new := by
  simp [select]

theorem select_append_of_none (f : Milestone → Option α) {new : Ledger} (l : Ledger)
    (h : ∀ m ∈ new, f m = none) : select f (new ++ l) = select f l := by
  induction new with
  | nil => rfl
  | cons m new ih =>
    rw [List.cons_append, select_cons, h m (by simp), ih fun m hm => h m (by simp [hm])]
    simp

def stamped : Ledger → List Event := select fun
  | .stamped e => some e
  | _ => none

@[simp]
theorem stamped_cons (m : Milestone) (l : Ledger) :
    stamped (m :: l) = stamped l ++ (match m with
      | .stamped e => some e
      | _ => none).toList := select_cons _ m l

def written (store : StoreId) (l : Ledger) : List Event :=
  (l.select fun
    | .edited s (.append events) => if s = store then some events else none
    | _ => none).flatten

@[simp]
theorem written_cons (store : StoreId) (m : Milestone) (l : Ledger) :
    written store (m :: l) = written store l ++ (match m with
      | .edited s (.append events) => if s = store then some events else none
      | _ => none).toList.flatten := by
  rw [written, select_cons, List.flatten_append]
  rfl

def removed (store : StoreId) : Ledger → List (List String) := select fun
  | .edited s (.remove ids) => if s = store then some ids else none
  | _ => none

@[simp]
theorem removed_cons (store : StoreId) (m : Milestone) (l : Ledger) :
    removed store (m :: l) = removed store l ++ (match m with
      | .edited s (.remove ids) => if s = store then some ids else none
      | _ => none).toList := select_cons _ m l

def accepted (queue : QueueId) : Ledger → List (List Event) := select fun
  | .accepted q batch => if q = queue then some batch else none
  | _ => none

@[simp]
theorem accepted_cons (queue : QueueId) (m : Milestone) (l : Ledger) :
    accepted queue (m :: l) = accepted queue l ++ (match m with
      | .accepted q batch => if q = queue then some batch else none
      | _ => none).toList := select_cons _ m l

def sent (handoff : HandoffId) : Ledger → List Event := select fun
  | .sent h e => if h = handoff then some e else none
  | _ => none

@[simp]
theorem sent_cons (handoff : HandoffId) (m : Milestone) (l : Ledger) :
    sent handoff (m :: l) = sent handoff l ++ (match m with
      | .sent h e => if h = handoff then some e else none
      | _ => none).toList := select_cons _ m l

def received (handoff : HandoffId) : Ledger → List Event := select fun
  | .received h e => if h = handoff then some e else none
  | _ => none

@[simp]
theorem received_cons (handoff : HandoffId) (m : Milestone) (l : Ledger) :
    received handoff (m :: l) = received handoff l ++ (match m with
      | .received h e => if h = handoff then some e else none
      | _ => none).toList := select_cons _ m l

def forwarded (handoff : HandoffId) : Ledger → List (List Event) := select fun
  | .forwarded h batch => if h = handoff then some batch else none
  | _ => none

@[simp]
theorem forwarded_cons (handoff : HandoffId) (m : Milestone) (l : Ledger) :
    forwarded handoff (m :: l) = forwarded handoff l ++ (match m with
      | .forwarded h batch => if h = handoff then some batch else none
      | _ => none).toList := select_cons _ m l

def returned (handoff : HandoffId) : Ledger → List (List Event) := select fun
  | .returned h batch => if h = handoff then some batch else none
  | _ => none

@[simp]
theorem returned_cons (handoff : HandoffId) (m : Milestone) (l : Ledger) :
    returned handoff (m :: l) = returned handoff l ++ (match m with
      | .returned h batch => if h = handoff then some batch else none
      | _ => none).toList := select_cons _ m l

def counted (handoff : HandoffId) : Ledger → List (List Event) := select fun
  | .counted h batch => if h = handoff then some batch else none
  | _ => none

@[simp]
theorem counted_cons (handoff : HandoffId) (m : Milestone) (l : Ledger) :
    counted handoff (m :: l) = counted handoff l ++ (match m with
      | .counted h batch => if h = handoff then some batch else none
      | _ => none).toList := select_cons _ m l

def passed (handoff : HandoffId) : Ledger → List (List Event) := select fun
  | .forwarded h batch => if h = handoff then some batch else none
  | .delivered h e => if h = handoff then some [e] else none
  | _ => none

@[simp]
theorem passed_cons (handoff : HandoffId) (m : Milestone) (l : Ledger) :
    passed handoff (m :: l) = passed handoff l ++ (match m with
      | .forwarded h batch => if h = handoff then some batch else none
      | .delivered h e => if h = handoff then some [e] else none
      | _ => none).toList := select_cons _ m l

end Ledger

end EventTracking
