import EventTracking.Proofs.Session.Delivery

set_option autoImplicit false

namespace EventTracking

structure HandoffView where
  isThere : Prop
  channel : List Event
  isOpen : Bool
  isClosed : Bool
  pending : Nat
  sent : List Event
  received : List Event
  forwarded : List (List Event)
  returned : List (List Event)
  counted : List (List Event)
  -- The number of forwarding tasks that have not begun.
  waiting : Nat

namespace Session

open Async Change

def Job.isForwarding (id : HandoffId) : Job → Bool
  | .forwards h => h == id
  | _ => false

def handoffView (id : HandoffId) (s : Session) : HandoffView where
  isThere := id < s.handoffs.size
  channel := (s.handoff id).channel
  isOpen := (s.handoff id).isOpen
  isClosed := (s.handoff id).isClosed
  pending := (s.handoff id).pending
  sent := s.ledger.sent id
  received := s.ledger.received id
  forwarded := s.ledger.forwarded id
  returned := s.ledger.returned id
  counted := s.ledger.counted id
  waiting := s.jobs.countP fun j => Job.isForwarding id j.2

variable {id : HandoffId} {s t u : Session}

theorem handoffView_of_stock (id : HandoffId) (h : t.stock = s.stock) :
    handoffView id t = handoffView id s := by
  have handoffs : t.handoffs = s.handoffs := congrArg Stock.handoffs h
  have jobs : t.jobs = s.jobs := congrArg Stock.jobs h
  have ledger : t.ledger = s.ledger := congrArg Stock.ledger h
  simp only [handoffView, handoff, handoffs, jobs, ledger]

theorem handoffView_jobs (id : HandoffId) (jobs : List (TaskId × Job)) (s : Session) :
    handoffView id { s with jobs } =
      { handoffView id s with waiting := jobs.countP fun j => Job.isForwarding id j.2 } := rfl

theorem handoffView_begin {task : TaskId} (h : s.begin? task = some (.forwards id, t))
    (only : (handoffView id s).waiting ≤ 1) :
    (handoffView id s).waiting = 1 ∧ handoffView id t = { handoffView id s with waiting := 0 } := by
  obtain ⟨listed, rfl⟩ := begin?_eq_some h
  have forwards : (task, Job.forwards id) ∈ s.jobs.filter fun j => Job.isForwarding id j.2 :=
    List.mem_filter.2 ⟨listed, by simp [Job.isForwarding]⟩
  have length : (s.jobs.filter fun j => Job.isForwarding id j.2).length ≤ 1 := by
    rw [← List.countP_eq_length_filter]
    exact only
  obtain ⟨j, single⟩ := List.length_eq_one_iff.1
    (Nat.le_antisymm length (List.length_pos_of_mem forwards))
  have this : j = (task, Job.forwards id) := by
    rw [single] at forwards
    exact (List.mem_singleton.1 forwards).symm
  refine ⟨?_, ?_⟩
  · simp [handoffView, List.countP_eq_length_filter, single]
  · have gone : (s.jobs.filter fun j => j.1 != task).filter
        (fun j => Job.isForwarding id j.2) = [] := by
      simp only [List.filter_filter, Bool.and_comm]
      rw [← List.filter_filter, single, this]
      simp
    rw [handoffView_jobs, List.countP_eq_length_filter, gone]
    rfl

theorem handoffView_setHandoff (id id' : HandoffId) (h : Handoff) (s : Session) :
    handoffView id (setHandoff id' h s).2 =
      if id' = id ∧ id' < s.handoffs.size then
        { handoffView id s with
          channel := h.channel
          isOpen := h.isOpen
          isClosed := h.isClosed
          pending := h.pending }
      else handoffView id s := by
  have size : (setHandoff id' h s).2.handoffs.size = s.handoffs.size := Array.size_setIfInBounds
  have others : handoffView id (setHandoff id' h s).2 =
      { handoffView id s with
        isThere := id < (setHandoff id' h s).2.handoffs.size
        channel := ((setHandoff id' h s).2.handoff id).channel
        isOpen := ((setHandoff id' h s).2.handoff id).isOpen
        isClosed := ((setHandoff id' h s).2.handoff id).isClosed
        pending := ((setHandoff id' h s).2.handoff id).pending } := rfl
  rw [others, size, handoff_setHandoff]
  split <;> rfl

theorem handoffView_note (id : HandoffId) (m : Milestone) (s : Session) :
    handoffView id (note m s).2 =
      { handoffView id s with
        sent := Ledger.sent id (m :: s.ledger)
        received := Ledger.received id (m :: s.ledger)
        forwarded := Ledger.forwarded id (m :: s.ledger)
        returned := Ledger.returned id (m :: s.ledger)
        counted := Ledger.counted id (m :: s.ledger) } := rfl

def Milestone.concerns (id : HandoffId) : Milestone → Prop
  | .sent h _ | .received h _ | .forwarded h _ | .returned h _ | .counted h _ | .delivered h _
  | .closed h => h = id
  | _ => False

theorem handoffView_note_other {m : Milestone} (other : ¬ Milestone.concerns id m) (s : Session) :
    handoffView id (note m s).2 = handoffView id s := by
  rw [handoffView_note]
  cases m <;> simp_all [Milestone.concerns, handoffView]

theorem handoffView_note_closed (id id' : HandoffId) (s : Session) :
    handoffView id (note (.closed id') s).2 = handoffView id s := by
  rw [handoffView_note]
  simp [handoffView]

theorem handoffView_setHandoff_same {id' : HandoffId} {h : Handoff}
    (channel : h.channel = (s.handoff id').channel) (isOpen : h.isOpen = (s.handoff id').isOpen)
    (isClosed : h.isClosed = (s.handoff id').isClosed)
    (pending : h.pending = (s.handoff id').pending) :
    handoffView id (setHandoff id' h s).2 = handoffView id s := by
  rw [handoffView_setHandoff]
  split
  · next same => rw [channel, isOpen, isClosed, pending, same.1]; rfl
  · rfl

theorem handoffView_startLoop (id : HandoffId) (queue : QueueId)
    (start : Queue → Option TaskId → Except Error Unit × Queue) (s : Session) :
    handoffView id (startLoop queue start s).2 = handoffView id s := by
  obtain ⟨task, jobs, drains, stock⟩ := startLoop_stock queue start s
  have none : jobs.countP (fun j => Job.isForwarding id j.2) = 0 := by
    rw [List.countP_eq_zero]
    intro j hj
    rw [drains j hj]
    exact Bool.false_ne_true
  have view : handoffView id (startLoop queue start s).2 = handoffView id
      { (setQueue queue (start (s.queue queue) task).2 s).2 with jobs := s.jobs ++ jobs } :=
    handoffView_of_stock id stock
  rw [view, handoffView_jobs, List.countP_append, none]
  rfl

def handoffFrame (id : HandoffId) : Frame Session where
  always s := (handoffView id s).isThere
  quiet s t := handoffView id t = handoffView id s
  quiet_refl _ := rfl
  quiet_trans first second := second.trans first
  always_quiet there same := same ▸ there

theorem handoffFrame_allows : AllowsDelivery (handoffFrame id) fun _ => True where
  aside same := handoffView_of_stock _ (stock_of_setup same)
  locks _ _ _ := rfl
  starts queue _ := handoffView_startLoop id queue _ _
  appends _ _ _ _ := handoffView_note_other (by simp [Milestone.concerns]) _

end Session

end EventTracking
