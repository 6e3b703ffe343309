import EventTracking.Proofs.Async.Owing
import EventTracking.Proofs.Handoff.Forwarding
import EventTracking.Proofs.Handoff.Tasks

set_option autoImplicit false

namespace EventTracking.Session

open Async Change Crowd HandoffView

variable {id : HandoffId} {s t : Session}

-- What may become of a hand-off while others wait for it: nobody is registered under a ticket that
-- was already given, and the record only grows.
structure Steady (id : HandoffId) (s t : Session) : Prop where
  isThere : id < s.handoffs.size → id < t.handoffs.size
  tickets : (s.handoff id).settled.nextTicket ≤ (t.handoff id).settled.nextTicket
  watching : ∀ ticket < (s.handoff id).settled.nextTicket,
    (t.handoff id).isWatching ticket → (s.handoff id).isWatching ticket
  sent : s.ledger.sent id <+: t.ledger.sent id
  returned : s.ledger.returned id <+: t.ledger.returned id

namespace Steady

theorem refl (s : Session) : Steady id s s where
  isThere there := there
  tickets := Nat.le_refl _
  watching _ _ watches := watches
  sent := List.prefix_rfl
  returned := List.prefix_rfl

theorem trans {u : Session} (first : Steady id s t) (second : Steady id t u) : Steady id s u where
  isThere there := second.isThere (first.isThere there)
  tickets := first.tickets.trans second.tickets
  watching ticket given watches :=
    first.watching ticket given
      (second.watching ticket (Nat.lt_of_lt_of_le given first.tickets) watches)
  sent := first.sent.trans second.sent
  returned := first.returned.trans second.returned

theorem of_same (handoffs : t.handoffs = s.handoffs) (ledger : s.ledger <:+ t.ledger) :
    Steady id s t := by
  have same : t.handoff id = s.handoff id := by rw [handoff, handoff, handoffs]
  constructor
  · rw [handoffs]
    exact fun there => there
  · rw [same]
  · rw [same]
    exact fun _ _ watches => watches
  · exact Ledger.select_prefix _ ledger
  · exact Ledger.select_prefix _ ledger

theorem setHandoff {h : Handoff}
    (tickets : (s.handoff id).settled.nextTicket ≤ h.settled.nextTicket)
    (watching : ∀ ticket < (s.handoff id).settled.nextTicket,
      h.isWatching ticket → (s.handoff id).isWatching ticket) :
    Steady id s (setHandoff id h s).2 := by
  have size : (Session.setHandoff id h s).2.handoffs.size = s.handoffs.size :=
    Array.size_setIfInBounds
  constructor
  · rw [size]
    exact fun there => there
  · rw [handoff_setHandoff]
    split
    · exact tickets
    · exact Nat.le_refl _
  · intro ticket given watches
    rw [handoff_setHandoff] at watches
    split at watches
    · exact watching ticket given watches
    · exact watches
  · exact List.prefix_rfl
  · exact List.prefix_rfl

end Steady

def upkeep (id : HandoffId) : Upkeep Session where
  always s := id < s.handoffs.size
  quiet := Steady id
  quiet_refl := .refl
  quiet_trans := .trans
  always_quiet there steady := steady.isThere there
  good s := 0 < (s.handoff id).pending
  known := Exact id

theorem calm_of_same (handoffs : t.handoffs = s.handoffs) (ledger : s.ledger <:+ t.ledger) :
    (upkeep id).calm.quiet s t := by
  refine ⟨.of_same handoffs ledger, fun pending => ?_⟩
  have same : t.handoff id = s.handoff id := by rw [handoff, handoff, handoffs]
  change 0 < (t.handoff id).pending
  exact same ▸ pending

theorem calm_setHandoff {h : Handoff} (pending : h.pending = (s.handoff id).pending)
    (tickets : (s.handoff id).settled.nextTicket ≤ h.settled.nextTicket)
    (watching : ∀ ticket < (s.handoff id).settled.nextTicket,
      h.isWatching ticket → (s.handoff id).isWatching ticket) :
    (upkeep id).calm.quiet s (setHandoff id h s).2 := by
  refine ⟨.setHandoff tickets watching, fun some => ?_⟩
  change 0 < ((setHandoff id h s).2.handoff id).pending
  rw [handoff_setHandoff]
  split
  · exact pending ▸ some
  · exact some

theorem upkeep_receiving : AllowsReceiving (upkeep id).calm id fun _ => True where
  aside {s t} same := by
    have ledger : t.ledger = s.ledger := congrArg (·.1.ledger) same
    exact calm_of_same (congrArg (·.1.handoffs) same) (ledger ▸ List.suffix_rfl)
  locks _ _ _ := calm_of_same rfl List.suffix_rfl
  starts {s} queue _ := by
    obtain ⟨handoffs, ledger⟩ := ensureRunning_beside queue s
    exact calm_of_same handoffs (ledger ▸ List.suffix_rfl)
  appends _ _ _ _ := calm_of_same rfl (List.suffix_cons _ _)
  holds _ _ pending settled := by
    refine calm_setHandoff pending (by rw [settled]) fun ticket _ watches => ?_
    rwa [Handoff.isWatching, settled] at watches
  receives _ _ := calm_of_same rfl (List.suffix_cons _ _)

theorem isWatching_announceSettled (there : id < s.handoffs.size) (ticket : Nat) :
    ((announceSettled id s).2.handoff id).isWatching ticket = false := by
  have announced : (announceSettled id s).2.handoff id = (s.handoff id).announce.2 :=
    (handoff_setHandoff s id id _).trans (if_pos ⟨rfl, there⟩)
  rw [announced]
  exact Signal.isWaiting_notify _ ticket

theorem calm_announceSettled : (upkeep id).calm.quiet s (announceSettled id s).2 := by
  have set : (upkeep id).calm.quiet s (setHandoff id (s.handoff id).announce.2 s).2 := by
    refine calm_setHandoff rfl (Nat.le_refl _) fun ticket _ watches => ?_
    exact absurd watches (by simp [Handoff.isWatching, Handoff.announce, Signal.isWaiting_notify])
  exact (upkeep id).calm.quiet_trans set (calm_of_same rfl List.suffix_rfl)

theorem steady_countBatch (batch : List Event) : Steady id s (countBatch id batch s).2 :=
  have set : Steady id s (setHandoff id ((s.handoff id).subtract batch.length).2 s).2 :=
    .setHandoff (Nat.le_refl _) fun _ _ watches => watches
  set.trans (.of_same rfl (List.suffix_cons _ _))

theorem pending_countBatch {batch : List Event} (there : (handoffView id s).isThere)
    (before : Exact id s) (after : Exact id (countBatch id batch s).2)
    (less : (countBatch id batch s).1 = false) :
    0 < ((countBatch id batch s).2.handoff id).pending := by
  have view := handoffView_countBatch batch there
  have pending : ((countBatch id batch s).2.handoff id).pending =
      (s.handoff id).pending - batch.length := congrArg HandoffView.pending view
  have counted : (countBatch id batch s).2.ledger.counted id =
      s.ledger.counted id ++ [batch] := congrArg HandoffView.counted view
  have sent : (countBatch id batch s).2.ledger.sent id = s.ledger.sent id :=
    congrArg HandoffView.sent view
  have other : (s.handoff id).pending ≠ batch.length := beq_eq_false_iff_ne.1 less
  -- By the books the batch was pending, so what is subtracted is there.
  have whole := before.total
  have rest := after.total
  rw [pending, counted, sent, List.flatten_append, List.length_append] at rest
  simp only [List.flatten_cons, List.flatten_nil, List.append_nil] at rest
  omega

theorem amends_settleBatch (batch : List Event) :
    Amends (upkeep id) (announceSettled id) (settleBatch id batch) := by
  intro s there
  refine ⟨steady_countBatch batch, ?_⟩
  cases nothing : (countBatch id batch s).1 with
  | false =>
    exact ⟨.inl fun before after _ => pending_countBatch there before after nothing, trivial⟩
  | true =>
    exact ⟨.inr (.now _), .of_keeps (Keeps.act fun s _ => calm_announceSettled)⟩

theorem amends_forwardRound : Amends (upkeep id) (announceSettled id) (forwardRound id) := by
  have notes {s : Session} (m : Milestone) : (upkeep id).calm.quiet s (note m s).2 :=
    calm_of_same rfl (List.suffix_cons _ _)
  apply forwardRound_composes Amends.composes
  · exact .of_keeps upkeep_receiving.receive
  · exact fun batch => .of_keeps (upkeep_receiving.gatherRound batch)
  · exact fun batch => .of_keeps (Keeps.act fun s _ => notes _)
  · exact fun t batch => .of_keeps (upkeep_receiving.handle t batch fun _ _ => trivial)
  · exact fun r => .of_keeps (upkeep_receiving.comeBack r)
  · exact fun batch => .of_keeps (Keeps.act fun s _ => notes _)
  · exact amends_settleBatch

theorem amends_forwards : Amends (upkeep id) (announceSettled id) (forwards id) :=
  ⟨fun _ => upkeep_receiving.closeChannel fun _ => calm_of_same rfl (List.suffix_cons _ _),
    .iterate (fun _ => amends_forwardRound) (), fun _ => trivial⟩

inductive Stage where
  | asks
  | looks (ticket : Nat)
  | parks (ticket : Nat)
  | wakes
  | leaves (a : Answer)
  | gone (a : Answer)

namespace Stage

variable {m : Change Answer} {stage stage' : Stage}

def looked (id : HandoffId) (ticket : Nat) : Option Answer → Task (Unit ⊕ Answer)
  | some a => return .inr a
  | none => do
    parkSettled id ticket
    return .inl ()

theorem settledRound_eq : settledRound id m =
    .step (watchSettled id) fun ticket => .step (lookSettled id ticket m) (looked id ticket) := by
  refine congrArg (Async.step (watchSettled id)) (funext fun ticket => ?_)
  refine congrArg (Async.step (lookSettled id ticket m)) (funext fun r => ?_)
  cases r <;> rfl

def round (id : HandoffId) (m : Change Answer) : Stage → Task (Unit ⊕ Answer)
  | asks => settledRound id m
  | looks ticket => .step (lookSettled id ticket m) (looked id ticket)
  | parks ticket => looked id ticket none
  | wakes => .done (.inl ())
  | leaves a | gone a => .done (.inr a)

def task (id : HandoffId) (m : Change Answer) : Stage → Task Answer
  | gone a => .done a
  | stage => .loop (fun () => settledRound id m) (stage.round id m) .done

inductive Move (id : HandoffId) (m : Change Answer) : Stage → Session → Stage → Session → Prop
  | watch {s : Session} :
      Move id m asks s (looks (watchSettled id s).1) (watchSettled id s).2
  | settle {s : Session} {ticket : Nat} (nothing : (s.handoff id).pending = 0) :
      Move id m (looks ticket) s (leaves (m (leaveSettled id ticket s).2).1)
        (m (leaveSettled id ticket s).2).2
  | park {s : Session} {ticket : Nat} (pending : (s.handoff id).pending ≠ 0) :
      Move id m (looks ticket) s (parks ticket) s
  | stay {s : Session} {ticket : Nat} : Move id m (parks ticket) s (parks ticket) s
  | wake {s : Session} {ticket : Nat} (notified : ¬ (s.handoff id).isWatching ticket) :
      Move id m (parks ticket) s wakes s
  | again {s : Session} : Move id m wakes s asks s
  | finish {s : Session} {a : Answer} : Move id m (leaves a) s (gone a) s

theorem step {a : Task Answer} (go : Async.Step (stage.task id m) s a t) :
    ∃ stage', a = stage'.task id m ∧ Move id m stage s stage' t := by
  cases stage with
  | asks =>
    cases go with
    | round step =>
      rw [round, settledRound_eq] at step
      cases step
      exact ⟨_, rfl, .watch⟩
  | looks ticket =>
    cases go with
    | round step =>
      cases step
      by_cases nothing : (s.handoff id).pending = 0
      · rw [lookSettled_of_nothing m nothing]
        exact ⟨_, rfl, .settle nothing⟩
      · rw [lookSettled_of_pending m nothing]
        exact ⟨_, rfl, .park nothing⟩
  | parks ticket =>
    cases go with
    | round step =>
      cases step with
      | ready _ _ now =>
        refine ⟨wakes, rfl, .wake fun watches => ?_⟩
        simp [when, watches] at now
      | early => exact ⟨_, rfl, .stay⟩
  | wakes =>
    cases go with
    | round step => cases step
    | again => exact ⟨_, rfl, .again⟩
  | leaves a =>
    cases go with
    | round step => cases step
    | final => exact ⟨_, rfl, .finish⟩
  | gone a => cases go

theorem watching_of_task {m' : Change Answer} {ticket : Nat}
    (same : stage.task id m' = (parks ticket).task id m) :
    ∃ ticket', stage = parks ticket' ∧
      ∀ s : Session, (s.handoff id).isWatching ticket' = (s.handoff id).isWatching ticket := by
  cases stage with
  | gone => cases same
  | asks | looks | wakes | leaves =>
    injection same with _ _ _ _ round
    cases round
  | parks ticket' =>
    injection same with _ _ _ _ round
    injection round with _ _ looks
    refine ⟨ticket', rfl, fun s => ?_⟩
    have look := congrFun looks s
    cases watches : (s.handoff id).isWatching ticket <;>
      cases watches' : (s.handoff id).isWatching ticket' <;>
        simp [when, watches, watches'] at look ⊢

end Stage

-- What one who waited may do before others can hand off more.
structure Harmless (id : HandoffId) (m : Change Answer) : Prop where
  view : ∀ s, handoffView id (m s).2 = handoffView id s
  settled : ∀ s, ((m s).2.handoff id).settled = (s.handoff id).settled

theorem calm_of_handed (handed : Handed (handoffView id s) (handoffView id t))
    (settled : (t.handoff id).settled = (s.handoff id).settled) :
    (upkeep id).calm.quiet s t := by
  obtain ⟨sent, returned, pending⟩ := handed.grows
  refine ⟨⟨handed.isThere.symm.mp, by rw [settled], fun ticket _ watches => ?_, sent, ?_⟩,
    fun some => Nat.lt_of_lt_of_le some pending⟩
  · rwa [Handoff.isWatching, settled] at watches
  · exact (show t.ledger.returned id = s.ledger.returned id from returned) ▸ List.prefix_rfl

theorem calm_leaveSettled (ticket : Nat) :
    (upkeep id).calm.quiet s (leaveSettled id ticket s).2 := by
  refine calm_setHandoff rfl (Nat.le_refl _) fun k _ watches => ?_
  obtain ⟨waiter, listed, mine⟩ := List.any_eq_true.1 watches
  exact List.any_eq_true.2 ⟨waiter, (List.mem_filter.1 listed).1, mine⟩

theorem calm_watchSettled : (upkeep id).calm.quiet s (watchSettled id s).2 := by
  refine calm_setHandoff rfl (Nat.le_succ _) fun k given watches => ?_
  obtain ⟨waiter, listed, mine⟩ := List.any_eq_true.1 watches
  refine List.any_eq_true.2 ⟨waiter, ?_, mine⟩
  -- The ticket is an old one, so it is not the one that was just given.
  rcases List.mem_append.1 listed with old | new
  · exact old
  · obtain rfl := List.mem_singleton.1 new
    exact absurd (beq_iff_eq.1 mine) (Nat.ne_of_gt given)

theorem Stage.Move.calm {m : Change Answer} {stage stage' : Stage} (harmless : Harmless id m)
    (move : Stage.Move id m stage s stage' t) : (upkeep id).calm.quiet s t := by
  cases move with
  | watch => exact calm_watchSettled
  | @settle s ticket nothing =>
    have does := calm_of_handed (harmless.view (leaveSettled id ticket s).2 ▸ .nothing)
      (harmless.settled (leaveSettled id ticket s).2)
    exact (upkeep id).calm.quiet_trans (calm_leaveSettled ticket) does
  | park | stay | wake | again | finish => exact (upkeep id).calm.quiet_refl s

def Attended (id : HandoffId) (c : Crowd Session Answer) (ticket : Nat) : Prop :=
  (c.state.handoff id).isWatching ticket →
    0 < (c.state.handoff id).pending ∨ ∃ a ∈ c.tasks, Owes (announceSettled id) a

def Stage.Placed (id : HandoffId) (c : Crowd Session Answer) : Stage → Prop
  | .looks ticket => ticket < (c.state.handoff id).settled.nextTicket
  | .parks ticket => ticket < (c.state.handoff id).settled.nextTicket ∧ Attended id c ticket
  | _ => True

inductive Member (id : HandoffId) (c : Crowd Session Answer) : Task Answer → Prop
  | forwards {release : Session → Session} {a : Task Answer}
      (amends : Amends (upkeep id) (announceSettled id) (Async.ensuring release a)) :
      Member id c (Async.ensuring release a)
  | ended (a : Answer) : Member id c (.done a)
  | waits {m : Change Answer} {stage : Stage} (harmless : Harmless id m)
      (placed : stage.Placed id c) : Member id c (stage.task id m)

structure Carries (id : HandoffId) (c c' : Crowd Session Answer) : Prop where
  steady : Steady id c.state c'.state
  attended : ∀ ticket < (c.state.handoff id).settled.nextTicket, Attended id c ticket →
    Attended id c' ticket

namespace Carries

variable {c c' : Crowd Session Answer} {tasks : List (Task Answer)} {i : Nat} {a a' : Task Answer}

theorem step (there : id < s.handoffs.size) (found : tasks[i]? = some a)
    (go : Async.Step a s a' t) (steady : Steady id s t)
    (kept : 0 < (s.handoff id).pending →
      0 < (t.handoff id).pending ∨ Owes (announceSettled id) a') :
    Carries id ⟨s, tasks⟩ ⟨t, tasks.set i a'⟩ := by
  refine ⟨steady, fun ticket given attended watches => ?_⟩
  have inside := (List.getElem?_eq_some_iff.1 found).1
  rcases attended (steady.watching ticket given watches) with pending | ⟨b, listed, owes⟩
  · exact (kept pending).imp_right fun owes => ⟨a', List.mem_set inside a', owes⟩
  obtain ⟨j, hj⟩ := List.mem_iff_getElem?.1 listed
  by_cases mine : i = j
  -- The notification was due from the task that took the step, so that was the step.
  · subst mine
    obtain rfl : a = b := Option.some.inj (found.symm.trans hj)
    rw [show t = (announceSettled id s).2 from owes.step go] at watches
    exact absurd watches (by simp [isWatching_announceSettled there ticket])
  · refine .inr ⟨b, ?_, owes⟩
    rw [← List.getElem?_set_ne mine] at hj
    exact List.mem_of_getElem? hj

theorem more (calm : (upkeep id).calm.quiet s t) (new : List (Task Answer)) :
    Carries id ⟨s, tasks⟩ ⟨t, tasks ++ new⟩ := by
  refine ⟨calm.1, fun ticket given attended watches => ?_⟩
  rcases attended (calm.1.watching ticket given watches) with pending | ⟨b, listed, owes⟩
  · exact .inl (calm.2 pending)
  · exact .inr ⟨b, List.mem_append_left new listed, owes⟩

theorem placed {stage : Stage} (carries : Carries id c c') (h : stage.Placed id c) :
    stage.Placed id c' := by
  cases stage with
  | asks | wakes | leaves | gone => trivial
  | looks ticket => exact Nat.lt_of_lt_of_le h carries.steady.tickets
  | parks ticket =>
    exact ⟨Nat.lt_of_lt_of_le h.1 carries.steady.tickets, carries.attended ticket h.1 h.2⟩

theorem member {a : Task Answer} (carries : Carries id c c') (h : Member id c a) :
    Member id c' a := by
  cases h with
  | forwards amends => exact .forwards amends
  | ended a => exact .ended a
  | waits harmless placed => exact .waits harmless (carries.placed placed)

end Carries

theorem Stage.Placed.move {m : Change Answer} {stage stage' : Stage}
    {tasks tasks' : List (Task Answer)} (there : id < s.handoffs.size)
    (placed : stage.Placed id ⟨s, tasks⟩) (carries : Carries id ⟨s, tasks⟩ ⟨t, tasks'⟩)
    (move : Stage.Move id m stage s stage' t) : stage'.Placed id ⟨t, tasks'⟩ := by
  cases move with
  | watch =>
    have registered : (watchSettled id s).2.handoff id =
        ((s.handoff id).watch s.scheduler.running).2 :=
      (handoff_setHandoff s id id _).trans (if_pos ⟨rfl, there⟩)
    change (s.handoff id).settled.nextTicket < _
    rw [registered]
    exact Nat.lt_succ_self _
  | park pending => exact ⟨placed, fun _ => .inl (Nat.pos_of_ne_zero pending)⟩
  | stay => exact carries.placed placed
  | settle | wake | again | finish => trivial

theorem Member.step {tasks : List (Task Answer)} {i : Nat} {a a' : Task Answer}
    (there : id < s.handoffs.size) (before : Exact id s) (after : Exact id t)
    (member : Member id ⟨s, tasks⟩ a) (found : tasks[i]? = some a) (go : Async.Step a s a' t) :
    Carries id ⟨s, tasks⟩ ⟨t, tasks.set i a'⟩ ∧ Member id ⟨t, tasks.set i a'⟩ a' := by
  cases member with
  | forwards amends =>
    obtain ⟨steady, kept, rest⟩ := amends.step there go
    refine ⟨.step there found go steady fun pending => ?_, ?_⟩
    · exact kept.imp_left fun kept => kept before after pending
    · cases go with
      | inside => exact .forwards rest
      | release => exact .ended _
  | ended => cases go
  | waits harmless placed =>
    obtain ⟨stage', rfl, move⟩ := Stage.step go
    have calm := move.calm harmless
    have carries := Carries.step there found go calm.1 fun pending => .inl (calm.2 pending)
    exact ⟨carries, .waits harmless (placed.move there carries move)⟩

-- The forwarding tasks of a hand-off, any number of senders, and any number of those who wait,
-- each of whom may give up at any time.
def waitingSetting (id : HandoffId) : Setting Session Answer where
  comes s a t := (handoffSetting id).comes s a t ∨
    t = s ∧ ∃ m : Change Answer, Harmless id m ∧ a = settled id m
  outside s t := HandoffChange id s t ∧ (t.handoff id).settled = (s.handoff id).settled ∨
    ∃ ticket, t = (leaveSettled id ticket s).2

theorem exact_waiting (new : NewHandoff id s) {c : Crowd Session Answer}
    (run : Run (waitingSetting id) ⟨s, []⟩ c) : Exact id c.state := by
  have settling : AllowsSettling (handoffFrame id) id fun _ => True :=
    { handoffFrame_allows with signals := fun _ _ => handoffView_setHandoff_same rfl rfl rfl rfl }
  let D : Discipline (waitingSetting id) (forwardProtocol id) (fun _ _ => True) fun _ => True :=
    forwardDiscipline
      (by
        rintro s a t (begins | ⟨rfl, m, harmless, rfl⟩)
        · exact .inl begins
        · refine .inr ⟨rfl, ?_⟩
          have keeps := settling.settled fun s _ => harmless.view s
          exact .of_keeps keeps trivial fun _ => trivial)
      (by
        rintro s t there (⟨change, _⟩ | ⟨ticket, rfl⟩)
        · exact change.handed there
        · have same : handoffView id (leaveSettled id ticket s).2 = handoffView id s :=
            handoffView_setHandoff_same rfl rfl rfl rfl
          exact same ▸ .nothing)
  obtain ⟨roles, _, accounted⟩ := D.run_alone (fun _ _ => trivial) new.accounted run
  exact accounted.exact

structure Tended (id : HandoffId) (c : Crowd Session Answer) : Prop where
  isThere : id < c.state.handoffs.size
  members : ∀ a ∈ c.tasks, Member id c a

theorem waitingSetting_outside (there : id < s.handoffs.size)
    (change : (waitingSetting id).outside s t) : (upkeep id).calm.quiet s t := by
  rcases change with ⟨change, settled⟩ | ⟨ticket, rfl⟩
  · exact calm_of_handed (change.handed there) settled
  · exact calm_leaveSettled ticket

theorem waitingSetting_comes {a : Task Answer} (comes : (waitingSetting id).comes s a t)
    (c : Crowd Session Answer) : (upkeep id).calm.quiet s t ∧ Member id c a := by
  rcases comes with ⟨task, begun, rfl⟩ | ⟨rfl, m, harmless, rfl⟩
  · obtain ⟨_, rfl⟩ := begin?_eq_some begun
    exact ⟨calm_of_same rfl List.suffix_rfl, .forwards amends_forwards⟩
  · have asks : Member id c (Stage.asks.task id m) := .waits harmless trivial
    exact ⟨(upkeep id).calm.quiet_refl _, asks⟩

namespace Tended

variable {c c' : Crowd Session Answer}

theorem move (tended : Tended id c) (before : Exact id c.state) (after : Exact id c'.state)
    (move : Crowd.Move (waitingSetting id) c c') : Carries id c c' ∧ Tended id c' := by
  cases move with
  | @step s t tasks i a a' found go =>
    obtain ⟨carries, member⟩ := (tended.members a (List.mem_of_getElem? found)).step
      tended.isThere before after found go
    refine ⟨carries, carries.steady.isThere tended.isThere, fun b listed => ?_⟩
    rcases List.mem_or_eq_of_mem_set listed with old | rfl
    · exact carries.member (tended.members b old)
    · exact member
  | @come s t tasks a comes =>
    obtain ⟨calm, member⟩ := waitingSetting_comes comes ⟨t, tasks ++ [a]⟩
    have carries : Carries id ⟨s, tasks⟩ ⟨t, tasks ++ [a]⟩ := .more calm [a]
    refine ⟨carries, carries.steady.isThere tended.isThere, fun b listed => ?_⟩
    rcases List.mem_append.1 listed with old | new
    · exact carries.member (tended.members b old)
    · exact List.mem_singleton.1 new ▸ member
  | @outside s t tasks changes =>
    have carries : Carries id ⟨s, tasks⟩ ⟨t, tasks ++ []⟩ :=
      .more (waitingSetting_outside tended.isThere changes) []
    rw [List.append_nil] at carries
    exact ⟨carries, carries.steady.isThere tended.isThere,
      fun b listed => carries.member (tended.members b listed)⟩

theorem run (new : NewHandoff id s) (run : Run (waitingSetting id) ⟨s, []⟩ c) : Tended id c := by
  induction run with
  | refl => exact ⟨new.isThere, by simp⟩
  | tail before move ih =>
    exact (ih.move (exact_waiting new before) (exact_waiting new (before.tail move)) move).2

end Tended

def Stage.isThrough : Stage → Prop
  | leaves _ | gone _ => True
  | _ => False

-- `base` is what had been sent when it asked.
structure Waits (id : HandoffId) (m : Change Answer) (n : Nat) (base : List Event)
    (c : Crowd Session Answer) (stage : Stage) : Prop where
  found : c.tasks[n]? = some (stage.task id m)
  sent : base <+: c.state.ledger.sent id
  through : stage.isThrough → base <+: (c.state.ledger.returned id).flatten

namespace Waits

variable {m : Change Answer} {n : Nat} {base : List Event} {c c' : Crowd Session Answer}
  {stage : Stage}

theorem later (waits : Waits id m n base c stage) (steady : Steady id c.state c'.state)
    (found : c'.tasks[n]? = some (stage.task id m)) : Waits id m n base c' stage where
  found := found
  sent := waits.sent.trans steady.sent
  through seen := (waits.through seen).trans steady.returned.flatten

theorem move (waits : Waits id m n base c stage) (exact : Exact id c.state)
    (steady : Steady id c.state c'.state) (move : Crowd.Move (waitingSetting id) c c') :
    ∃ stage', Waits id m n base c' stage' := by
  have inside := (List.getElem?_eq_some_iff.1 waits.found).1
  cases move with
  | @step s t tasks i a a' found go =>
    by_cases mine : i = n
    · subst mine
      obtain rfl := Option.some.inj (waits.found.symm.trans found)
      obtain ⟨stage', rfl, move⟩ := Stage.step go
      refine ⟨stage', by simp [inside], waits.sent.trans steady.sent, fun seen => ?_⟩
      -- It goes through where nothing is pending, so all that was sent is back.
      cases move with
      | settle nothing =>
        have back : base <+: (s.ledger.returned id).flatten := exact.settled nothing ▸ waits.sent
        exact back.trans steady.returned.flatten
      | finish => exact (waits.through trivial).trans steady.returned.flatten
      | watch | park | stay | wake | again => exact seen.elim
    · exact ⟨stage, waits.later steady (by simpa [List.getElem?_set_ne mine] using waits.found)⟩
  | come =>
    refine ⟨stage, waits.later steady ?_⟩
    rw [List.getElem?_append_left inside]
    exact waits.found
  | outside => exact ⟨stage, waits.later steady waits.found⟩

theorem run {d : Crowd Session Answer} (new : NewHandoff id s)
    (before : Run (waitingSetting id) ⟨s, []⟩ d) (waits : Waits id m n base d stage)
    (run : Run (waitingSetting id) d c) : ∃ stage', Waits id m n base c stage' := by
  induction run with
  | refl => exact ⟨stage, waits⟩
  | tail first move ih =>
    obtain ⟨stage', waits'⟩ := ih
    have exact := exact_waiting new (before.trans first)
    have after := exact_waiting new ((before.trans first).tail move)
    obtain ⟨carries, _⟩ := (Tended.run new (before.trans first)).move exact after move
    exact waits'.move exact carries.steady move

end Waits

/-- Whoever is parked and was not notified waits for events that are pending or for a notification
that is due. And when one who waits is done, all that had been sent before it asked is through the
transport. -/
theorem settled_wakes {c : Crowd Session Answer} (new : NewHandoff id s)
    (run : Run (waitingSetting id) ⟨s, []⟩ c) :
    (∀ (m : Change Answer) (ticket : Nat), (Stage.parks ticket).task id m ∈ c.tasks →
      (c.state.handoff id).isWatching ticket →
        0 < (c.state.handoff id).pending ∨ ∃ a ∈ c.tasks, Owes (announceSettled id) a) ∧
    ∀ (m : Change Answer) (a : Answer) (c' : Crowd Session Answer), Harmless id m →
      Run (waitingSetting id) ⟨c.state, c.tasks ++ [settled id m]⟩ c' →
        c'.tasks[c.tasks.length]? = some (.done a) →
          c.state.ledger.sent id <+: (c'.state.ledger.returned id).flatten := by
  constructor
  · intro m ticket listed watches
    have member := (Tended.run new run).members _ listed
    generalize same : (Stage.parks ticket).task id m = a at member
    cases member with
    | forwards | ended => cases same
    | waits harmless placed =>
      obtain ⟨ticket', rfl, agree⟩ := Stage.watching_of_task same.symm
      exact placed.2 ((agree c.state).trans watches)
  · intro m a c' harmless run' ended
    have comes : Crowd.Move (waitingSetting id) c ⟨c.state, c.tasks ++ [settled id m]⟩ :=
      .come (.inr ⟨rfl, m, harmless, rfl⟩)
    have asks : Waits id m c.tasks.length (c.state.ledger.sent id)
        ⟨c.state, c.tasks ++ [settled id m]⟩ .asks :=
      ⟨by simp [Stage.task, Stage.round, settled, Async.iterate], List.prefix_rfl, nofun⟩
    obtain ⟨stage, waits⟩ := Waits.run new (run.tail comes) asks run'
    have same : stage.task id m = .done a := Option.some.inj (waits.found.symm.trans ended)
    cases stage with
    | gone => exact waits.through trivial
    | asks | looks | parks | wakes | leaves => cases same

def sampleParked : Polled Session Answer × Session :=
  (settled 0 (pure .done)).poll 100 sampleUnderWay.2

def sampleBack : Polled Session Answer × Session :=
  sampleUnderWay.1.rest.poll 100 (sampleLater sampleParked.2)

def sampleWoken : Polled Session Answer × Session := sampleParked.1.rest.poll 100 sampleBack.2

theorem settled_wakes_sample :
    (0 < (sampleParked.2.handoff 0).pending ∨
      ∃ a ∈ [sampleUnderWay.1.rest, sampleParked.1.rest], Owes (announceSettled 0) a) ∧
    sampleUnderWay.2.ledger.sent 0 <+: (sampleWoken.2.ledger.returned 0).flatten := by
  have nobody : Run (waitingSetting 0) ⟨sampleHandoff, []⟩ ⟨sampleHandoff, []⟩ := .refl
  have sent := nobody.tail (.outside (.inl ⟨.send (sampleEvent "a") rfl, rfl⟩))
  have begins : (waitingSetting 0).comes (send 0 (sampleEvent "a") sampleHandoff).2
      (Job.task (.forwards 0)) { (send 0 (sampleEvent "a") sampleHandoff).2 with jobs := [] } :=
    .inl ⟨1, rfl, rfl⟩
  have called : Run (waitingSetting 0) ⟨sampleHandoff, []⟩
      ⟨sampleUnderWay.2, [sampleUnderWay.1.rest]⟩ := sent.trans (Run.come_poll begins 100)
  have harmless : Harmless 0 (pure .done) := ⟨fun _ => rfl, fun _ => rfl⟩
  have asks : (waitingSetting 0).comes sampleUnderWay.2 (settled 0 (pure .done))
      sampleUnderWay.2 := .inr ⟨rfl, _, harmless, rfl⟩
  have parked : Run (waitingSetting 0) ⟨sampleUnderWay.2, [sampleUnderWay.1.rest]⟩
      ⟨sampleParked.2, [sampleUnderWay.1.rest, sampleParked.1.rest]⟩ := Run.come_poll asks 100
  have polled : Run (waitingSetting 0)
      ⟨sampleUnderWay.2, [sampleUnderWay.1.rest, settled 0 (pure .done)]⟩
      ⟨sampleParked.2, [sampleUnderWay.1.rest, sampleParked.1.rest]⟩ :=
    Run.steps (i := 1) rfl (Async.poll_steps 100 _ _)
  have time : (waitingSetting 0).outside sampleParked.2 (sampleLater sampleParked.2) :=
    .inl ⟨.other rfl, rfl⟩
  have back : Run (waitingSetting 0)
      ⟨sampleLater sampleParked.2, [sampleUnderWay.1.rest, sampleParked.1.rest]⟩
      ⟨sampleBack.2, [sampleBack.1.rest, sampleParked.1.rest]⟩ :=
    Run.steps (i := 0) rfl (Async.poll_steps 100 _ _)
  have woken : Run (waitingSetting 0) ⟨sampleBack.2, [sampleBack.1.rest, sampleParked.1.rest]⟩
      ⟨sampleWoken.2, [sampleBack.1.rest, sampleWoken.1.rest]⟩ :=
    Run.steps (i := 1) rfl (Async.poll_steps 100 _ _)
  have waits : (Stage.parks 0).task 0 (pure .done) = sampleParked.1.rest := rfl
  have done : sampleWoken.1.rest = .done .done := rfl
  constructor
  · exact (settled_wakes sampleHandoff_new (called.trans parked)).1 (pure .done) 0
      (by simp [waits]) (by decide)
  · have through := ((polled.tail (.outside time)).trans back).trans woken
    exact (settled_wakes sampleHandoff_new called).2 (pure .done) .done _ harmless through
      (congrArg some done)

end EventTracking.Session
