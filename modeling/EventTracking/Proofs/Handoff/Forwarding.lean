import EventTracking.Proofs.Async.Crowd
import EventTracking.Proofs.Async.Sole
import EventTracking.Proofs.Handoff.View
import Mathlib.Data.List.Infix

set_option autoImplicit false

namespace EventTracking

inductive ForwardRole where
  | away
  -- It has nothing in hand.
  | ready
  | assembling (batch : List Event)
  -- Its call of the transport is under way.
  | calling (batch : List Event)
  -- The call is back, but the batch is not yet counted.
  | counting (batch : List Event)
  -- It has found the channel closed and empty.
  | leaving

namespace ForwardRole

def isForwarding : ForwardRole → Bool
  | away => false
  | _ => true

theorem eq_away {l : ForwardRole} (h : l.isForwarding = false) : l = away := by
  cases l with
  | away => rfl
  | ready | assembling | calling | counting | leaving => cases h

def inHand : ForwardRole → List Event
  | assembling batch => batch
  | _ => []

def underWay : ForwardRole → List (List Event)
  | calling batch => [batch]
  | _ => []

def uncounted : ForwardRole → List (List Event)
  | calling batch | counting batch => [batch]
  | _ => []

end ForwardRole

namespace HandoffView

structure Accounts (v : HandoffView) (l : ForwardRole) : Prop where
  received : v.forwarded.flatten ++ l.inHand = v.received
  sent : v.received ++ v.channel = v.sent
  returned : v.returned ++ l.underWay = v.forwarded
  counted : v.counted ++ l.uncounted = v.forwarded
  pending : v.pending = v.channel.length + l.inHand.length + l.uncounted.flatten.length

structure Staffed (v : HandoffView) (l : ForwardRole) : Prop where
  waiting : v.waiting = if v.isOpen && !l.isForwarding then 1 else 0
  isOpen : l.isForwarding = true → v.isOpen = true
  closed : l = .leaving → v.isClosed = true ∧ v.channel = []
  empty : v.isOpen = false → v.channel = []

inductive Forward : ForwardRole → HandoffView → ForwardRole → HandoffView → Prop
  | receive {l : ForwardRole} {v : HandoffView} {e : Event} {rest : List Event}
      (begun : l = .ready ∨ ∃ batch, l = .assembling batch) (channel : v.channel = e :: rest) :
      Forward l v (.assembling (l.inHand ++ [e]))
        { v with channel := rest, received := v.received ++ [e] }
  | call {v : HandoffView} {batch : List Event} :
      Forward (.assembling batch) v (.calling batch)
        { v with forwarded := v.forwarded ++ [batch] }
  | back {v : HandoffView} {batch : List Event} :
      Forward (.calling batch) v (.counting batch) { v with returned := v.returned ++ [batch] }
  | count {v : HandoffView} {batch : List Event} :
      Forward (.counting batch) v .ready
        { v with pending := v.pending - batch.length, counted := v.counted ++ [batch] }
  | leave {v : HandoffView} (closed : v.isClosed = true) (empty : v.channel = []) :
      Forward .ready v .leaving v

def shut (v : HandoffView) : HandoffView := { v with channel := [], isOpen := false }

variable {v w : HandoffView} {l l' : ForwardRole}

theorem Forward.isForwarding (move : Forward l v l' w) : l.isForwarding = true := by
  cases move with
  | receive begun => rcases begun with rfl | ⟨_, rfl⟩ <;> rfl
  | call | back | count | leave => rfl

theorem Forward.goesOn (move : Forward l v l' w) : l'.isForwarding = true := by
  cases move <;> rfl

theorem Forward.isThere (move : Forward l v l' w) : w.isThere = v.isThere := by
  cases move <;> rfl

theorem Staffed.forward (staffed : v.Staffed l) (move : Forward l v l' w) : w.Staffed l' := by
  obtain ⟨waiting, isOpen, closed, empty⟩ := staffed
  -- Whoever moves is the forwarding task, so the channel is open and no other task is to begin.
  rw [isOpen move.isForwarding, move.isForwarding] at waiting
  have opened := isOpen move.isForwarding
  cases move with
  | receive | call | back | count =>
    refine ⟨?_, fun _ => opened, nofun, fun shut => ?_⟩
    · simpa [opened, ForwardRole.isForwarding] using waiting
    · exact absurd opened (by simp [show v.isOpen = false from shut])
  | leave isClosed none =>
    refine ⟨?_, fun _ => opened, fun _ => ⟨isClosed, none⟩, fun _ => none⟩
    simpa [opened, ForwardRole.isForwarding] using waiting

theorem Staffed.shut (staffed : v.Staffed l) (busy : l.isForwarding = true) :
    v.shut.Staffed .away := by
  have waiting := staffed.waiting
  rw [staffed.isOpen busy, busy] at waiting
  exact ⟨by simpa [HandoffView.shut] using waiting, nofun, nofun, fun _ => rfl⟩

theorem Accounts.forward (accounts : v.Accounts l) (move : Forward l v l' w) : w.Accounts l' := by
  obtain ⟨received, sent, returned, counted, pending⟩ := accounts
  cases move with
  | @receive l v e rest begun channel =>
    -- The event goes from the channel to the batch, and no other batch is in hand meanwhile.
    have nothing : l.underWay = [] ∧ l.uncounted = [] := by
      rcases begun with rfl | ⟨_, rfl⟩ <;> exact ⟨rfl, rfl⟩
    rw [nothing.1] at returned
    rw [nothing.2] at counted pending
    constructor
    · simp [ForwardRole.inHand, ← received]
    · simp [← sent, channel]
    · exact returned
    · exact counted
    · simp [pending, channel, ForwardRole.inHand, ForwardRole.uncounted]
      omega
  | call =>
    constructor
    · simpa [ForwardRole.inHand] using received
    · exact sent
    · simpa [ForwardRole.underWay] using returned
    · simpa [ForwardRole.uncounted] using counted
    · simpa [ForwardRole.inHand, ForwardRole.uncounted] using pending
  | back => exact ⟨received, sent, by simpa [ForwardRole.underWay] using returned, counted, pending⟩
  | count =>
    constructor
    · exact received
    · exact sent
    · exact returned
    · simpa [ForwardRole.uncounted] using counted
    · simp [pending, ForwardRole.inHand, ForwardRole.uncounted]
  | leave => exact ⟨received, sent, returned, counted, pending⟩

theorem Accounts.shut (accounts : v.Accounts .leaving) (empty : v.channel = []) :
    v.shut.Accounts .away := by
  obtain ⟨received, sent, returned, counted, pending⟩ := accounts
  rw [empty] at sent pending
  exact ⟨received, sent, returned, counted, pending⟩

inductive Handed : HandoffView → HandoffView → Prop
  | nothing {v : HandoffView} : Handed v v
  | send {v : HandoffView} {e : Event} (opened : v.isOpen = true) (usable : v.isClosed = false) :
      Handed v { v with
        channel := v.channel ++ [e]
        pending := v.pending + 1
        sent := v.sent ++ [e] }
  -- The first event takes a new forwarding task.
  | start {v : HandoffView} {e : Event} (shut : v.isOpen = false) :
      Handed v { v with
        channel := [e]
        isOpen := true
        pending := v.pending + 1
        sent := v.sent ++ [e]
        waiting := v.waiting + 1 }
  | close {v : HandoffView} : Handed v { v with isClosed := true }

theorem Handed.isThere (change : Handed v w) : w.isThere = v.isThere := by
  cases change <;> rfl

theorem Handed.grows (change : Handed v w) :
    v.sent <+: w.sent ∧ w.returned = v.returned ∧ v.pending ≤ w.pending := by
  cases change with
  | nothing | close => exact ⟨List.prefix_rfl, rfl, Nat.le_refl _⟩
  | send | start => exact ⟨List.prefix_append _ _, rfl, Nat.le_succ _⟩

theorem Staffed.handed (staffed : v.Staffed l) (change : Handed v w) : w.Staffed l := by
  obtain ⟨waiting, isOpen, closed, empty⟩ := staffed
  cases change with
  | nothing => exact ⟨waiting, isOpen, closed, empty⟩
  | send opened usable =>
    refine ⟨waiting, isOpen, fun leaving => ?_, fun shut => ?_⟩
    · exact absurd (closed leaving).1 (by simp [usable])
    · exact absurd opened (by simp [show v.isOpen = false from shut])
  | start shut =>
    have away : l.isForwarding = false := by
      by_contra forwarding
      simp [isOpen (by simpa using forwarding)] at shut
    refine ⟨?_, fun _ => rfl, fun leaving => ?_, nofun⟩
    · simpa [shut, away] using waiting
    · simp [leaving, ForwardRole.isForwarding] at away
  | close => exact ⟨waiting, isOpen, fun leaving => ⟨rfl, (closed leaving).2⟩, empty⟩

theorem Accounts.handed (accounts : v.Accounts l) (staffed : v.Staffed l) (change : Handed v w) :
    w.Accounts l := by
  obtain ⟨received, sent, returned, counted, pending⟩ := accounts
  cases change with
  | nothing | close => exact ⟨received, sent, returned, counted, pending⟩
  | send =>
    refine ⟨received, by simp [← sent], returned, counted, ?_⟩
    simp [pending]
    omega
  | start shut =>
    have none := staffed.empty shut
    refine ⟨received, by simp [← sent, none], returned, counted, ?_⟩
    simp [pending, none]
    omega

end HandoffView

namespace Session

open Async Change Crowd HandoffView

variable {id : HandoffId} {s t u : Session}

def roundProtocol (id : HandoffId) : Protocol Session ForwardRole where
  toFrame := handoffFrame id
  moves l s l' t :=
    l' = l ∧ handoffView id t = handoffView id s ∨
      Forward l (handoffView id s) l' (handoffView id t)
  rests _ := True
  moves_quiet _ _ _ _ same := .inl ⟨rfl, same⟩

def forwardProtocol (id : HandoffId) : Protocol Session ForwardRole where
  toFrame := handoffFrame id
  moves l s l' t :=
    (roundProtocol id).moves l s l' t ∨
      l = .leaving ∧ l' = .away ∧ handoffView id t = (handoffView id s).shut
  rests _ := True
  moves_quiet _ _ _ _ same := .inl (.inl ⟨rfl, same⟩)

theorem handoffView_taken {e : Event} (rest : List Event) (there : (handoffView id s).isThere) :
    handoffView id
        (note (.received id e) (setHandoff id { s.handoff id with channel := rest } s).2).2 =
      { handoffView id s with
        channel := rest
        received := (handoffView id s).received ++ [e] } := by
  rw [handoffView_note, handoffView_setHandoff, if_pos ⟨rfl, there⟩]
  simp [handoffView]

theorem obeys_takeNext {l : ForwardRole} (begun : l = .ready ∨ ∃ batch, l = .assembling batch)
    (there : (handoffView id s).isThere) :
    (takeNext id s = (none, s) ∧ (handoffView id s).channel = []) ∨
      ∃ e t, takeNext id s = (some e, t) ∧
        Forward l (handoffView id s) (.assembling (l.inHand ++ [e])) (handoffView id t) := by
  cases found : (s.handoff id).channel with
  | nil => exact .inl ⟨takeNext_of_nil found, found⟩
  | cons e rest =>
    refine .inr ⟨e, _, takeNext_of_cons found, ?_⟩
    rw [handoffView_taken rest there]
    exact .receive begun found

theorem obeys_receive :
    Obeys (roundProtocol id) .ready (receive id) fun l r =>
      l = match r with
        | none => .leaving
        | some e => .assembling [e] := by
  refine ⟨trivial, fun s there => ?_⟩
  rcases whenAllowed_cases (lookForNext id) s with ⟨later, stock⟩ | ⟨same, stock⟩
  · rw [later]
    exact ⟨fun _ => .inl ⟨rfl, handoffView_of_stock _ (stock_of_setup stock)⟩, nofun⟩
  rw [same]
  have view := handoffView_of_stock id (stock_of_setup stock)
  rcases obeys_takeNext (.inl rfl) there with ⟨nothing, empty⟩ | ⟨e, t, taken, forward⟩
  -- Without an event the task waits on, unless the channel is closed.
  · by_cases closed : (s.handoff id).isClosed = true
    · have found : lookForNext id s = (some none, s) := by
        simp [lookForNext, nothing, closed]
      rw [found] at view ⊢
      refine ⟨nofun, fun r hr => ⟨.leaving, .inr ?_, ?_⟩⟩
      · rw [view]
        exact .leave closed empty
      · obtain rfl : none = r := by simpa using hr
        rfl
    · have waits : lookForNext id s = (none, (setHandoff id
          { s.handoff id with receiver := some s.scheduler.running } s).2) := by
        simp [lookForNext, nothing, closed, leaving]
      rw [waits] at view ⊢
      exact ⟨fun _ => .inl ⟨rfl, view.trans (handoffView_setHandoff_same rfl rfl rfl rfl)⟩, nofun⟩
  · have found : lookForNext id s = (some (some e), t) := by
      simp [lookForNext, taken]
    rw [found] at view ⊢
    refine ⟨nofun, fun r hr => ⟨.assembling [e], .inr ?_, ?_⟩⟩
    · rw [view]
      exact forward
    · obtain rfl : some e = r := by simpa using hr
      rfl

theorem obeys_gatherRound (batch : List Event) :
    Obeys (roundProtocol id) (.assembling batch) (gatherRound id batch) fun l =>
      Sum.elim (fun batch => l = .assembling batch) fun batch => l = .assembling batch := by
  refine Obeys.bind (Obeys.act fun s there => ?_)
  rcases obeys_takeNext (.inr ⟨batch, rfl⟩) there with ⟨nothing, _⟩ | ⟨e, t, taken, forward⟩
  · rw [nothing]
    exact ⟨_, .inl ⟨rfl, rfl⟩, rfl⟩
  · rw [taken]
    exact ⟨_, .inr forward, rfl⟩

theorem obeys_gather (e : Event) :
    Obeys (roundProtocol id) (.assembling [e]) (Async.iterate (gatherRound id) [e])
      fun l batch => l = .assembling batch :=
  Obeys.iterate (fun l batch => l = .assembling batch)
    (fun _ batch h => by subst h; exact obeys_gatherRound batch) rfl

theorem handoffView_forwarded (batch : List Event) :
    handoffView id (callTransport id (.forwarded id batch) s).2 =
      { handoffView id s with forwarded := (handoffView id s).forwarded ++ [batch] } := by
  refine (handoffView_note id (.forwarded id batch) s).trans ?_
  simp [handoffView]

theorem handoffView_returned (batch : List Event) :
    handoffView id (note (.returned id batch) s).2 =
      { handoffView id s with returned := (handoffView id s).returned ++ [batch] } := by
  rw [handoffView_note]
  simp [handoffView]

theorem handoffView_countBatch (batch : List Event) (there : (handoffView id s).isThere) :
    handoffView id (countBatch id batch s).2 =
      { handoffView id s with
        pending := (handoffView id s).pending - batch.length
        counted := (handoffView id s).counted ++ [batch] } := by
  have counted : (countBatch id batch s).2 = (note (.counted id batch)
      (setHandoff id ((s.handoff id).subtract batch.length).2 s).2).2 := rfl
  rw [counted, handoffView_note, handoffView_setHandoff, if_pos ⟨rfl, there⟩]
  simp [handoffView, Handoff.subtract]

theorem handoffView_announceSettled :
    handoffView id (announceSettled id s).2 = handoffView id s :=
  handoffView_setHandoff_same rfl rfl rfl rfl

theorem handoffView_closeChannel (there : (handoffView id s).isThere) :
    handoffView id (closeChannel id s).2 = (handoffView id s).shut := by
  have closed : (closeChannel id s).2 =
      (note (.closed id) (setHandoff id (s.handoff id).closeChannel s).2).2 := rfl
  rw [closed, handoffView_note_closed, handoffView_setHandoff, if_pos ⟨rfl, there⟩]
  rfl

theorem keeps_comeBack (r : Except Error Unit) : Keeps (handoffFrame id) (comeBack id r) := by
  unfold comeBack
  split
  · exact Confined.bind (Keeps.act fun s _ => handoffView_setHandoff_same rfl rfl rfl rfl) fun _ =>
      Keeps.await (fun _ _ => rfl) fun _ _ => rfl
  · exact Confined.pure _

theorem obeys_settleBatch (batch : List Event) :
    Obeys (roundProtocol id) (.counting batch) (settleBatch id batch) fun l _ => l = .ready := by
  refine Obeys.bind (Obeys.act fun s there => ⟨.ready, .inr ?_, ?_⟩)
  · exact handoffView_countBatch batch there ▸ .count
  · split
    · exact Obeys.act fun s _ => ⟨.ready, .inl ⟨rfl, handoffView_announceSettled⟩, rfl⟩
    · exact rfl

theorem obeys_forwardRound :
    Obeys (roundProtocol id) .ready (forwardRound id) fun l =>
      Sum.elim (fun _ => l = .ready) fun _ => l = .leaving := by
  refine Obeys.bind (obeys_receive.mono fun l r h => ?_)
  subst h
  cases r with
  | none => exact rfl
  | some e =>
    refine Obeys.bind ((obeys_gather e).mono fun l batch h => ?_)
    subst h
    refine Obeys.bind (Obeys.act fun s there => ⟨.calling batch, .inr ?_, ?_⟩)
    · exact handoffView_forwarded batch ▸ .call
    refine Obeys.keeps_bind (handoffFrame_allows.handle _ batch fun _ _ => trivial) trivial
      fun r => ?_
    refine Obeys.keeps_bind (keeps_comeBack r) trivial fun _ => ?_
    refine Obeys.bind (Obeys.act fun s there => ⟨.counting batch, .inr ?_, ?_⟩)
    · exact handoffView_returned batch ▸ .back
    refine Obeys.bind ((obeys_settleBatch batch).mono fun l _ h => ?_)
    subst h
    exact rfl

theorem obeys_rounds :
    Obeys (roundProtocol id) .ready (Async.iterate (fun () => forwardRound id) ())
      fun l _ => l = .leaving :=
  Obeys.iterate (fun l _ => l = .ready) (fun _ _ h => by subst h; exact obeys_forwardRound) rfl

theorem obeys_forwards :
    Obeys (forwardProtocol id) .ready (forwards id) fun l _ => l = .away := by
  have rounds : Obeys (forwardProtocol id) .ready
      (Async.iterate (fun () => forwardRound id) ()) fun l _ => l = .leaving :=
    obeys_rounds.widen (fun there => there) (fun same => same) (fun rests => rests) .inl
  refine Obeys.ensuring (rounds.mono fun l _ h s there => ⟨.away, .inr ?_, rfl⟩)
  exact ⟨h, rfl, handoffView_closeChannel there⟩

theorem handoffView_put (h : Handoff) (e : Event) (there : (handoffView id s).isThere) :
    handoffView id (note (.sent id e) (setHandoff id h s).2).2 =
      { handoffView id s with
        channel := h.channel
        isOpen := h.isOpen
        isClosed := h.isClosed
        pending := h.pending
        sent := (handoffView id s).sent ++ [e] } := by
  rw [handoffView_note, handoffView_setHandoff, if_pos ⟨rfl, there⟩]
  simp [handoffView]

theorem handoffView_spawned (id : HandoffId) (live : s.hasRuntime = true) :
    handoffView id (spawn? (.forwards id) s).2 =
      { handoffView id s with waiting := (handoffView id s).waiting + 1 } := by
  have stock := spawn?_live (.forwards id) live
  have view : handoffView id (spawn? (.forwards id) s).2 = handoffView id
      { s with jobs := s.jobs ++ [(s.nextTask, .forwards id)] } := handoffView_of_stock id stock
  rw [view, handoffView_jobs, List.countP_append]
  simp [handoffView, Job.isForwarding]

theorem handed_send (e : Event) (there : (handoffView id s).isThere)
    (usable : (handoffView id s).isClosed = false) :
    Handed (handoffView id s) (handoffView id (send id e s).2) := by
  cases opened : (s.handoff id).isOpen with
  | true =>
    rw [handoffView_of_stock id (stock_of_setup (send_open e opened)), handoffView_put _ e there]
    exact .send opened usable
  | false =>
    cases live : s.hasRuntime with
    | true =>
      have begun := handoffView_spawned id live
      have there' : (handoffView id (spawn? (.forwards id) s).2).isThere := by
        rw [begun]
        exact there
      rw [handoffView_of_stock id (stock_of_setup (send_start e opened live)),
        handoffView_put _ e there', begun]
      exact .start opened
    | false =>
      rw [send_refused e opened live]
      exact .nothing

-- At most one task forwards, and the accounts fit where it stands.
def Accounted (id : HandoffId) (s : Session) (roles : List ForwardRole) : Prop :=
  (handoffView id s).isThere ∧ ∃ l, Sole ForwardRole.isForwarding roles l ∧
    (handoffView id s).Staffed l ∧ (handoffView id s).Accounts l

namespace Accounted

variable {roles : List ForwardRole} {i : Nat} {l l' : ForwardRole}

theorem handed (h : Accounted id s roles) (change : Handed (handoffView id s) (handoffView id t)) :
    Accounted id t roles := by
  obtain ⟨there, l, sole, staffed, accounts⟩ := h
  exact ⟨change.isThere ▸ there, l, sole, staffed.handed change, accounts.handed staffed change⟩

theorem move (h : Accounted id s roles) (here : roles[i]? = some l)
    (move : (forwardProtocol id).moves l s l' t) : Accounted id t (roles.set i l') := by
  rcases move with (⟨rfl, same⟩ | forward) | ⟨rfl, rfl, shut⟩
  · rw [Sole.set_same here]
    exact h.handed (same ▸ .nothing)
  · obtain ⟨there, l₀, sole, staffed, accounts⟩ := h
    obtain rfl := sole.eq_of_busy here forward.isForwarding
    exact ⟨forward.isThere ▸ there, l', sole.change forward.isForwarding here,
      staffed.forward forward, accounts.forward forward⟩
  · obtain ⟨there, l₀, sole, staffed, accounts⟩ := h
    obtain rfl := sole.eq_of_busy here rfl
    rw [Accounted, shut]
    exact ⟨there, .away, sole.change rfl here, staffed.shut rfl,
      accounts.shut (staffed.closed rfl).2⟩

theorem come (h : Accounted id s roles) (same : handoffView id t = handoffView id s) :
    Accounted id t (roles ++ [.away]) := by
  have unchanged : Handed (handoffView id s) (handoffView id t) := same ▸ .nothing
  obtain ⟨there, l, sole, staffed, accounts⟩ := h.handed unchanged
  exact ⟨there, l, sole.append rfl, staffed, accounts⟩

theorem begin (h : Accounted id s roles) {task : TaskId}
    (begun : s.begin? task = some (.forwards id, t)) : Accounted id t (roles ++ [.ready]) := by
  obtain ⟨there, l, sole, staffed, accounts⟩ := h
  have only : (handoffView id s).waiting ≤ 1 := by
    rw [staffed.waiting]
    split <;> omega
  obtain ⟨one, view⟩ := handoffView_begin begun only
  -- There is a task to begin only where the channel is open and nobody forwards.
  have vacant : (handoffView id s).isOpen = true ∧ l.isForwarding = false := by
    by_contra occupied
    simp [staffed.waiting] at one
    exact occupied one
  obtain rfl := ForwardRole.eq_away vacant.2
  refine ⟨?_, .ready, sole.append_take rfl, ?_, ?_⟩ <;> rw [view]
  · exact there
  · refine ⟨by simp [ForwardRole.isForwarding], fun _ => vacant.1, nofun, staffed.empty⟩
  · exact ⟨accounts.received, accounts.sent, accounts.returned, accounts.counted, accounts.pending⟩

end Accounted

def forwardDiscipline {E : Setting Session Answer}
    (comes : ∀ {s a t}, E.comes s a t →
      (∃ task, s.begin? task = some (.forwards id, t) ∧ a = Job.task (.forwards id)) ∨
        handoffView id t = handoffView id s ∧ Obeys (forwardProtocol id) .away a fun _ _ => True)
    (outside : ∀ {s t}, (handoffView id s).isThere → E.outside s t →
      Handed (handoffView id s) (handoffView id t)) :
    Discipline E (forwardProtocol id) (fun _ _ => True) fun _ => True where
  holds := Accounted id
  always h := h.1
  moves _ _ h here move := h.move here move
  comes _ _ h coming := by
    rcases comes coming with ⟨task, begun, rfl⟩ | ⟨same, obeys⟩
    · exact ⟨.ready, obeys_forwards.mono fun _ _ _ => trivial, h.begin begun⟩
    · exact ⟨.away, obeys, h.come same⟩
  outside _ _ h change := h.handed (outside h.1 change)

inductive HandoffChange (id : HandoffId) : Session → Session → Prop
  | send {s : Session} (e : Event) (usable : (s.handoff id).isClosed = false) :
      HandoffChange id s (send id e s).2
  -- All who send are gone.
  | close {s : Session} :
      HandoffChange id s
        (setHandoff id { s.handoff id with isClosed := true, receiver := none } s).2
  | other {s t : Session} (same : handoffView id t = handoffView id s) : HandoffChange id s t

theorem HandoffChange.handed (there : (handoffView id s).isThere) (change : HandoffChange id s t) :
    Handed (handoffView id s) (handoffView id t) := by
  cases change with
  | send e usable => exact handed_send e there usable
  | close =>
    rw [handoffView_setHandoff, if_pos ⟨rfl, there⟩]
    exact .close
  | other same => exact same ▸ .nothing

-- The forwarding tasks of a hand-off, as they are started, and any number of senders.
def handoffSetting (id : HandoffId) : Setting Session Answer where
  comes s a t := ∃ task, s.begin? task = some (.forwards id, t) ∧ a = Job.task (.forwards id)
  outside := HandoffChange id

structure NewHandoff (id : HandoffId) (s : Session) : Prop where
  isThere : id < s.handoffs.size
  isOpen : (s.handoff id).isOpen = false
  empty : (s.handoff id).channel = []
  settled : (s.handoff id).pending = 0
  nothingSent : s.ledger.sent id = []
  nothingReceived : s.ledger.received id = []
  nothingForwarded : s.ledger.forwarded id = []
  nothingReturned : s.ledger.returned id = []
  nothingCounted : s.ledger.counted id = []
  nobody : ∀ j ∈ s.jobs, Job.isForwarding id j.2 = false

theorem NewHandoff.accounted (new : NewHandoff id s) : Accounted id s [] := by
  refine ⟨new.isThere, .away, rfl, ⟨?_, nofun, nofun, fun _ => new.empty⟩, ?_⟩
  · have none : s.jobs.countP (fun j => Job.isForwarding id j.2) = 0 :=
      List.countP_eq_zero.2 fun j hj => by simp [new.nobody j hj]
    simp [handoffView, none, new.isOpen]
  · constructor <;>
      simp [handoffView, ForwardRole.inHand, ForwardRole.underWay, ForwardRole.uncounted, new.empty,
        new.settled, new.nothingSent, new.nothingReceived, new.nothingForwarded,
        new.nothingReturned, new.nothingCounted]

def assembling (id : HandoffId) (s : Session) : List Event :=
  (s.ledger.received id).drop (s.ledger.forwarded id).flatten.length

def uncounted (id : HandoffId) (s : Session) : List (List Event) :=
  (s.ledger.forwarded id).drop (s.ledger.counted id).length

structure Exact (id : HandoffId) (s : Session) : Prop where
  -- Nothing is lost, doubled or out of order.
  order : (s.ledger.forwarded id).flatten ++ assembling id s ++ (s.handoff id).channel =
    s.ledger.sent id
  -- Calls come back in order, and at most one is under way.
  calls : s.ledger.returned id <+: s.ledger.forwarded id
  oneCall : (s.ledger.forwarded id).length ≤ (s.ledger.returned id).length + 1
  pending : (s.handoff id).pending =
    (s.handoff id).channel.length + (assembling id s).length + (uncounted id s).flatten.length
  -- What is pending and what was counted are what was sent, so nothing is subtracted twice.
  total : (s.handoff id).pending + (s.ledger.counted id).flatten.length =
    (s.ledger.sent id).length
  settled : (s.handoff id).pending = 0 → (s.ledger.returned id).flatten = s.ledger.sent id

namespace Exact

theorem front (exact : Exact id s) : (s.ledger.forwarded id).flatten <+: s.ledger.sent id := by
  rw [← exact.order, List.append_assoc]
  exact List.prefix_append _ _

theorem forwarded_of_settled (exact : Exact id s) (nothing : (s.handoff id).pending = 0) :
    (s.ledger.forwarded id).flatten = s.ledger.sent id := by
  have called : (s.ledger.returned id).flatten.length ≤ (s.ledger.forwarded id).flatten.length :=
    (List.IsPrefix.flatten exact.calls).length_le
  rw [exact.settled nothing] at called
  exact exact.front.eq_of_length_le called

end Exact

theorem Accounted.exact {roles : List ForwardRole} (h : Accounted id s roles) : Exact id s := by
  obtain ⟨_, l, _, _, received, sent, returned, counted, pending⟩ := h
  simp only [handoffView] at received sent returned counted pending
  -- What the record says of the batches is what the role has of them.
  have hand : assembling id s = l.inHand := by rw [assembling, ← received, List.drop_left]
  have rest : uncounted id s = l.uncounted := by rw [uncounted, ← counted, List.drop_left]
  have short : l.underWay.length ≤ 1 ∧ l.underWay.flatten.length ≤ l.uncounted.flatten.length := by
    cases l <;> simp [ForwardRole.underWay, ForwardRole.uncounted]
  have total := congrArg List.length (congrArg List.flatten counted)
  rw [List.flatten_append, List.length_append] at total
  have events := congrArg List.length sent
  rw [← received, List.length_append, List.length_append] at events
  constructor
  · rw [hand, received, sent]
  · exact ⟨_, returned⟩
  · rw [← returned, List.length_append]
    omega
  · rw [hand, rest]
    exact pending
  · omega
  · intro none
    have back : l.underWay.flatten = [] := List.eq_nil_of_length_eq_zero (by omega)
    have channel : (s.handoff id).channel = [] := List.eq_nil_of_length_eq_zero (by omega)
    have inHand : l.inHand = [] := List.eq_nil_of_length_eq_zero (by omega)
    rw [← sent, ← received, ← returned, channel, inHand, List.flatten_append, back]
    simp

/-- A hand-off passes on what was sent, each event once and in this order, with one call of the
transport at a time, and knows at all times how many events are not through it. -/
theorem handoff_exact {tasks : List (Task Answer)} (new : NewHandoff id s)
    (run : Run (handoffSetting id) ⟨s, []⟩ ⟨t, tasks⟩) : Exact id t := by
  let D : Discipline (handoffSetting id) (forwardProtocol id) (fun _ _ => True) fun _ => True :=
    forwardDiscipline .inl fun there change => change.handed there
  obtain ⟨roles, _, accounted⟩ := D.run_alone (fun _ _ => trivial) new.accounted run
  exact Accounted.exact accounted

def sampleHandoff : Session where
  leaves := #[.scripted { name := "slow", script := { delay := 5 } }]
  handoffs := #[{ transport := .leaf 0 }]

def sampleEvent (id : String) : Event := ⟨"Sample", id, 0, {}, ∅⟩

theorem sampleHandoff_new : NewHandoff 0 sampleHandoff where
  isThere := Nat.one_pos
  isOpen := rfl
  empty := rfl
  settled := rfl
  nothingSent := rfl
  nothingReceived := rfl
  nothingForwarded := rfl
  nothingReturned := rfl
  nothingCounted := rfl
  nobody := nofun

def sampleUnderWay : Polled Session Answer × Session :=
  (Job.task (.forwards 0)).poll 100
    { (send 0 (sampleEvent "a") sampleHandoff).2 with jobs := [] }

def sampleLater (s : Session) : Session :=
  { s with scheduler := s.scheduler.advance?.getD s.scheduler }

def sampleForwarding : Session :=
  let sent := (send 0 (sampleEvent "a") sampleHandoff).2
  let begun := { sent with jobs := [] }
  let called := ((Job.task (.forwards 0)).poll 100 begun).2
  (send 0 (sampleEvent "c") (send 0 (sampleEvent "b") called).2).2

theorem handoff_exact_sample :
    Exact 0 sampleForwarding ∧ (sampleForwarding.handoff 0).pending = 3 ∧
      (sampleForwarding.ledger.forwarded 0).map (·.map Event.id) = [["a"]] := by
  have new : NewHandoff 0 sampleHandoff := by
    constructor <;> first | rfl | decide
  have nobody : Run (handoffSetting 0) ⟨sampleHandoff, []⟩ ⟨sampleHandoff, []⟩ := .refl
  have sent := nobody.tail (.outside (.send (sampleEvent "a") rfl))
  have begins : (handoffSetting 0).comes (send 0 (sampleEvent "a") sampleHandoff).2
      (Job.task (.forwards 0)) { (send 0 (sampleEvent "a") sampleHandoff).2 with jobs := [] } :=
    ⟨1, rfl, rfl⟩
  have called := sent.trans (Run.come_poll begins 100)
  have more := called.tail (.outside (.send (sampleEvent "b") rfl))
  have all := more.tail (.outside (.send (sampleEvent "c") rfl))
  exact ⟨handoff_exact new all, by decide, by decide⟩

end Session

end EventTracking
