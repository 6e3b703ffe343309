import EventTracking.Proofs.Async.Abandon
import EventTracking.Proofs.Handoff.Forwarding
import EventTracking.Proofs.Handoff.Tasks
import Mathlib.Data.List.Forall2

set_option autoImplicit false

namespace EventTracking

def Milestone.closes (id : HandoffId) : Milestone → Bool
  | .closed h => h == id
  | _ => false

namespace Ledger

variable {id : HandoffId} {l l' new : Ledger}

def sinceClosed (id : HandoffId) (l : Ledger) : Ledger := l.takeWhile fun m => !m.closes id

def untilClosed (id : HandoffId) (l : Ledger) : Ledger := l.dropWhile fun m => !m.closes id

def outstanding (id : HandoffId) (l : Ledger) : List Event :=
  (sent id (sinceClosed id l)).drop (counted id (sinceClosed id l)).flatten.length

-- The events that were outstanding when a channel closed.
def lost (id : HandoffId) : Ledger → List Event
  | [] => []
  | m :: l => lost id l ++ if m.closes id then outstanding id l else []

theorem drop_select {α : Type} (id : HandoffId) (f : Milestone → Option α) (l : Ledger) :
    (select f l).drop (select f (untilClosed id l)).length = select f (sinceClosed id l) := by
  have whole := select_append f (sinceClosed id l) (untilClosed id l)
  rw [sinceClosed, untilClosed, List.takeWhile_append_dropWhile] at whole
  rw [whole]
  exact List.drop_left

theorem lost_prefix (h : l <:+ l') : lost id l <+: lost id l' := by
  obtain ⟨new, rfl⟩ := h
  induction new with
  | nil => exact List.prefix_rfl
  | cons m new ih => exact ih.trans (List.prefix_append _ _)

section Unclosed

variable (unclosed : ∀ m ∈ new, m.closes id = false)
include unclosed

theorem untilClosed_append (l : Ledger) : untilClosed id (new ++ l) = untilClosed id l :=
  List.dropWhile_append_of_pos fun m hm => by simp [unclosed m hm]

theorem lost_append (l : Ledger) : lost id (new ++ l) = lost id l := by
  induction new with
  | nil => rfl
  | cons m new ih =>
    rw [List.cons_append, lost, unclosed m (by simp), ih fun m hm => unclosed m (by simp [hm])]
    simp

end Unclosed

theorem sinceClosed_closed (id : HandoffId) (l : Ledger) :
    sinceClosed id (.closed id :: l) = [] := by
  simp [sinceClosed, Milestone.closes]

theorem lost_closed (id : HandoffId) (l : Ledger) :
    lost id (.closed id :: l) = lost id l ++ outstanding id l := by
  simp [lost, Milestone.closes]

theorem lost_of_nothing (nothing : sent id l = []) : lost id l = [] := by
  induction l with
  | nil => rfl
  | cons m l ih =>
    have before : sent id l = [] :=
      List.prefix_nil.1 (nothing ▸ select_prefix _ (List.suffix_cons m l))
    have since : sent id (sinceClosed id l) = [] := by
      rw [sent, ← drop_select, show select _ l = [] from before]
      exact List.drop_nil
    simp [lost, ih before, outstanding, since]

end Ledger

namespace HandoffView

structure Closing where
  sent : Nat
  received : Nat
  forwarded : Nat
  returned : Nat
  counted : Nat
  lost : Nat

def since (v : HandoffView) (c : Closing) : HandoffView :=
  { v with
    pending := v.pending - c.lost
    sent := v.sent.drop c.sent
    received := v.received.drop c.received
    forwarded := v.forwarded.drop c.forwarded
    returned := v.returned.drop c.returned
    counted := v.counted.drop c.counted }

structure After (v : HandoffView) (c : Closing) : Prop where
  sent : c.sent ≤ v.sent.length
  received : c.received ≤ v.received.length
  forwarded : c.forwarded ≤ v.forwarded.length
  returned : c.returned ≤ v.returned.length
  counted : c.counted ≤ v.counted.length
  lost : c.lost ≤ v.pending

variable {v w : HandoffView} {c : Closing} {l l' : ForwardRole}

theorem Forward.since (move : Forward l v l' w) (after : v.After c) :
    Forward l (v.since c) l' (w.since c) := by
  cases move with
  | receive begun channel =>
    simp only [HandoffView.since, List.drop_append_of_le_length after.received]
    exact .receive begun channel
  | call =>
    simp only [HandoffView.since, List.drop_append_of_le_length after.forwarded]
    exact .call
  | back =>
    simp only [HandoffView.since, List.drop_append_of_le_length after.returned]
    exact .back
  | count =>
    simp only [HandoffView.since, List.drop_append_of_le_length after.counted, Nat.sub_right_comm]
    exact .count
  | leave closed empty => exact .leave closed empty

theorem Handed.since (change : Handed v w) (after : v.After c) :
    Handed (v.since c) (w.since c) := by
  cases change with
  | nothing => exact .nothing
  | send opened usable =>
    simp only [HandoffView.since, List.drop_append_of_le_length after.sent,
      Nat.sub_add_comm after.lost]
    exact .send opened usable
  | start shut =>
    simp only [HandoffView.since, List.drop_append_of_le_length after.sent,
      Nat.sub_add_comm after.lost]
    exact .start shut
  | close => exact .close

theorem Forward.lost_le (move : Forward l v l' w) (after : v.After c)
    (accounts : (v.since c).Accounts l) : c.lost ≤ w.pending := by
  have lost := after.lost
  cases move with
  | receive | call | back | leave => exact lost
  -- A batch that is counted was pending besides what is lost.
  | count =>
    have pending := accounts.pending
    simp [HandoffView.since, ForwardRole.uncounted] at pending ⊢
    omega

theorem Handed.lost_le (change : Handed v w) (after : v.After c) : c.lost ≤ w.pending :=
  after.lost.trans change.grows.2.2

end HandoffView

namespace Session

open Async Change Crowd HandoffView

variable {id : HandoffId} {s t u : Session}

def closing (id : HandoffId) (l : Ledger) : Closing :=
  let before := l.untilClosed id
  { sent := (before.sent id).length
    received := (before.received id).length
    forwarded := (before.forwarded id).length
    returned := (before.returned id).length
    counted := (before.counted id).length
    lost := (l.lost id).length }

def recent (id : HandoffId) (s : Session) : Session :=
  let h := s.handoff id
  { (setHandoff id { h with pending := h.pending - (s.ledger.lost id).length } s).2 with
    ledger := s.ledger.sinceClosed id }

theorem recent_view (there : id < s.handoffs.size) :
    handoffView id (recent id s) = (handoffView id s).since (closing id s.ledger) := by
  have size : (recent id s).handoffs.size = s.handoffs.size := Array.size_setIfInBounds
  have set : (recent id s).handoff id = { s.handoff id with
      pending := (s.handoff id).pending - (s.ledger.lost id).length } :=
    (handoff_setHandoff s id id _).trans (if_pos ⟨rfl, there⟩)
  simp only [handoffView, size, set, HandoffView.since, HandoffView.mk.injEq, true_and]
  refine ⟨rfl, ?_, ?_, ?_, ?_, ?_, rfl⟩ <;> exact (Ledger.drop_select id _ s.ledger).symm

theorem after_closing (lost : (s.ledger.lost id).length ≤ (s.handoff id).pending) :
    (handoffView id s).After (closing id s.ledger) := by
  have grown {α : Type} (f : Milestone → Option α) :
      (Ledger.select f (s.ledger.untilClosed id)).length ≤ (Ledger.select f s.ledger).length :=
    (Ledger.select_prefix f (List.dropWhile_suffix _)).length_le
  exact ⟨grown _, grown _, grown _, grown _, grown _, lost⟩

def unclosing (id : HandoffId) : Frame Session where
  always _ := True
  quiet s t := ∃ new : Ledger, t.ledger = new ++ s.ledger ∧ ∀ m ∈ new, m.closes id = false
  quiet_refl _ := ⟨[], rfl, nofun⟩
  quiet_trans := by
    rintro s t u ⟨new, first, unclosed⟩ ⟨new', second, unclosed'⟩
    refine ⟨new' ++ new, by rw [second, first, List.append_assoc], fun m hm => ?_⟩
    exact (List.mem_append.1 hm).elim (unclosed' m) (unclosed m)
  always_quiet _ _ := trivial

theorem unclosing_of_same (same : t.ledger = s.ledger) : (unclosing id).quiet s t :=
  ⟨[], same, nofun⟩

theorem unclosing_note {m : Milestone} (open_ : m.closes id = false) :
    (unclosing id).quiet s (note m s).2 :=
  ⟨[m], rfl, fun _ hm => List.mem_singleton.1 hm ▸ open_⟩

theorem unclosing_forwarding : AllowsForwarding (unclosing id) id fun _ => True where
  aside same := unclosing_of_same (congrArg (·.1.ledger) same)
  locks _ _ _ := unclosing_of_same rfl
  starts queue _ := unclosing_of_same (ensureRunning_beside queue _).2
  appends _ _ _ _ := ⟨[_], rfl, by simp [Milestone.closes]⟩
  sets _ _ := unclosing_of_same rfl
  receives _ _ := unclosing_note rfl
  counts _ _ := unclosing_note rfl

theorem abandons_rounds :
    Abandons (handoffFrame id) (Async.iterate (fun () => forwardRound id) ()) := by
  refine Confined.iterate (fun _ => forwardRound_composes Abandons.composes ?_ ?_ ?_ ?_ ?_ ?_ ?_) ()
  -- A task that is given up while it waits for an event only stops waiting.
  · exact fun s _ => ⟨trivial, handoffView_setHandoff_same rfl rfl rfl rfl, fun _ _ => trivial⟩
  · intro batch
    refine (Abandons.act _).bind fun e => ?_
    cases e <;> exact Confined.pure _
  · exact fun batch => Abandons.act _
  · exact fun t batch => (handoffFrame_allows.handle t batch fun _ _ => trivial).abandons
  · exact fun r => (keeps_comeBack r).abandons
  · exact fun batch => Abandons.act _
  · intro batch
    refine (Abandons.act _).bind fun nothing => ?_
    cases nothing with
    | true => exact Abandons.act _
    | false => exact Confined.pure _

structure Reckoning (id : HandoffId) (s : Session) (roles : List ForwardRole) : Prop where
  accounted : Accounted id (recent id s) roles
  lost_le : (s.ledger.lost id).length ≤ (s.handoff id).pending

namespace Reckoning

variable {roles : List ForwardRole} {i : Nat} {l l' : ForwardRole}

theorem isThere (h : Reckoning id s roles) : id < s.handoffs.size := by
  have there : id < (recent id s).handoffs.size := h.accounted.1
  rwa [show (recent id s).handoffs.size = s.handoffs.size from Array.size_setIfInBounds] at there

theorem since (h : Reckoning id s roles) (unclosed : (unclosing id).quiet s t)
    (there : id < t.handoffs.size) :
    handoffView id (recent id s) = (handoffView id s).since (closing id s.ledger) ∧
      handoffView id (recent id t) = (handoffView id t).since (closing id s.ledger) ∧
        t.ledger.lost id = s.ledger.lost id := by
  obtain ⟨new, ledger, unclosed⟩ := unclosed
  have lost : t.ledger.lost id = s.ledger.lost id := by rw [ledger, Ledger.lost_append unclosed]
  have same : closing id t.ledger = closing id s.ledger := by
    rw [closing, lost, ledger, Ledger.untilClosed_append unclosed]
    rfl
  exact ⟨recent_view h.isThere, same ▸ recent_view there, lost⟩

theorem handed (h : Reckoning id s roles) (unclosed : (unclosing id).quiet s t)
    (change : Handed (handoffView id s) (handoffView id t)) : Reckoning id t roles := by
  have after := after_closing h.lost_le
  have there : id < t.handoffs.size := change.isThere.symm.mp h.isThere
  obtain ⟨before, now, lost⟩ := h.since unclosed there
  have recently := change.since after
  rw [← before, ← now] at recently
  exact ⟨h.accounted.handed recently, lost ▸ change.lost_le after⟩

theorem move (h : Reckoning id s roles) (here : roles[i]? = some l)
    (unclosed : (unclosing id).quiet s t) (move : (roundProtocol id).moves l s l' t) :
    Reckoning id t (roles.set i l') := by
  rcases move with ⟨rfl, same⟩ | forward
  · rw [Sole.set_same here]
    exact h.handed unclosed (same ▸ .nothing)
  · have after := after_closing h.lost_le
    have there : id < t.handoffs.size := forward.isThere.symm.mp h.isThere
    obtain ⟨before, now, lost⟩ := h.since unclosed there
    have recently := forward.since after
    rw [← before, ← now] at recently
    obtain ⟨_, l₀, sole, _, accounts⟩ := h.accounted
    obtain rfl := sole.eq_of_busy here forward.isForwarding
    rw [before] at accounts
    exact ⟨h.accounted.move here (.inl (.inr recently)), lost ▸ forward.lost_le after accounts⟩

theorem begin (h : Reckoning id s roles) {task : TaskId}
    (begun : s.begin? task = some (.forwards id, t)) : Reckoning id t (roles ++ [.ready]) := by
  have recently : (recent id s).begin? task = some (.forwards id, recent id t) := by
    obtain ⟨⟨_, job⟩, found, rest⟩ := Option.map_eq_some_iff.1 begun
    obtain ⟨rfl, rfl⟩ := Prod.mk.inj rest
    exact Option.map_eq_some_iff.2 ⟨_, found, rfl⟩
  obtain ⟨_, rfl⟩ := begin?_eq_some begun
  exact ⟨h.accounted.begin recently, h.lost_le⟩

theorem lost_closeChannel (h : Reckoning id s roles) :
    ((closeChannel id s).2.ledger.lost id).length = (s.handoff id).pending := by
  have ledger : (closeChannel id s).2.ledger = .closed id :: s.ledger := rfl
  have recently : ((recent id s).handoff id).pending =
      (s.handoff id).pending - (s.ledger.lost id).length :=
    congrArg HandoffView.pending (recent_view h.isThere)
  have outstanding : (s.ledger.outstanding id).length =
      ((recent id s).ledger.sent id).length -
        ((recent id s).ledger.counted id).flatten.length := List.length_drop
  -- What was outstanding is what was pending, but for what had been lost before.
  have total := h.accounted.exact.total
  have enough := h.lost_le
  rw [ledger, Ledger.lost_closed, List.length_append]
  omega

theorem close (h : Reckoning id s roles) (here : roles[i]? = some l)
    (busy : l.isForwarding = true) : Reckoning id (closeChannel id s).2 (roles.set i .away) := by
  have lost := h.lost_closeChannel
  obtain ⟨_, l₀, sole, staffed, _⟩ := h.accounted
  obtain rfl := sole.eq_of_busy here busy
  have view : handoffView id (closeChannel id s).2 = (handoffView id s).shut :=
    handoffView_closeChannel h.isThere
  have there : id < (closeChannel id s).2.handoffs.size :=
    (congrArg HandoffView.isThere view).symm.mp h.isThere
  have pending : ((closeChannel id s).2.handoff id).pending = (s.handoff id).pending :=
    congrArg HandoffView.pending view
  have books : (recent id (closeChannel id s).2).ledger = [] :=
    Ledger.sinceClosed_closed id s.ledger
  -- The books begin anew, with nothing in the channel and nothing in hand.
  have now := recent_view there
  rw [view] at now
  have nothing : ((recent id (closeChannel id s).2).handoff id).pending = 0 := by
    have left := congrArg HandoffView.pending now
    change _ = (s.handoff id).pending - ((closeChannel id s).2.ledger.lost id).length at left
    rw [lost, Nat.sub_self] at left
    exact left
  have shut := staffed.shut busy
  rw [recent_view h.isThere] at shut
  refine ⟨⟨?_, .away, sole.change busy here, ?_, ?_⟩, by rw [lost, pending]⟩
  · rw [now]
    exact h.isThere
  · rw [now]
    exact ⟨shut.waiting, nofun, nofun, fun _ => rfl⟩
  · have channel : ((recent id (closeChannel id s).2).handoff id).channel = [] :=
      congrArg HandoffView.channel now
    constructor <;>
      simp [handoffView, books, nothing, channel, ForwardRole.inHand, ForwardRole.underWay,
        ForwardRole.uncounted] <;> rfl

end Reckoning

inductive Stands (id : HandoffId) : ForwardRole → Task Answer → Prop
  | forwards {l : ForwardRole} {a : Task Answer} (busy : l.isForwarding = true)
      (obeys : Obeys (roundProtocol id) l a fun l _ => l = .leaving)
      (keeps : Keeps (unclosing id) a) (abandons : Abandons (handoffFrame id) a) :
      Stands id l (Async.ensuring (leaving (closeChannel id)) a)
  | ended (a : Answer) : Stands id .away (.done a)
  | given : Stands id .away .never

inductive Served (id : HandoffId) : ForwardRole → Session → ForwardRole → Session → Prop
  | moves {l l' : ForwardRole} {s t : Session} (unclosed : (unclosing id).quiet s t)
      (move : (roundProtocol id).moves l s l' t) : Served id l s l' t
  | closes {l : ForwardRole} {s t : Session} (busy : l.isForwarding = true)
      (unclosed : (unclosing id).quiet s t) (same : handoffView id t = handoffView id s) :
      Served id l s .away (closeChannel id t).2

namespace Stands

variable {l : ForwardRole} {a a' : Task Answer}

theorem begins : Stands id .ready (Session.forwards id) :=
  .forwards rfl obeys_rounds
    (unclosing_forwarding.keeps_rounds (fun _ _ => unclosing_note rfl)
      (fun _ _ => unclosing_note rfl) fun _ _ _ => trivial)
    abandons_rounds

theorem step (stands : Stands id l a) (there : id < s.handoffs.size) (go : Async.Step a s a' t) :
    ∃ l', Stands id l' a' ∧ Served id l s l' t := by
  cases stands with
  | forwards busy obeys keeps abandons =>
    cases go with
    | inside step =>
      obtain ⟨l', move, obeys'⟩ := obeys.step there step
      obtain ⟨unclosed, keeps'⟩ := keeps.step trivial step
      refine ⟨l', .forwards ?_ obeys' keeps' (abandons.step there step).2, .moves unclosed move⟩
      rcases move with ⟨rfl, _⟩ | forward
      · exact busy
      · exact forward.goesOn
    | release => exact ⟨.away, .ended _, .closes busy (unclosing_of_same rfl) rfl⟩
  | ended => cases go
  -- What was given up waits for something that never happens.
  | given =>
    cases go with
    | ready _ _ now => cases now
    | early => exact ⟨.away, .given, .moves (unclosing_of_same rfl) (.inl ⟨rfl, rfl⟩)⟩

theorem abandon (stands : Stands id l a) (there : id < s.handoffs.size) :
    Served id l s .away (a.abandon s) := by
  cases stands with
  | forwards busy _ keeps abandons =>
    exact .closes busy (keeps.abandon trivial) (abandons.abandon there)
  | ended | given => exact .moves (unclosing_of_same rfl) (.inl ⟨rfl, rfl⟩)

end Stands

theorem Served.reckoning {roles : List ForwardRole} {i : Nat} {l l' : ForwardRole}
    (served : Served id l s l' t) (h : Reckoning id s roles) (here : roles[i]? = some l) :
    Reckoning id t (roles.set i l') := by
  cases served with
  | moves unclosed move => exact h.move here unclosed move
  | closes busy unclosed same => exact (h.handed unclosed (same ▸ .nothing)).close here busy

theorem Served.ledger {l l' : ForwardRole} (served : Served id l s l' t) :
    s.ledger <:+ t.ledger := by
  cases served with
  | moves unclosed =>
    obtain ⟨new, ledger, _⟩ := unclosed
    exact ⟨new, ledger.symm⟩
  | closes _ unclosed =>
    obtain ⟨new, ledger, _⟩ := unclosed
    exact ⟨.closed id :: new, congrArg (Milestone.closed id :: ·) ledger.symm⟩

-- The forwarding tasks of a hand-off, any of which may be lost, and any number of senders. Only
-- the end of a task closes the channel.
def losingSetting (id : HandoffId) : Setting Session Answer where
  comes := (handoffSetting id).comes
  outside s t := HandoffChange id s t ∧ (unclosing id).quiet s t

section Forall₂

variable {L A : Type*} {R : L → A → Prop} {roles : List L} {tasks : List A}

theorem forall₂_lookup (each : List.Forall₂ R roles tasks) {i : Nat} {a : A}
    (found : tasks[i]? = some a) : ∃ l, roles[i]? = some l ∧ R l a := by
  induction each generalizing i with
  | nil => simp at found
  | @cons l b roles tasks first _ ih =>
    cases i with
    | zero =>
      obtain rfl : b = a := by simpa using found
      exact ⟨l, rfl, first⟩
    | succ i => exact ih (by simpa using found)

theorem forall₂_set (each : List.Forall₂ R roles tasks) (i : Nat) {l : L} {a : A} (new : R l a) :
    List.Forall₂ R (roles.set i l) (tasks.set i a) := by
  induction each generalizing i with
  | nil => exact .nil
  | cons first rest ih =>
    cases i with
    | zero => exact .cons new rest
    | succ i => exact .cons first (ih i)

end Forall₂

structure Surveyed (id : HandoffId) (c : Crowd Session Answer) (roles : List ForwardRole) :
    Prop where
  stands : List.Forall₂ (Stands id) roles c.tasks
  reckoning : Reckoning id c.state roles

theorem Surveyed.turn {c c' : Crowd Session Answer} {roles : List ForwardRole}
    (surveyed : Surveyed id c roles) (turn : Turn (losingSetting id) c c') :
    (∃ roles', Surveyed id c' roles') ∧ c.state.ledger <:+ c'.state.ledger := by
  obtain ⟨each, reckoning⟩ := surveyed
  cases turn with
  | move move =>
    cases move with
    | @step s t tasks i a a' found go =>
      obtain ⟨l, here, stands⟩ := forall₂_lookup each found
      obtain ⟨l', stands', served⟩ := stands.step reckoning.isThere go
      exact ⟨⟨_, forall₂_set each i stands', served.reckoning reckoning here⟩, served.ledger⟩
    | @come s t tasks a comes =>
      obtain ⟨task, begun, rfl⟩ := comes
      have begins := reckoning.begin begun
      obtain ⟨_, rfl⟩ := begin?_eq_some begun
      exact ⟨⟨_, List.rel_append each (.cons .begins .nil), begins⟩, List.suffix_rfl⟩
    | outside changes =>
      obtain ⟨change, unclosed⟩ := changes
      have handed := reckoning.handed unclosed (change.handed reckoning.isThere)
      obtain ⟨new, ledger, _⟩ := unclosed
      exact ⟨⟨roles, each, handed⟩, new, ledger.symm⟩
  | @giveUp s tasks i a found =>
    obtain ⟨l, here, stands⟩ := forall₂_lookup each found
    have served := stands.abandon reckoning.isThere
    exact ⟨⟨_, forall₂_set each i .given, served.reckoning reckoning here⟩, served.ledger⟩

theorem Surveyed.course {c c' : Crowd Session Answer} {roles : List ForwardRole}
    (surveyed : Surveyed id c roles) (course : Course (losingSetting id) c c') :
    (∃ roles', Surveyed id c' roles') ∧ c.state.ledger <:+ c'.state.ledger := by
  induction course with
  | refl => exact ⟨⟨roles, surveyed⟩, List.suffix_rfl⟩
  | tail _ turn ih =>
    obtain ⟨⟨roles', surveyed'⟩, ledger⟩ := ih
    obtain ⟨later, more⟩ := surveyed'.turn turn
    exact ⟨later, ledger.trans more⟩

theorem NewHandoff.reckoning (new : NewHandoff id s) : Reckoning id s [] := by
  have lost : s.ledger.lost id = [] := Ledger.lost_of_nothing new.nothingSent
  have same : handoffView id (recent id s) = handoffView id s := by
    rw [recent_view new.isThere]
    simp [HandoffView.since, handoffView, closing, lost, new.nothingSent, new.nothingReceived,
      new.nothingForwarded, new.nothingReturned, new.nothingCounted]
  refine ⟨?_, by simp [lost]⟩
  rw [Accounted, same]
  exact new.accounted

def inHands (id : HandoffId) (s : Session) : List Event :=
  let recently := s.ledger.sinceClosed id
  (recently.received id).drop (recently.counted id).flatten.length

structure Reckoned (id : HandoffId) (s : Session) : Prop where
  -- What went into the channel that is open comes out in order.
  order : ((s.ledger.sinceClosed id).counted id).flatten ++ inHands id s ++
    (s.handoff id).channel = (s.ledger.sinceClosed id).sent id
  nobody : (s.handoff id).isOpen = false → inHands id s = [] ∧ (s.handoff id).channel = []
  pending : (s.handoff id).pending =
    (s.handoff id).channel.length + (inHands id s).length + (s.ledger.lost id).length

theorem Reckoning.reckoned {roles : List ForwardRole} (h : Reckoning id s roles) :
    Reckoned id s := by
  obtain ⟨_, l, _, staffed, received, sent, _, counted, pending⟩ := h.accounted
  have view := recent_view h.isThere
  have channel : ((recent id s).handoff id).channel = (s.handoff id).channel :=
    congrArg HandoffView.channel view
  have isOpen : ((recent id s).handoff id).isOpen = (s.handoff id).isOpen :=
    congrArg HandoffView.isOpen view
  have left : ((recent id s).handoff id).pending =
      (s.handoff id).pending - (s.ledger.lost id).length := congrArg HandoffView.pending view
  have books : (recent id s).ledger = s.ledger.sinceClosed id := rfl
  simp only [handoffView, books, channel, left] at received sent counted pending
  have hands : inHands id s = l.uncounted.flatten ++ l.inHand := by
    rw [inHands, ← received, ← counted, List.flatten_append, List.append_assoc, List.drop_left]
  constructor
  · rw [hands, ← List.append_assoc, ← List.flatten_append, counted, received]
    exact sent
  · intro shut
    have shut' : (handoffView id (recent id s)).isOpen = false := isOpen.trans shut
    have idle : l.isForwarding = false := by
      by_contra busy
      simp [staffed.isOpen (by simpa using busy)] at shut'
    rw [hands, ForwardRole.eq_away idle, ← channel]
    exact ⟨rfl, staffed.empty shut'⟩
  · have enough := h.lost_le
    rw [hands, List.length_append]
    omega

/-- What is pending is in the open channel, in the hands of the task that forwards, or lost. And
what is lost stays pending: events are waited for that nobody has. -/
theorem loss_accounted {c : Crowd Session Answer} (new : NewHandoff id s)
    (course : Course (losingSetting id) ⟨s, []⟩ c) :
    Reckoned id c.state ∧ ∀ c', Course (losingSetting id) c c' →
      c.state.ledger.lost id <+: c'.state.ledger.lost id ∧
        (c.state.ledger.lost id).length ≤ (c'.state.handoff id).pending := by
  have none : Surveyed id ⟨s, []⟩ [] := ⟨.nil, new.reckoning⟩
  obtain ⟨⟨roles, surveyed⟩, _⟩ := none.course course
  refine ⟨surveyed.reckoning.reckoned, fun c' later => ?_⟩
  obtain ⟨⟨roles', surveyed'⟩, grown⟩ := surveyed.course later
  have lost : c.state.ledger.lost id <+: c'.state.ledger.lost id := Ledger.lost_prefix grown
  exact ⟨lost, lost.length_le.trans surveyed'.reckoning.lost_le⟩

def sampleCut : Crowd Session Answer :=
  Crowd.giveUp ⟨sampleUnderWay.2, [sampleUnderWay.1.rest]⟩ 0

def sampleResumed : Crowd Session Answer :=
  let begun := { (send 0 (sampleEvent "b") sampleCut.state).2 with jobs := [] }
  let called := Crowd.enter ⟨begun, sampleCut.tasks⟩ 100 (Job.task (.forwards 0))
  (called.change sampleLater).poll 100 1

theorem loss_accounted_sample :
    (sampleResumed.state.handoff 0).channel = [] ∧ inHands 0 sampleResumed.state = [] ∧
      ∀ c', Course (losingSetting 0) sampleResumed c' → 0 < (c'.state.handoff 0).pending := by
  have sends {s : Session} (e : Event) (usable : (s.handoff 0).isClosed = false)
      (unclosed : (unclosing 0).quiet s (send 0 e s).2) (tasks : List (Task Answer)) :
      Turn (losingSetting 0) ⟨s, tasks⟩ ⟨(send 0 e s).2, tasks⟩ :=
    .move (.outside ⟨.send e usable, unclosed⟩)
  have begins {s : Session} (task : TaskId)
      (begun : s.begin? task = some (.forwards 0, { s with jobs := [] })) :
      (losingSetting 0).comes s (Job.task (.forwards 0)) { s with jobs := [] } := ⟨task, begun, rfl⟩
  have nobody : Course (losingSetting 0) ⟨sampleHandoff, []⟩ ⟨sampleHandoff, []⟩ := .refl
  have sent := nobody.tail (sends (sampleEvent "a") rfl ⟨[_], rfl, by simp [Milestone.closes]⟩ [])
  have called : Course (losingSetting 0) ⟨sampleHandoff, []⟩
      ⟨sampleUnderWay.2, [sampleUnderWay.1.rest]⟩ :=
    sent.trans (Run.course (Run.come_poll (begins 1 rfl) 100))
  have cut : Course (losingSetting 0) ⟨sampleHandoff, []⟩ sampleCut := called.giveUp 0
  have more := cut.tail
    (sends (sampleEvent "b") rfl ⟨[_], rfl, by simp [Milestone.closes]⟩ sampleCut.tasks)
  have again := more.trans (Run.course (Run.come_poll (begins 2 rfl) 100))
  have later := Course.change (f := sampleLater) again ⟨.other rfl, [], rfl, nofun⟩
  have restarted : Course (losingSetting 0) ⟨sampleHandoff, []⟩ sampleResumed :=
    later.poll 100 1
  refine ⟨rfl, rfl, fun c' course => ?_⟩
  have lost : 0 < (sampleResumed.state.ledger.lost 0).length := by decide
  exact Nat.lt_of_lt_of_le lost ((loss_accounted sampleHandoff_new restarted).2 c' course).2

end Session

end EventTracking
