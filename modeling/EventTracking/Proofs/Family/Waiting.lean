import EventTracking.Proofs.Family.Flow
import Mathlib.Data.List.Infix
import Mathlib.Data.List.Nodup

set_option autoImplicit false

namespace EventTracking

def InOneBatch (batches : List (List Event)) (e : Event) : Prop :=
  ∃ before batch after, batches = before ++ batch :: after ∧
    e ∈ batch ∧ e ∉ before.flatten ∧ e ∉ after.flatten

theorem InOneBatch.of_distinct {batches : List (List Event)} {e : Event}
    (distinct : (batches.flatten.map Event.id).Nodup) (mem : e ∈ batches.flatten) :
    InOneBatch batches e := by
  obtain ⟨batch, listed, inside⟩ := List.mem_flatten.1 mem
  obtain ⟨before, after, rfl⟩ := List.append_of_mem listed
  have apart : (before.flatten ++ (batch ++ after.flatten)).Nodup := by
    simpa using List.Nodup.of_map Event.id distinct
  rw [List.nodup_append, List.nodup_append] at apart
  obtain ⟨_, ⟨_, _, behind⟩, ahead⟩ := apart
  refine ⟨before, batch, after, rfl, inside, fun early => ?_, fun late => ?_⟩
  · exact ahead e early e (List.mem_append_left _ inside) rfl
  · exact behind e inside e late rfl

inductive WaitRole where
  | other
  | asking
  -- Nothing was pending in the hand-off.
  | through
  -- After that, nothing was left in the store.
  | emptied

def WaitRole.goal : Option Depot → WaitRole
  | none => .through
  | some _ => .emptied

namespace Session

open Async Change Crowd

variable {h : HandoffId} {d : Depot} {depot : Option Depot} {s t : Session}

inductive WaitMove (h : HandoffId) (depot : Option Depot) :
    WaitRole → Session → WaitRole → Session → Prop
  | quiet {l : WaitRole} {s t : Session} (overlooked : Overlooked h depot (fun _ => ()) s t) :
      WaitMove h depot l s l t
  | settles {s t : Session} (nothing : (s.handoff h).pending = 0)
      (overlooked : Overlooked h depot (fun _ => ()) s t) : WaitMove h depot .asking s .through t
  | empties {s : Session} (nothing : ∀ d ∈ depot, (s.store d.store).events = []) :
      WaitMove h depot .through s .emptied s

def waitProtocol (h : HandoffId) (depot : Option Depot) : Protocol Session WaitRole where
  toFrame := familyFrame h depot fun _ => ()
  moves := WaitMove h depot
  rests _ := True
  moves_quiet _ _ _ _ quiet := .quiet quiet

theorem wait_delivery : AllowsDelivery (waitProtocol h depot).toFrame fun _ => True :=
  familyFrame.delivery fun _ _ _ _ => rfl

theorem wait_tracking : AllowsTracking (waitProtocol h depot).toFrame h fun _ => True :=
  familyFrame.tracking (familyFrame.forwarding wait_delivery (fun _ _ => rfl) fun _ _ => rfl)
    (fun _ _ => rfl) fun _ _ => rfl

theorem wait_draining (mine : d ∈ depot) :
    AllowsDraining (waitProtocol h depot).toFrame d.queue fun _ => True :=
  familyFrame.draining wait_delivery mine (fun _ _ => trivial) (fun _ _ => rfl) fun _ _ _ => rfl

theorem wait_serves : Serves (waitProtocol h depot) .other h depot :=
  .bystander trivial wait_tracking.settling fun _ mine => wait_draining mine

theorem wait_forwards :
    Obeys (waitProtocol h depot) .other (forwards h) fun l _ => l = .other :=
  wait_tracking.forwards trivial (fun _ _ => .of_noted (.note _ _) rfl rfl)
    (fun _ _ => .of_noted (.note _ _) rfl rfl) (fun _ => .of_noted (.note _ _) rfl rfl)
    fun _ _ _ => trivial

theorem wait_drains (mine : d ∈ depot) :
    Drains (waitProtocol h depot)
      ⟨.through, .through, fun _ => .through, fun _ => .through, .emptied, .emptied⟩ d.queue
      fun _ => True := by
  refine (wait_draining mine).drains trivial fun {s₀ s} all₀ all seen => .empties fun d' mine' => ?_
  obtain rfl : d = d' := Option.some.inj (mine.symm.trans mine')
  rw [(all₀ d mine).store_eq] at seen
  have size := (all₀ d mine).batchSize_pos
  -- A batch that is read is empty only if the store is, as it has room for an event.
  rcases seen with empty | none
  · exact empty
  · simp only [Store.window, List.drop_zero, List.take_eq_nil_iff] at none
    rcases none with zero | empty
    · omega
    · exact empty

namespace WaitCall

def isBinding (depot : Option Depot) : WaitCall → Bool
  | flush _ => depot.isSome
  | wait _ _ => true

end WaitCall

theorem wait_sees {s t : Session} (nothing : (s.handoff h).pending = 0)
    (quiet : (waitProtocol h depot).quiet s t) :
    (waitProtocol h depot).moves .asking s .through t := .settles nothing quiet

theorem obeys_flushTracker {t : SessionTracker} (mine : IsOf h (some d) t) :
    Obeys (waitProtocol h (some d)) .asking (flushTracker t) fun l r =>
      r.isOk = true → l = .emptied := by
  unfold flushTracker
  rw [mine.queue_eq, mine.handoff_eq]
  have settles := wait_tracking.settling.obeys_settled (P := waitProtocol h (some d)) (m := pure ())
    (Q := fun l _ => l = .through) trivial
    fun _ nothing quiet => ⟨.through, wait_sees nothing quiet, rfl⟩
  refine Obeys.bind (settles.mono fun l _ through => ?_)
  subst through
  refine (wait_drains rfl).flush.mono fun l r reached success => ?_
  cases r with
  | ok => exact reached
  | error => cases success

theorem obeys_waitForTracker {t : SessionTracker} (mine : IsOf h depot t) (timeout : Nat) :
    Obeys (waitProtocol h depot) .asking (waitForTracker t timeout) fun l inTime =>
      inTime = true → l = .goal depot := by
  unfold waitForTracker
  rw [mine.queue_eq, mine.handoff_eq]
  refine Obeys.keeps_bind (Keeps.get _) trivial fun started => ?_
  have settles := wait_tracking.settling.obeys_settledWithin (P := waitProtocol h depot) trivial
    (fun _ nothing quiet => wait_sees nothing quiet) timeout
  refine Obeys.bind (settles.mono fun l inTime through => ?_)
  cases inTime with
  | false => exact fun success => absurd success Bool.false_ne_true
  | true =>
    obtain rfl := through rfl
    cases depot with
    | none => exact fun _ => rfl
    | some d =>
      refine Obeys.keeps_bind (Keeps.get _) trivial fun now => ?_
      refine ((wait_drains rfl).waitUntilIdle _).mono fun l b reached success => ?_
      subst success
      exact reached

theorem obeys_call {c : WaitCall} (mine : IsOf h depot c.tracker)
    (binding : c.isBinding depot = true) :
    Obeys (waitProtocol h depot) .asking c.task fun l a =>
      a.isSuccess = true → l = .goal depot := by
  cases c with
  | flush t =>
    cases depot with
    | none => cases binding
    | some d =>
      refine Obeys.bind ((obeys_flushTracker mine).mono fun l r reached success => ?_)
      cases r with
      | ok => exact reached rfl
      | error => cases success
  | wait t timeout =>
    exact Obeys.bind ((obeys_waitForTracker mine timeout).mono fun l b reached => reached)

def Seen (h : HandoffId) (depot : Option Depot) (before : List Event) : WaitRole → Session → Prop
  | .other, _ => False
  | .asking, s => before <+: s.ledger.sent h
  | .through, s => before <+: (s.ledger.returned h).flatten
  | .emptied, s => ∀ d ∈ depot, ((s.ledger.sent h).map Event.id).Nodup →
      before <+: (s.ledger.accepted d.queue).flatten

structure Flows (h : HandoffId) (depot : Option Depot) (s : Session) : Prop where
  exact : Exact h s
  stocked : ∀ d ∈ depot, Stocked h d s

theorem family_flows {c : Crowd Session Answer} (new : NewFamily h depot s)
    (run : Run (familySetting h depot) ⟨s, []⟩ c) : Flows h depot c.state :=
  ⟨family_exact new run, fun _ mine => family_stocked new run mine⟩

namespace Seen

variable {before : List Event} {l l' : WaitRole}

theorem mono (seen : Seen h depot before l s) (grown : s.ledger <:+ t.ledger) :
    Seen h depot before l t := by
  have sent : s.ledger.sent h <+: t.ledger.sent h := Ledger.select_prefix _ grown
  cases l with
  | other => exact seen
  | asking => exact List.IsPrefix.trans seen sent
  | through =>
    have returned : s.ledger.returned h <+: t.ledger.returned h := Ledger.select_prefix _ grown
    exact List.IsPrefix.trans seen returned.flatten
  | emptied =>
    intro d mine distinct
    have accepted : s.ledger.accepted d.queue <+: t.ledger.accepted d.queue :=
      Ledger.select_prefix _ grown
    exact (seen d mine (distinct.sublist (sent.sublist.map _))).trans accepted.flatten

theorem move (seen : Seen h depot before l s) (flows : Flows h depot s)
    (move : WaitMove h depot l s l' t) : Seen h depot before l' t := by
  cases move with
  | quiet overlooked => exact seen.mono overlooked.ledger
  | settles nothing overlooked =>
    -- With nothing pending, all that was sent is back.
    have through : Seen h depot before .through s := by
      have all := flows.exact.settled nothing
      change before <+: (s.ledger.returned h).flatten
      rw [all]
      exact seen
    exact through.mono overlooked.ledger
  | empties nothing =>
    intro d mine distinct
    have stocked := flows.stocked d mine
    -- What came back from the hand-off was in the store, and by now it was accepted.
    rw [stocked.drained distinct (nothing d mine)]
    exact List.IsPrefix.trans seen stocked.returned

end Seen

theorem WaitMove.overlooked {l l' : WaitRole} (move : WaitMove h depot l s l' t) :
    Overlooked h depot (fun _ => ()) s t := by
  cases move with
  | quiet overlooked => exact overlooked
  | settles _ overlooked => exact overlooked
  | empties => exact .of_same (.refl s) rfl

structure Watched (h : HandoffId) (depot : Option Depot) (before : List Event) (i : Option Nat)
    (s : Session) (roles : List WaitRole) : Prop where
  connected : ∀ d ∈ depot, Connected h d s
  seen : ∀ j ∈ i, ∃ l, roles[j]? = some l ∧ Seen h depot before l s

namespace Watched

variable {before : List Event} {i : Option Nat} {roles : List WaitRole} {l l' : WaitRole}

theorem overlooked (watched : Watched h depot before i s roles)
    (change : Overlooked h depot (fun _ => ()) s t) : Watched h depot before i t roles where
  connected d mine := change.wires d mine (watched.connected d mine)
  seen j watching := by
    obtain ⟨l, here, seen⟩ := watched.seen j watching
    exact ⟨l, here, seen.mono change.ledger⟩

theorem come (watched : Watched h depot before i s roles) (l : WaitRole) :
    Watched h depot before i s (roles ++ [l]) where
  connected := watched.connected
  seen j watching := by
    obtain ⟨l', here, seen⟩ := watched.seen j watching
    have inside := (List.getElem?_eq_some_iff.1 here).1
    exact ⟨l', by rw [List.getElem?_append_left inside, here], seen⟩

theorem move {k : Nat} (watched : Watched h depot before i s roles) (flows : Flows h depot s)
    (here : roles[k]? = some l) (move : WaitMove h depot l s l' t) :
    Watched h depot before i t (roles.set k l') := by
  obtain ⟨connected, seen⟩ := watched.overlooked move.overlooked
  refine ⟨connected, fun j watching => ?_⟩
  by_cases same : k = j
  · subst same
    obtain ⟨l₀, found, seen₀⟩ := watched.seen k watching
    obtain rfl : l = l₀ := Option.some.inj (here.symm.trans found)
    have inside := (List.getElem?_eq_some_iff.1 here).1
    exact ⟨l', by simp [inside], seen₀.move flows move⟩
  · rw [List.getElem?_set_ne same]
    exact seen j watching

end Watched

def waitDiscipline (h : HandoffId) (depot : Option Depot) (before : List Event) (i : Option Nat) :
    Discipline (familySetting h depot) (waitProtocol h depot)
      (fun l a => l ≠ .other → a.isSuccess = true → l = .goal depot) (Flows h depot) where
  holds := Watched h depot before i
  always watched := watched.connected
  moves flows _ watched here move := watched.move flows here move
  comes {s t roles a} _ _ watched coming := by
    have unwatched {a : Task Answer} (obeys : Obeys (waitProtocol h depot) .other a
        fun l _ => l = .other) : Obeys (waitProtocol h depot) .other a
        fun l a => l ≠ .other → a.isSuccess = true → l = .goal depot :=
      obeys.mono fun l _ other watched => absurd other watched
    rcases coming with ⟨task, begun, rfl⟩ | ⟨rfl, task⟩
    · exact ⟨.other, unwatched wait_forwards, (watched.overlooked (.begins begun)).come .other⟩
    · exact ⟨.other, unwatched (wait_serves.obeys task), watched.come .other⟩
  outside _ _ watched change := by
    cases change with
    | track t mine _ e extra =>
      exact watched.overlooked (wait_tracking.tracks mine.handoff_eq e extra watched.connected)
    | other unconcerned =>
      exact watched.overlooked ⟨unconcerned.wires, unconcerned.ledger, rfl⟩

-- What a wait that began at `s` and ended with success at `t` tells about the events that were
-- handed off before it began.
structure Fulfilled (h : HandoffId) (depot : Option Depot) (c : WaitCall) (s t : Session) :
    Prop where
  -- With a queue they were accepted, in the order in which they were tracked and each once.
  queued : ∀ d ∈ depot, ((t.ledger.sent h).map Event.id).Nodup →
    s.ledger.sent h <+: (t.ledger.accepted d.queue).flatten ∧
      ∀ e ∈ s.ledger.sent h, InOneBatch (t.ledger.accepted d.queue) e
  -- Without one they were in calls of the transport that are back.
  direct : depot = none → c.isBinding depot = true →
    s.ledger.sent h <+: (t.ledger.returned h).flatten

/-- Whoever waits for the events of a family, and is told that they are through, can rely on it,
whatever else tracks, forwards, drains and waits meanwhile. -/
theorem waiting_suffices {s₀ s₁ s₂ : Session} {tasks tasks' : List (Task Answer)} {c : WaitCall}
    {a : Answer} (new : NewFamily h depot s₀) (mine : IsOf h depot c.tracker)
    (earlier : Run (familySetting h depot) ⟨s₀, []⟩ ⟨s₁, tasks⟩)
    (later : Run (familySetting h depot) ⟨s₁, tasks ++ [c.task]⟩ ⟨s₂, tasks'⟩)
    (ended : tasks'[tasks.length]? = some (.done a)) (success : a.isSuccess = true) :
    Fulfilled h depot c s₁ s₂ := by
  have comes : Run (familySetting h depot) ⟨s₀, []⟩ ⟨s₁, tasks ++ [c.task]⟩ :=
    earlier.tail (.come (.inr ⟨rfl, .call c mine⟩))
  have flows : Flows h depot s₂ := family_flows new (comes.trans later)
  have seen (binding : c.isBinding depot = true) :
      Seen h depot (s₁.ledger.sent h) (.goal depot) s₂ := by
    -- Up to the call, no task is watched; from then on, the call is.
    obtain ⟨roles, manned, watched⟩ := (waitDiscipline h depot [] none).run_alone
      (fun _ => family_flows new) ⟨new.connected, nofun⟩ earlier
    have length : roles.length = tasks.length := manned.length_eq
    have calls := (obeys_call mine binding).mono fun l a reached =>
      fun _ : l ≠ .other => reached
    obtain ⟨roles', manned', _, watched'⟩ :=
      (waitDiscipline h depot (s₁.ledger.sent h) (some tasks.length)).run
        (fun _ run => family_flows new (comes.trans run)) (manned.come calls)
        ⟨watched.connected, fun j watching => by
          obtain rfl : tasks.length = j := Option.some.inj watching
          exact ⟨.asking, by simp [← length], List.prefix_refl _⟩⟩ later
    obtain ⟨l, here, seen⟩ := watched' _ rfl
    have reached : l ≠ .other → a.isSuccess = true → l = .goal depot := manned'.obeys here ended
    have waits : l ≠ .other := fun other => by
      rw [other] at seen
      exact seen
    rw [← reached waits success]
    exact seen
  constructor
  · rintro d rfl distinct
    have binding : c.isBinding (some d) = true := by cases c <;> rfl
    have order : s₁.ledger.sent h <+: (s₂.ledger.accepted d.queue).flatten :=
      seen binding d rfl distinct
    have stocked := flows.stocked d rfl
    have apart : ((s₂.ledger.accepted d.queue).flatten.map Event.id).Nodup :=
      distinct.sublist (((stocked.accepted distinct).trans stocked.written).sublist.map _)
    exact ⟨order, fun e tracked => .of_distinct apart (order.subset tracked)⟩
  · rintro rfl binding
    exact seen binding

def sampleFamily : Session where
  leaves := #[.scripted { name := "leaf", script := {} }]
  stores := #[{}]
  queues := #[{ store := 0, transport := some (.leaf 0) }]
  handoffs := #[{ transport := .queued 0 (.leaf 0) }]

def sampleTracked : Session := (track (sampleTracker (some 0)) ⟨"Sample", {}, ∅⟩ [] sampleFamily).2

def sampleForwarded : Async.Polled Session Answer × Session :=
  (Job.task (.forwards 0)).poll 100 { sampleTracked with jobs := [] }

def sampleFlush : Async.Polled Session Answer × Session :=
  (WaitCall.flush (sampleTracker (some 0))).task.poll 100 sampleForwarded.2

theorem waiting_suffices_sample :
    Fulfilled 0 (some ⟨0, 0, .leaf 0⟩) (.flush (sampleTracker (some 0))) sampleForwarded.2
        sampleFlush.2 ∧
      (sampleFlush.2.ledger.accepted 0).map (·.map Event.id) = [["#1"]] := by
  have new : NewFamily 0 (some ⟨0, 0, .leaf 0⟩) sampleFamily := by
    constructor
    · constructor <;> first | rfl | decide
    · intro d mine
      cases mine
      constructor <;> first | rfl | decide
    · intro d mine
      cases mine
      constructor <;> first | rfl | decide
  have mine : IsOf 0 (some ⟨0, 0, .leaf 0⟩) (sampleTracker (some 0)) := ⟨rfl, rfl⟩
  have nobody : Run (familySetting 0 (some ⟨0, 0, .leaf 0⟩)) ⟨sampleFamily, []⟩
      ⟨sampleFamily, []⟩ := .refl
  have tracked := nobody.tail
    (.outside (.track (sampleTracker (some 0)) mine rfl ⟨"Sample", {}, ∅⟩ []))
  have begins : (familySetting 0 (some ⟨0, 0, .leaf 0⟩)).comes sampleTracked
      (Job.task (.forwards 0)) { sampleTracked with jobs := [] } := .inl ⟨1, rfl, rfl⟩
  have forwarded := tracked.trans (Run.come_poll begins 100)
  have flushed : Run (familySetting 0 (some ⟨0, 0, .leaf 0⟩))
      ⟨sampleForwarded.2, [sampleForwarded.1.rest, (WaitCall.flush (sampleTracker (some 0))).task]⟩
      ⟨sampleFlush.2, [sampleForwarded.1.rest, sampleFlush.1.rest]⟩ :=
    Run.steps (i := 1) rfl (Async.poll_steps 100 _ _)
  exact ⟨waiting_suffices (a := .count 1) new mine forwarded flushed rfl rfl, by decide⟩

end Session

end EventTracking
