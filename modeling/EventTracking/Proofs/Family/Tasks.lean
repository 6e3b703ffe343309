import EventTracking.Proofs.Family.Wiring
import EventTracking.Proofs.Handoff.Forwarding
import EventTracking.Proofs.Queue.Fifo

set_option autoImplicit false

namespace EventTracking

def Answer.isSuccess : Answer → Bool
  | .count _ => true
  | .flag b => b
  | _ => false

namespace Session

open Async Change Crowd

structure IsOf (h : HandoffId) (depot : Option Depot) (t : SessionTracker) : Prop where
  handoff_eq : t.handoff = some h
  queue_eq : t.queue = depot.map Depot.queue

inductive WaitCall where
  | flush (t : SessionTracker)
  | wait (t : SessionTracker) (timeout : Nat)

namespace WaitCall

def tracker : WaitCall → SessionTracker
  | flush t => t
  | wait t _ => t

def task : WaitCall → Task Answer
  | flush t => return .ofCount (← flushTracker t)
  | wait t timeout => return .flag (← waitForTracker t timeout)

end WaitCall

inductive FamilyTask (h : HandoffId) (depot : Option Depot) : Task Answer → Prop
  | loop {d : Depot} (mine : d ∈ depot) : FamilyTask h depot (Job.task (.drains d.queue))
  | drain {d : Depot} (mine : d ∈ depot) :
      FamilyTask h depot (Job.task (.errand (.drain d.queue)))
  | flush {d : Depot} (mine : d ∈ depot) :
      FamilyTask h depot (Job.task (.errand (.flush d.queue)))
  | awaitIdle {d : Depot} (mine : d ∈ depot) (timeout : Nat) :
      FamilyTask h depot (Job.task (.errand (.awaitIdle d.queue timeout)))
  | call (c : WaitCall) (mine : IsOf h depot c.tracker) : FamilyTask h depot c.task

structure Unconcerned (h : HandoffId) (depot : Option Depot) (s t : Session) : Prop where
  handoff : handoffView h t = handoffView h s
  queue : ∀ d ∈ depot, queueView d.queue d.store t = queueView d.queue d.store s
  wires : ∀ d ∈ depot, Connected h d s → Connected h d t
  ledger : s.ledger <:+ t.ledger

inductive FamilyChange (h : HandoffId) (depot : Option Depot) : Session → Session → Prop
  | track {s : Session} (t : SessionTracker) (mine : IsOf h depot t)
      (usable : (s.handoff h).isClosed = false) (e : UntrackedEvent) (extra : List Contexts) :
      FamilyChange h depot s (track t e extra s).2
  | other {s t : Session} (unconcerned : Unconcerned h depot s t) : FamilyChange h depot s t

def familySetting (h : HandoffId) (depot : Option Depot) : Setting Session Answer where
  comes s a t :=
    (∃ task, s.begin? task = some (.forwards h, t) ∧ a = Job.task (.forwards h)) ∨
      t = s ∧ FamilyTask h depot a
  outside := FamilyChange h depot

variable {L : Type} {P : Protocol Session L} {l : L} {h : HandoffId} {depot : Option Depot}
  {s t : Session}

structure Serves (P : Protocol Session L) (l : L) (h : HandoffId) (depot : Option Depot) :
    Prop where
  rests : P.rests l
  settling : ∃ queues, AllowsSettling P.toFrame h queues
  draining : ∀ d ∈ depot, ∃ R queues, R.away = l ∧ R.idle = l ∧ Drains P R d.queue queues

namespace Serves

theorem bystander {queues : QueueId → Prop} (rests : P.rests l)
    (settling : AllowsSettling P.toFrame h queues)
    (draining : ∀ d ∈ depot, AllowsDraining P.toFrame d.queue queues) : Serves P l h depot where
  rests := rests
  settling := ⟨queues, settling⟩
  draining d mine :=
    -- No role is left: not even an empty store matters to one who only looks on.
    have quiet {s : Session} (hs : P.always s) : P.moves l s l s :=
      P.moves_quiet l hs (P.quiet_refl s)
    ⟨_, queues, rfl, rfl, (draining d mine).drains rests fun _ hs _ => quiet hs⟩

theorem flushTracker (serves : Serves P l h depot) {t : SessionTracker} (mine : IsOf h depot t) :
    Obeys P l (flushTracker t) fun l' _ => l' = l := by
  unfold Session.flushTracker
  rw [mine.queue_eq]
  cases depot with
  | none => rfl
  | some d =>
    obtain ⟨_, settling⟩ := serves.settling
    obtain ⟨R, _, rfl, again, drains⟩ := serves.draining d rfl
    rw [mine.handoff_eq]
    have settles := settling.settled (m := pure ()) fun s _ => P.quiet_refl s
    refine Obeys.keeps_bind settles serves.rests fun _ => ?_
    exact drains.flush.mono fun l r h => h.trans (R.afterFlush_eq_away again r)

theorem waitForTracker (serves : Serves P l h depot) {t : SessionTracker} (mine : IsOf h depot t)
    (timeout : Nat) : Obeys P l (waitForTracker t timeout) fun l' _ => l' = l := by
  obtain ⟨_, settling⟩ := serves.settling
  unfold Session.waitForTracker
  rw [mine.queue_eq, mine.handoff_eq]
  refine Obeys.keeps_bind (Keeps.get _) serves.rests fun started => ?_
  refine Obeys.keeps_bind (settling.settledWithin timeout) serves.rests fun inTime => ?_
  cases inTime with
  | false => rfl
  | true =>
    cases depot with
    | none => rfl
    | some d =>
      obtain ⟨R, _, rfl, again, drains⟩ := serves.draining d rfl
      refine Obeys.keeps_bind (Keeps.get _) serves.rests fun now => ?_
      exact (drains.waitUntilIdle _).mono fun l b h => h.trans (R.afterWait_eq_away again b)

theorem obeys (serves : Serves P l h depot) {a : Task Answer} (task : FamilyTask h depot a) :
    Obeys P l a fun l' _ => l' = l := by
  cases task with
  | loop mine =>
    obtain ⟨R, _, rfl, again, drains⟩ := serves.draining _ mine
    exact drains.drains again
  | drain mine =>
    obtain ⟨R, _, rfl, again, drains⟩ := serves.draining _ mine
    refine Obeys.bind (drains.drain.mono fun l r h => ?_)
    have away := h.trans (R.afterDrain_eq_away again r)
    cases r <;> exact away
  | flush mine =>
    obtain ⟨R, _, rfl, again, drains⟩ := serves.draining _ mine
    exact Obeys.bind (drains.flush.mono fun l r h => h.trans (R.afterFlush_eq_away again r))
  | awaitIdle mine timeout =>
    obtain ⟨R, _, rfl, again, drains⟩ := serves.draining _ mine
    refine Obeys.bind ((drains.waitUntilIdle timeout).mono fun l b h => ?_)
    exact h.trans (R.afterWait_eq_away again b)
  | call c mine =>
    cases c with
    | flush t => exact Obeys.bind (serves.flushTracker mine)
    | wait t timeout => exact Obeys.bind (serves.waitForTracker mine timeout)

end Serves

def sampleTracker (queue : Option QueueId) : SessionTracker where
  applicationId := "app"
  trackerId := "app"
  active := true
  contexts := {}
  plugins := {}
  handoff := some 0
  queue
  console := 0

end Session

end EventTracking
