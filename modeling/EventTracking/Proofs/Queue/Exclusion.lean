import EventTracking.Proofs.Async.Latch
import EventTracking.Proofs.Session.Jobs

set_option autoImplicit false

namespace EventTracking.Session

open Async Change Crowd

variable {id : QueueId} {s t : Session}

def flagLatch (id : QueueId) : Latch Session where
  always s := id < s.queues.size
  isTaken s := (s.queue id).processing
  release := leaving (unclaim id)
  always_release {s} inside := by
    have same : (leaving (unclaim id) s).queues.size = s.queues.size := Array.size_setIfInBounds ..
    rwa [same]
  isTaken_release s := by
    change ((setQueue id (s.queue id).release s).2.queue id).processing = false
    rw [queue_setQueue]
    split
    · rfl
    · next outside =>
      rw [queue_of_not_lt fun inside => outside ⟨rfl, inside⟩]
      rfl
  takeable :=
    ⟨{ queues := Array.replicate (id + 1) { store := 0, processing := true } }, by simp,
      by simp [queue]⟩

def flagFrame (id : QueueId) : Frame Session := (flagLatch id).frame

theorem flag_quiet (same : t.queues = s.queues) : (flagFrame id).quiet s t := by
  refine ⟨fun inside => ?_, ?_⟩
  · change id < t.queues.size
    rwa [same]
  · change (t.queue id).processing = (s.queue id).processing
    rw [queue, same]
    rfl

theorem flag_setQueue {id' : QueueId} {q : Queue}
    (same : id' = id → q.processing = (s.queue id).processing) :
    (flagFrame id).quiet s (setQueue id' q s).2 := by
  refine ⟨fun inside => ?_, ?_⟩
  · change id < (s.queues.set! id' q).size
    rwa [Array.size_set!]
  · exact setQueue_view Queue.processing fun mine => same mine

theorem flag_startLoop (id' : QueueId) {start : Queue → Option TaskId → Except Error Unit × Queue}
    (keeps : ∀ q task, (start q task).2.processing = q.processing) (s : Session) :
    (flagFrame id).quiet s (startLoop id' start s).2 := by
  obtain ⟨task, jobs, _, stock⟩ := startLoop_stock id' start s
  have set : (flagFrame id).quiet s (setQueue id' (start (s.queue id') task).2 s).2 :=
    flag_setQueue fun mine => mine ▸ keeps _ _
  exact (flagFrame id).quiet_trans set (flag_quiet (congrArg Stock.queues stock))

theorem flag_ensureRunning (id' : QueueId) (s : Session) :
    (flagFrame id).quiet s (ensureRunning id' s).2 := by
  apply flag_startLoop
  intro q task
  unfold Queue.ensureRunning
  split
  · rfl
  · split
    · cases task <;> rfl
    · rfl

theorem flag_run (id' : QueueId) (t : Transport) (s : Session) :
    (flagFrame id).quiet s (startLoop id' (fun q task => q.run t task) s).2 := by
  apply flag_startLoop
  intro q task
  unfold Queue.run
  split
  · rfl
  · cases task <;> rfl

theorem flag_stopLoop (id' : QueueId) (s : Session) :
    (flagFrame id).quiet s (stopLoop id' s).2 := by
  have set : (flagFrame id).quiet s (setQueue id' (s.queue id').stop.2 s).2 := by
    apply flag_setQueue
    rintro rfl
    unfold Queue.stop
    split <;> rfl
  exact (flagFrame id).quiet_trans set (flag_quiet (congrArg Stock.queues (stopLoop_stock id' s)))

theorem flag_forwarding (h : HandoffId) : AllowsForwarding (flagFrame id) h fun _ => True where
  aside same := flag_quiet (congrArg (·.1.queues) same)
  locks _ _ _ := flag_quiet rfl
  starts id' _ := flag_ensureRunning id' _
  appends _ _ _ _ := flag_quiet rfl
  sets _ _ := flag_quiet rfl
  receives _ _ := flag_quiet rfl
  counts _ _ := flag_quiet rfl

theorem flag_jobs : AllowsJobs (flagFrame id) where
  forwarding := flag_forwarding
  notes _ _ := flag_quiet rfl
  edits _ _ _ := flag_quiet rfl
  stops id' _ := flag_stopLoop id' _

theorem outside_drain (q : QueueId) : Outside (flagLatch id) (drain q) := by
  by_cases mine : q = id
  · subst mine
    have phases (p : Drain.Phase) : Outside (flagLatch q) (Async.iterate (drainPhase q) p) :=
      Outside.of_keeps (Confined.iterate (flag_jobs.drainPhase q) p)
    refine Outside.enter (fun s inside => ?_) fun phase => ?_
    · cases taken : (s.queue q).claim? with
      | none =>
        rw [claim_of_none taken]
        exact ⟨inside, .stay rfl rfl⟩
      | some q' =>
        obtain ⟨free, rfl⟩ := Queue.claim?_eq_some.1 taken
        rw [claim_of_some taken]
        refine ⟨?_, .enter ?_ free ?_⟩
        · change q < (s.queues.set! q _).size
          rwa [Array.size_set!]
        · change Async.sections _ (Async.iterate _ _) + _ = _
          rw [(phases _).sections]
          exact congrArg (0 + ·) (if_pos rfl)
        · change ((setQueue q _ s).2.queue q).processing = true
          rw [queue_setQueue, if_pos ⟨rfl, inside⟩]
    · cases phase with
      | none => trivial
      | some p => exact ⟨.inl rfl, (phases p).minds, fun _ => ⟨rfl, trivial⟩⟩
  · exact Outside.of_keeps <| flag_jobs.keeps_drain fun _ _ =>
      flag_setQueue fun same => absurd same mine

theorem outside_job (job : Job) : Outside (flagLatch id) (Job.task job) :=
  flag_jobs.job { Outside.composes with
    of_keeps := Outside.of_keeps
    gather := Outside.gather
    drain := outside_drain } job

inductive FlagChange (id : QueueId) : Session → Session → Prop
  | setTransport (t : Transport) (s : Session) :
      FlagChange id s (setQueue id ((s.queue id).setTransport t) s).2
  | run (t : Transport) (s : Session) :
      FlagChange id s (startLoop id (fun q task => q.run t task) s).2
  | ensureRunning (s : Session) : FlagChange id s (ensureRunning id s).2
  | stopLoop (s : Session) : FlagChange id s (stopLoop id s).2
  | other {s t : Session} (quiet : (flagFrame id).quiet s t) : FlagChange id s t

theorem FlagChange.quiet (h : FlagChange id s t) : (flagFrame id).quiet s t := by
  cases h with
  | setTransport t => exact flag_setQueue fun _ => rfl
  | run t => exact flag_run id t s
  | ensureRunning => exact flag_ensureRunning id s
  | stopLoop => exact flag_stopLoop id s
  | other quiet => exact quiet

def anySetting (id : QueueId) : Setting Session Answer where
  comes s a t := t = s ∧ ∃ job, a = Job.task job
  outside := FlagChange id

-- How many drains of a queue have taken the flag and have not ended.
noncomputable def underWay (id : QueueId) (tasks : List (Task Answer)) : Nat :=
  Crowd.sections (flagLatch id) tasks

theorem guarded_course {c : Crowd Session Answer} (hasQueue : id < s.queues.size)
    (free : (s.queue id).processing = false) (course : Course (anySetting id) ⟨s, []⟩ c) :
    Guarded (flagLatch id) c := by
  have start : Guarded (flagLatch id) (⟨s, []⟩ : Crowd Session Answer) := by
    refine ⟨hasQueue, by simp, ?_⟩
    change 0 = if (s.queue id).processing = true then 1 else 0
    simp [free]
  refine start.course (E := anySetting id) ?_ FlagChange.quiet course
  rintro s a t ⟨rfl, job, rfl⟩
  exact ⟨(flagFrame id).quiet_refl t, outside_job job⟩

theorem phase_results (p : Drain.Phase) (h : p ≠ .ended (.ok .skipped)) :
    Obeys (lax Session) () (drainPhase id p) fun _ =>
      Sum.elim (· ≠ .ended (.ok .skipped)) (· ≠ .ok .skipped) := by
  have any {α β : Type} {a : Task α} {k : α → Task β} {Q : Unit → β → Prop}
      (rest : ∀ x, Obeys (lax Session) () (k x) Q) : Obeys (lax Session) () (a >>= k) Q :=
    Obeys.keeps_bind (keeps_lax a) trivial rest
  cases p with
  | reading t =>
    refine any fun q => any fun r => ?_
    change Drain.read t r ≠ .ended (.ok .skipped)
    rcases r with e | _ | ⟨e, rest⟩ <;> simp [Drain.read]
  | delivering t batch =>
    refine any fun r => ?_
    have answered : Drain.answered batch r ≠ .ended (.ok .skipped) := by
      cases r <;> simp [Drain.answered]
    cases r with
    | ok => exact any fun _ => answered
    | error => exact answered
  | deleting ids =>
    refine any fun q => any fun r => ?_
    change Drain.deleted ids r ≠ .ok .skipped
    cases r <;> simp [Drain.deleted]
  | ended r =>
    have other : r ≠ .ok .skipped := fun same => h (congrArg _ same)
    exact other

theorem passes_drain {steps : List (Session × Session)} {r : Except Error Drain.Outcome}
    (passes : Passes (drain id) steps (.done r)) :
    (r = .ok .skipped ∧ ∃ s, steps = [(s, s)] ∧ (s.queue id).processing = true) ∨
      r ≠ .ok .skipped ∧ ∃ before s, steps = before ++ [(s, (unclaim id s).2)] := by
  generalize ended : Async.done r = last at passes
  cases passes with
  | stay => cases ended
  | @step _ _ _ s _ _ step goesOn =>
    subst ended
    cases step
    revert goesOn
    cases taken : (s.queue id).claim? with
    | none =>
      rw [claim_of_none taken]
      intro goesOn
      obtain ⟨rfl, same⟩ := goesOn.of_done
      cases same
      refine .inl ⟨rfl, s, rfl, ?_⟩
      cases busy : (s.queue id).processing with
      | false => simp [Queue.claim?, busy] at taken
      | true => rfl
    | some q =>
      rw [claim_of_some taken]
      intro goesOn
      obtain ⟨inner, t, passes, rfl⟩ := goesOn.of_guarded
      refine .inr ⟨?_, (s, (setQueue id q s).2) :: inner, t, rfl⟩
      have opening : Drain.opening s.isUsable q ≠ .ended (.ok .skipped) := by
        unfold Drain.opening
        split
        · simp
        · split <;> simp
      have results : Obeys (lax Session) ()
          (Async.iterate (drainPhase id) (Drain.opening s.isUsable q)) fun _ => (· ≠ .ok .skipped) :=
        Obeys.iterate (fun _ => (· ≠ .ended (.ok .skipped))) (fun _ => phase_results) opening
      obtain ⟨_, result⟩ := results.passes (fun _ => trivial) passes
      exact result

/-- The flag of a queue is set if and only if exactly one drain is under way, and there are never
two. A drain that is given up gives the flag back; so does one that ends, unless it has found the
flag taken: then it has done nothing at all. -/
theorem drain_exclusive {c : Crowd Session Answer} (hasQueue : id < s.queues.size)
    (free : (s.queue id).processing = false) (course : Course (anySetting id) ⟨s, []⟩ c) :
    ((c.state.queue id).processing = true ↔ underWay id c.tasks = 1) ∧
      underWay id c.tasks ≤ 1 ∧
      (∀ (i : Nat) (a : Task Answer), c.tasks[i]? = some a → underWay id [a] = 1 →
        ((a.abandon c.state).queue id).processing = false) ∧
      (∀ steps, Passes (drain id) steps (.done (.ok .skipped)) →
        ∃ s, steps = [(s, s)] ∧ (s.queue id).processing = true) ∧
      ∀ steps r, Passes (drain id) steps (.done r) → r ≠ .ok .skipped →
        ∃ before s t, steps = before ++ [(s, t)] ∧ (t.queue id).processing = false := by
  have guarded := guarded_course hasQueue free course
  have count : underWay id c.tasks = if (c.state.queue id).processing then 1 else 0 :=
    guarded.sections_eq
  refine ⟨?_, ?_, ?_, ?_, ?_⟩
  · rw [count]
    split <;> simp_all
  · rw [count]
    split <;> omega
  · intro i a found inside
    have shift := ((guarded.minds a (List.mem_of_getElem? found)).abandon guarded.always).2
    have one : a.sections (flagLatch id) = 1 := by simpa [underWay, Crowd.sections] using inside
    rw [one] at shift
    cases shift with
    | stay same => omega
    | enter more => omega
    | leave less latch => exact latch
  · intro steps passes
    obtain ⟨_, found⟩ | ⟨other, _⟩ := passes_drain passes
    · exact found
    · exact absurd rfl other
  · intro steps r passes other
    obtain ⟨skipped, _⟩ | ⟨_, before, s, rfl⟩ := passes_drain passes
    · exact absurd skipped other
    · exact ⟨before, s, _, rfl, (flagLatch id).isTaken_release s⟩

def sampleSlow : Session where
  leaves := #[.scripted { name := "slow", script := { delay := 10 } }]
  stores := #[{ events := [⟨"Queued", "a", 0, {}, ∅⟩] }]
  queues := #[{ batchSize := 1, store := 0, transport := some (.leaf 0) }]

def sampleDrain : Task Answer := Job.task (.errand (.drain 0))

def sampleBusy : Crowd Session Answer :=
  ((⟨sampleSlow, []⟩ : Crowd Session Answer).enter 100 sampleDrain).enter 100 sampleDrain

theorem drain_exclusive_sample :
    underWay 0 sampleBusy.tasks = 1 ∧ sampleBusy.tasks[1]? = some (.done (.drained .skipped)) ∧
      underWay 0 (sampleBusy.giveUp 0).tasks ≤ 1 ∧
      ((sampleBusy.giveUp 0).state.queue 0).processing = false := by
  have comes (s : Session) : (anySetting 0).comes s sampleDrain s := ⟨rfl, _, rfl⟩
  have nobody : Course (anySetting 0) ⟨sampleSlow, []⟩ ⟨sampleSlow, []⟩ := .refl
  have busy : Course (anySetting 0) ⟨sampleSlow, []⟩ sampleBusy :=
    (nobody.enter 100 (comes _)).enter 100 (comes _)
  have hasQueue : 0 < sampleSlow.queues.size := by decide
  have one := (drain_exclusive hasQueue rfl busy).1.1 (by decide)
  have few := (drain_exclusive hasQueue rfl (busy.giveUp 0)).2.1
  exact ⟨one, rfl, few, by decide⟩

end EventTracking.Session
