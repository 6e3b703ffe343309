import EventTracking.Proofs.Session.Jobs

set_option autoImplicit false

namespace EventTracking

namespace Ticker

-- What the faults of a loop say about its period.
def Breaks (period : Duration) : Fault → Prop
  | .beyondClock => Duration.clockRange ≤ period
  | .noPeriod => period = 0
  | .tooLate => countable < period

variable {period due now : Duration} {fault : Fault}

theorem fault?_breaks (refused : fault? period = some fault) : Breaks period fault := by
  unfold fault? at refused
  split at refused
  · next beyond => exact Option.some.inj refused ▸ beyond
  · split at refused
    · next still => exact Option.some.inj refused ▸ still
    · cases refused

theorem next?_eq_none_iff :
    next? period due now = none ↔ due + tolerance < now ∧ countable ≤ (now - due) % period := by
  unfold next?
  split
  · next late => simp [late]
  · next soon => simp [soon]

theorem breaks_of_next? (ticks : fault? period = none) (lost : next? period due now = none) :
    Breaks period .tooLate := by
  have positive : 0 < period := by
    refine Nat.pos_of_ne_zero fun still => ?_
    have refused : fault? period = some .noPeriod := by
      rw [still]
      decide
    exact nomatch ticks.symm.trans refused
  exact Nat.lt_of_le_of_lt (next?_eq_none_iff.1 lost).2 (Nat.mod_lt _ positive)

end Ticker

namespace Queue

inductive Starts (q : Queue) (task : Option TaskId) : Queue → Prop
  | stays {q' : Queue} (loop : q'.loop = q.loop) (stopping : q'.stopping = q.stopping)
      (period : q'.batchDelay = q.batchDelay) : Starts q task q'
  | begins {q' : Queue} {n : TaskId} (idle : q.loop = none) (next : task = some n)
      (loop : q'.loop = some n) (stopping : q'.stopping = false)
      (period : q'.batchDelay = q.batchDelay) : Starts q task q'

theorem start_starts {q x : Queue} (idle : q.loop = none) (loop : x.loop = q.loop)
    (stopping : x.stopping = q.stopping) (period : x.batchDelay = q.batchDelay)
    (task : Option TaskId) : Starts q task (x.start task).2 := by
  cases task with
  | none => exact .stays loop stopping period
  | some n => exact .begins idle rfl rfl rfl period

theorem run_starts (q : Queue) (t : Transport) (task : Option TaskId) :
    Starts q task (q.run t task).2 := by
  unfold run
  split
  · exact .stays rfl rfl rfl
  · next stopped =>
    have idle : q.loop = none := by simpa [isRunning] using stopped
    exact start_starts (x := q.setTransport t) idle rfl rfl rfl task

theorem ensureRunning_starts (q : Queue) (task : Option TaskId) :
    Starts q task (q.ensureRunning task).2 := by
  unfold ensureRunning
  split
  · exact .stays rfl rfl rfl
  · next stopped =>
    have idle : q.loop = none := by simpa [isRunning] using stopped
    split
    · exact start_starts idle rfl rfl rfl task
    · exact .stays rfl rfl rfl

end Queue

namespace Session

open Async Change

variable {id : QueueId} {s t u : Session} {crew : List (TaskId × Job)} {job : Job}

theorem lt_of_loop {q : QueueId} {n : TaskId} (loop : (s.queue q).loop = some n) :
    q < s.queues.size := by
  by_cases there : q < s.queues.size
  · exact there
  · rw [queue_of_not_lt there] at loop
    cases loop

structure Numbered (s : Session) (crew : List (TaskId × Job)) : Prop where
  distinct : (crew.map Prod.fst).Nodup
  going : ∀ j ∈ crew, s.isFinished j.1 = false
  crew_lt : ∀ j ∈ crew, j.1 < s.nextTask
  aborted_lt : ∀ n ∈ s.aborted, n < s.nextTask
  finished_lt : ∀ n, s.isFinished n = true → n < s.nextTask

namespace Numbered

theorem of_staff (numbered : Numbered s crew) (same : t.staff = s.staff) : Numbered t crew := by
  have next : t.nextTask = s.nextTask := congrArg Staff.nextTask same
  have aborted : t.aborted = s.aborted := congrArg Staff.aborted same
  have finished (n : TaskId) : t.isFinished n = s.isFinished n :=
    congrArg (fun staff => staff.results.any fun r => r.1 == n) same
  constructor
  · exact numbered.distinct
  · intro j listed
    rw [finished]
    exact numbered.going j listed
  · rw [next]
    exact numbered.crew_lt
  · rw [next, aborted]
    exact numbered.aborted_lt
  · intro n ended
    rw [next]
    exact numbered.finished_lt n (finished n ▸ ended)

theorem perm {crew' : List (TaskId × Job)} (numbered : Numbered s crew) (same : crew.Perm crew') :
    Numbered s crew' where
  distinct := (same.map _).nodup_iff.1 numbered.distinct
  going j listed := numbered.going j (same.mem_iff.2 listed)
  crew_lt j listed := numbered.crew_lt j (same.mem_iff.2 listed)
  aborted_lt := numbered.aborted_lt
  finished_lt := numbered.finished_lt

theorem next_fresh (numbered : Numbered s crew) (job : Job) : (s.nextTask, job) ∉ crew :=
  fun listed => Nat.lt_irrefl _ (numbered.crew_lt _ listed)

theorem hire (numbered : Numbered s crew) (job : Job) :
    Numbered (s.hire job) ((s.nextTask, job) :: crew) where
  distinct := by
    refine List.nodup_cons.2 ⟨?_, numbered.distinct⟩
    intro used
    obtain ⟨j, listed, same⟩ := List.mem_map.1 used
    exact absurd same (Nat.ne_of_lt (numbered.crew_lt j listed))
  going j listed := by
    rcases List.mem_cons.1 listed with rfl | old
    · cases ended : s.isFinished s.nextTask with
      | false => exact ended
      | true => exact absurd (numbered.finished_lt _ ended) (Nat.lt_irrefl _)
    · exact numbered.going j old
  crew_lt j listed := by
    rcases List.mem_cons.1 listed with rfl | old
    · exact Nat.lt_succ_self _
    · exact Nat.lt_succ_of_lt (numbered.crew_lt j old)
  aborted_lt n aborted := Nat.lt_succ_of_lt (numbered.aborted_lt n aborted)
  finished_lt n ended := Nat.lt_succ_of_lt (numbered.finished_lt n ended)

theorem abort (numbered : Numbered s crew) {task : TaskId} (used : task < s.nextTask) :
    Numbered { s with aborted := task :: s.aborted } crew where
  distinct := numbered.distinct
  going := numbered.going
  crew_lt := numbered.crew_lt
  aborted_lt n aborted := by
    rcases List.mem_cons.1 aborted with rfl | old
    · exact used
    · exact numbered.aborted_lt n old
  finished_lt := numbered.finished_lt

theorem other {n : TaskId} {j : TaskId × Job} (numbered : Numbered s ((n, job) :: crew))
    (listed : j ∈ crew) : j.1 ≠ n :=
  fun same => (List.nodup_cons.1 numbered.distinct).1 (List.mem_map.2 ⟨j, listed, same⟩)

theorem leave {n : TaskId} {a : Answer} {aborted : List TaskId}
    (numbered : Numbered s ((n, job) :: crew)) (kept : aborted ⊆ s.aborted)
    (staff : t.staff = { s.staff with aborted, results := (n, a) :: s.results }) :
    Numbered t crew := by
  have next : t.nextTask = s.nextTask := congrArg Staff.nextTask staff
  have now : t.aborted = aborted := congrArg Staff.aborted staff
  have finished (m : TaskId) : t.isFinished m = (n == m || s.isFinished m) :=
    congrArg (fun staff => staff.results.any fun r => r.1 == m) staff
  constructor
  · exact (List.nodup_cons.1 numbered.distinct).2
  · intro j listed
    rw [finished, numbered.going j (List.mem_cons_of_mem _ listed), Bool.or_false]
    simpa using (numbered.other listed).symm
  · intro j listed
    rw [next]
    exact numbered.crew_lt j (List.mem_cons_of_mem _ listed)
  · rw [next, now]
    exact fun m listed => numbered.aborted_lt m (kept listed)
  · intro m ended
    rw [next]
    rw [finished] at ended
    rcases Bool.or_eq_true_iff.1 ended with same | before
    · exact eq_of_beq same ▸ numbered.crew_lt _ List.mem_cons_self
    · exact numbered.finished_lt m before

end Numbered

-- The task has broken down as the period of the queue says.
def BrokeDown (id : QueueId) (s : Session) (n : TaskId) : Prop :=
  ∃ fault, Ticker.Breaks (s.queue id).batchDelay fault ∧ (n, .broken fault) ∈ s.results

theorem BrokeDown.isFinished {n : TaskId} (broke : BrokeDown id s n) : s.isFinished n = true := by
  obtain ⟨fault, -, told⟩ := broke
  exact List.any_eq_true.2 ⟨_, told, beq_self_eq_true n⟩

theorem BrokeDown.of_staff {n : TaskId} (broke : BrokeDown id s n) (staff : t.staff = s.staff)
    (period : (t.queue id).batchDelay = (s.queue id).batchDelay) : BrokeDown id t n := by
  obtain ⟨fault, breaks, told⟩ := broke
  have results : t.results = s.results := congrArg Staff.results staff
  exact ⟨fault, period ▸ breaks, results ▸ told⟩

structure Crewed (id : QueueId) (s : Session) (crew : List (TaskId × Job)) : Prop
    extends Numbered s crew where
  hasRuntime : s.hasRuntime = true
  handle : ∀ n, (n, .drains id) ∈ crew → n ∉ s.aborted → (s.queue id).loop = some n
  handled : ∀ n, (s.queue id).loop = some n →
    ((n, .drains id) ∈ crew ∧ n ∉ s.aborted) ∨ BrokeDown id s n
  steady : (s.queue id).isRunning = true → (s.queue id).stopping = false
  -- The handles of other queues are on other tasks.
  others : ∀ q n, q ≠ id → (s.queue q).loop = some n → n < s.nextTask ∧ (n, .drains id) ∉ crew

namespace Crewed

theorem of_same (crewed : Crewed id s crew) (staff : t.staff = s.staff)
    (loops : ∀ q, (t.queue q).loop = (s.queue q).loop)
    (flag : (t.queue id).stopping = (s.queue id).stopping)
    (period : (t.queue id).batchDelay = (s.queue id).batchDelay) : Crewed id t crew where
  toNumbered := crewed.toNumbered.of_staff staff
  hasRuntime := (congrArg Staff.hasRuntime staff).trans crewed.hasRuntime
  handle n := by
    rw [loops, show t.aborted = s.aborted from congrArg Staff.aborted staff]
    exact crewed.handle n
  handled n loop := by
    rw [loops] at loop
    rw [show t.aborted = s.aborted from congrArg Staff.aborted staff]
    exact (crewed.handled n loop).imp_right fun broke => broke.of_staff staff period
  steady running := by
    rw [Queue.isRunning, loops] at running
    rw [flag]
    exact crewed.steady running
  others q n other loop := by
    have next : t.nextTask = s.nextTask := congrArg Staff.nextTask staff
    rw [loops] at loop
    rw [next]
    exact crewed.others q n other loop

theorem perm {crew' : List (TaskId × Job)} (crewed : Crewed id s crew) (same : crew.Perm crew') :
    Crewed id s crew' where
  toNumbered := crewed.toNumbered.perm same
  hasRuntime := crewed.hasRuntime
  handle n := by
    rw [← same.mem_iff]
    exact crewed.handle n
  handled n := by
    rw [← same.mem_iff]
    exact crewed.handled n
  steady := crewed.steady
  others q n other loop := by
    rw [← same.mem_iff]
    exact crewed.others q n other loop

theorem hire (crewed : Crewed id s crew) (other : job ≠ .drains id) :
    Crewed id (s.hire job) ((s.nextTask, job) :: crew) where
  toNumbered := crewed.toNumbered.hire job
  hasRuntime := crewed.hasRuntime
  handle n listed := by
    have old : (n, Job.drains id) ∈ crew := by simpa [other.symm] using listed
    exact crewed.handle n old
  handled n loop := (crewed.handled n loop).imp_left (And.imp_left (List.mem_cons_of_mem _))
  steady := crewed.steady
  others q n distinct loop := by
    obtain ⟨used, foreign⟩ := crewed.others q n distinct loop
    exact ⟨Nat.lt_succ_of_lt used, by simp [other.symm, foreign]⟩

theorem aborted_of_stopping (crewed : Crewed id s crew) {n : TaskId}
    (listed : (n, .drains id) ∈ crew) (stopping : (s.queue id).stopping = true) :
    n ∈ s.aborted := by
  by_cases aborted : n ∈ s.aborted
  · exact aborted
  · have loop := crewed.handle n listed aborted
    have running : (s.queue id).isRunning = true := by
      rw [Queue.isRunning, loop]
      rfl
    simp [crewed.steady running] at stopping

theorem last {j : TaskId × Job} {jobs : List (TaskId × Job)}
    (crewed : Crewed id s (j :: (jobs ++ crew))) : Crewed id s ((jobs ++ [j]) ++ crew) := by
  rw [List.append_assoc]
  exact crewed.perm List.perm_middle.symm

theorem restart {q : QueueId} {x : Queue} (crewed : Crewed id s crew) (there : q < s.queues.size)
    (idle : (s.queue q).loop = none) (loop : x.loop = some s.nextTask)
    (stopping : x.stopping = false) :
    Crewed id ((setQueue q x s).2.hire (.drains q)) ((s.nextTask, .drains q) :: crew) := by
  have here : ((setQueue q x s).2.hire (.drains q)).queue q = x :=
    (queue_setQueue s q q x).trans (if_pos ⟨rfl, there⟩)
  have elsewhere {k : QueueId} (other : q ≠ k) :
      ((setQueue q x s).2.hire (.drains q)).queue k = s.queue k :=
    (queue_setQueue s q k x).trans (if_neg fun same => other same.1)
  have numbered : Numbered (setQueue q x s).2 crew := crewed.toNumbered.of_staff rfl
  refine ⟨numbered.hire (.drains q), crewed.hasRuntime, fun n listed live => ?_,
    fun n found => ?_, fun running => ?_, fun k n other found => ?_⟩
  · by_cases mine : q = id
    · subst mine
      rw [here, loop]
      rcases List.mem_cons.1 listed with new | old
      · exact congrArg some (Prod.mk.inj new).1.symm
      · exact nomatch idle.symm.trans (crewed.handle n old live)
    · have old : (n, Job.drains id) ∈ crew := by simpa [Ne.symm mine] using listed
      rw [elsewhere mine]
      exact crewed.handle n old live
  · by_cases mine : q = id
    · subst mine
      rw [here, loop] at found
      obtain rfl : s.nextTask = n := Option.some.inj found
      exact .inl ⟨List.mem_cons_self, fun aborted => Nat.lt_irrefl _ (crewed.aborted_lt _ aborted)⟩
    · rw [elsewhere mine] at found
      refine (crewed.handled n found).imp (And.imp_left (List.mem_cons_of_mem _)) fun broke => ?_
      exact broke.of_staff (t := (setQueue q x s).2) rfl (congrArg _ (elsewhere mine))
  · by_cases mine : q = id
    · subst mine
      rw [here]
      exact stopping
    · rw [elsewhere mine] at running ⊢
      exact crewed.steady running
  · by_cases same : q = k
    · subst same
      rw [here, loop] at found
      obtain rfl : s.nextTask = n := Option.some.inj found
      exact ⟨Nat.lt_succ_self _, by simp [Ne.symm other, crewed.next_fresh]⟩
    · rw [elsewhere same] at found
      obtain ⟨used, foreign⟩ := crewed.others k n other found
      exact ⟨Nat.lt_succ_of_lt used, by simp [Nat.ne_of_lt used, foreign]⟩

theorem abort_other {n : TaskId} (crewed : Crewed id s crew) (used : n < s.nextTask)
    (foreign : (n, .drains id) ∉ crew) : Crewed id (abort n s).2 crew := by
  have aborts : (abort n s).2 = if s.isFinished n then s else
      { s with aborted := n :: s.aborted, scheduler := s.scheduler.wake n } := rfl
  rw [aborts]
  split
  · exact crewed
  · refine ⟨(crewed.toNumbered.abort used).of_staff rfl, crewed.hasRuntime, fun m listed live => ?_,
      fun m loop => ?_, crewed.steady, crewed.others⟩
    · exact crewed.handle m listed fun old => live (List.mem_cons_of_mem _ old)
    · refine (crewed.handled m loop).imp_left fun ⟨listed, live⟩ => ⟨listed, fun aborted => ?_⟩
      rcases List.mem_cons.1 aborted with rfl | old
      · exact foreign listed
      · exact live old

theorem free {q : QueueId} {x : Queue} (crewed : Crewed id s crew) (other : q ≠ id)
    (freed : x.loop = none) : Crewed id (setQueue q x s).2 crew where
  toNumbered := crewed.toNumbered.of_staff rfl
  hasRuntime := crewed.hasRuntime
  handle m := by
    rw [setQueue_view Queue.loop fun same => absurd same other]
    exact crewed.handle m
  handled m loop := by
    rw [setQueue_view Queue.loop fun same => absurd same other] at loop
    exact (crewed.handled m loop).imp_right fun broke =>
      broke.of_staff rfl (setQueue_view Queue.batchDelay fun same => absurd same other)
  steady := by
    rw [setQueue_view Queue.isRunning fun same => absurd same other,
      setQueue_view Queue.stopping fun same => absurd same other]
    exact crewed.steady
  others k m foreign found := by
    rw [queue_setQueue] at found
    split at found
    · rw [freed] at found
      cases found
    · exact crewed.others k m foreign found

theorem freed {x : Queue} (crewed : Crewed id s crew) (there : id < s.queues.size)
    (freed : x.loop = none) (queues : t.queues = (setQueue id x s).2.queues)
    (numbered : Numbered t crew) (live : t.hasRuntime = true) (next : t.nextTask = s.nextTask)
    (nobody : ∀ m, (m, .drains id) ∈ crew → m ∈ t.aborted) : Crewed id t crew := by
  have queue (q : QueueId) : t.queue q = (setQueue id x s).2.queue q :=
    congrArg (·.getD q default) queues
  have none : (t.queue id).loop = none := by
    rw [queue, queue_setQueue, if_pos ⟨rfl, there⟩, freed]
  refine ⟨numbered, live, fun m listed going => absurd (nobody m listed) going, fun m loop => ?_,
    fun running => ?_, fun q m other loop => ?_⟩
  · exact nomatch none.symm.trans loop
  · rw [Queue.isRunning, none] at running
    cases running
  · rw [queue, queue_setQueue, if_neg fun same => other same.1.symm] at loop
    rw [next]
    exact crewed.others q m other loop

theorem abort_loop {n : TaskId} {x : Queue} (crewed : Crewed id s crew)
    (loop : (s.queue id).loop = some n) (freed : x.loop = none) :
    Crewed id (abort n (setQueue id x s).2).2 crew := by
  have there := lt_of_loop loop
  have only (m : TaskId) (listed : (m, .drains id) ∈ crew) (live : m ∉ s.aborted) : m = n :=
    Option.some.inj ((crewed.handle m listed live).symm.trans loop)
  rcases crewed.handled n loop with ⟨listed, live⟩ | broke
  · have aborts : (abort n (setQueue id x s).2).2 =
        { (setQueue id x s).2 with aborted := n :: s.aborted, scheduler := s.scheduler.wake n } :=
      if_neg (ne_true_of_eq_false (crewed.going _ listed))
    rw [aborts]
    refine crewed.freed there freed rfl ?_ crewed.hasRuntime rfl fun m mine => ?_
    · exact (crewed.toNumbered.abort (crewed.crew_lt _ listed)).of_staff rfl
    · by_cases aborted : m ∈ s.aborted
      · exact List.mem_cons_of_mem _ aborted
      · exact only m mine aborted ▸ List.mem_cons_self
  · -- There is nothing left to abort of a task that broke down.
    have stays : (abort n (setQueue id x s).2).2 = (setQueue id x s).2 := if_pos broke.isFinished
    rw [stays]
    refine crewed.freed there freed rfl (crewed.toNumbered.of_staff rfl) crewed.hasRuntime rfl
      fun m mine => ?_
    refine Decidable.byContradiction fun live => ?_
    have going := crewed.going _ mine
    rw [only m mine live, broke.isFinished] at going
    cases going

theorem stopLoop (crewed : Crewed id s crew) (q : QueueId) : Crewed id (stopLoop q s).2 crew := by
  rcases stopLoop_eq q s with ⟨_, stopped⟩ | ⟨n, loop, stopped⟩
  · rw [stopped]
    exact crewed
  · rw [stopped]
    by_cases mine : q = id
    · subst mine
      exact crewed.abort_loop loop rfl
    · obtain ⟨used, foreign⟩ := crewed.others q n mine loop
      exact (crewed.free mine rfl).abort_other used foreign

theorem leave {n : TaskId} {a : Answer} {aborted : List TaskId}
    (crewed : Crewed id s ((n, job) :: crew))
    (gone : job = .drains id → n ∈ s.aborted ∨
      ∃ fault, Ticker.Breaks (s.queue id).batchDelay fault ∧ a = .broken fault)
    (kept : aborted ⊆ s.aborted) (same : ∀ m, m ≠ n → m ∈ s.aborted → m ∈ aborted)
    (queues : t.queues = s.queues)
    (staff : t.staff = { s.staff with aborted, results := (n, a) :: s.results }) :
    Crewed id t crew := by
  have queue (q : QueueId) : t.queue q = s.queue q := congrArg (·.getD q default) queues
  have next : t.nextTask = s.nextTask := congrArg Staff.nextTask staff
  have now : t.aborted = aborted := congrArg Staff.aborted staff
  have told : t.results = (n, a) :: s.results := congrArg Staff.results staff
  refine ⟨crewed.toNumbered.leave kept staff, (congrArg Staff.hasRuntime staff).trans
    crewed.hasRuntime, fun m listed live => ?_, fun m loop => ?_, ?_, fun q m foreign loop => ?_⟩
  · rw [now] at live
    have other : m ≠ n := crewed.toNumbered.other listed
    rw [queue]
    exact crewed.handle m (List.mem_cons_of_mem _ listed) fun before => live (same m other before)
  · rw [queue] at loop
    rw [now, BrokeDown, queue, told]
    rcases crewed.handled m loop with ⟨listed, live⟩ | ⟨fault, breaks, before⟩
    · rcases List.mem_cons.1 listed with here | there
      · obtain ⟨rfl, runs⟩ := Prod.mk.inj here
        obtain aborted | ⟨fault, breaks, rfl⟩ := gone runs.symm
        · exact absurd aborted live
        · exact .inr ⟨fault, breaks, List.mem_cons_self⟩
      · exact .inl ⟨there, fun aborted => live (kept aborted)⟩
    · exact .inr ⟨fault, breaks, List.mem_cons_of_mem _ before⟩
  · rw [queue]
    exact crewed.steady
  · rw [queue] at loop
    rw [next]
    obtain ⟨used, unlisted⟩ := crewed.others q m foreign loop
    exact ⟨used, fun listed => unlisted (List.mem_cons_of_mem _ listed)⟩

end Crewed

theorem aborted_abort (n : TaskId) (s : Session) : s.aborted ⊆ (abort n s).2.aborted := by
  change s.aborted ⊆ (if s.isFinished n then s else _ : Session).aborted
  split
  · exact fun _ h => h
  · exact List.subset_cons_self n s.aborted

structure Calm (id : QueueId) (s t : Session) : Prop where
  hasQueue : id < s.queues.size → id < t.queues.size
  period : (t.queue id).batchDelay = (s.queue id).batchDelay
  aborted : s.aborted ⊆ t.aborted
  crewed : ∀ {crew}, Crewed id s (s.jobs ++ crew) → Crewed id t (t.jobs ++ crew)

namespace Calm

theorem refl (s : Session) : Calm id s s := ⟨fun h => h, rfl, fun _ h => h, fun h => h⟩

theorem trans (first : Calm id s t) (second : Calm id t u) : Calm id s u where
  hasQueue h := second.hasQueue (first.hasQueue h)
  period := second.period.trans first.period
  aborted := List.Subset.trans first.aborted second.aborted
  crewed h := second.crewed (first.crewed h)

theorem of_same (queues : t.queues = s.queues) (jobs : t.jobs = s.jobs)
    (staff : t.staff = s.staff) : Calm id s t := by
  have queue (q : QueueId) : t.queue q = s.queue q := congrArg (·.getD q default) queues
  refine ⟨fun inside => ?_, congrArg _ (queue id), ?_, fun crewed => ?_⟩
  · rwa [queues]
  · rw [show t.aborted = s.aborted from congrArg Staff.aborted staff]
    exact fun _ h => h
  · rw [jobs]
    exact crewed.of_same staff (fun q => congrArg _ (queue q)) (congrArg _ (queue id))
      (congrArg _ (queue id))

theorem of_setup (same : t.setup = s.setup) : Calm id s t :=
  of_same (congrArg (·.1.queues) same) (congrArg (·.1.jobs) same) (congrArg Prod.snd same)

theorem setQueue {q : QueueId} {x : Queue} (loop : x.loop = (s.queue q).loop)
    (stopping : q = id → x.stopping = (s.queue q).stopping)
    (period : q = id → x.batchDelay = (s.queue q).batchDelay) : Calm id s (setQueue q x s).2 where
  hasQueue inside := Nat.lt_of_lt_of_eq inside (Array.size_set! ..).symm
  period := setQueue_view Queue.batchDelay fun same => same ▸ period same
  aborted _ h := h
  crewed crewed := crewed.of_same rfl (fun _ => setQueue_view Queue.loop fun same => same ▸ loop)
    (setQueue_view Queue.stopping fun same => same ▸ stopping same)
    (setQueue_view Queue.batchDelay fun same => same ▸ period same)

theorem hire (other : job ≠ .drains id) : Calm id s (s.hire job) where
  hasQueue h := h
  period := rfl
  aborted _ h := h
  crewed crewed := (crewed.hire other).last

theorem spawn (other : job ≠ .drains id) : Calm id s (spawn? job s).2 := by
  by_cases live : s.hasRuntime = true
  · exact (Calm.hire other).trans (.of_setup (spawn?_setup job live))
  · have same : spawn? job s = (none, s) := if_neg live
    rw [same]
    exact .refl s

theorem startLoop {q : QueueId} {start : Queue → Option TaskId → Except Error Unit × Queue}
    (hasQueue : id < s.queues.size)
    (starts : ∀ (x : Queue) task, x.Starts task (start x task).2) :
    Calm id s (startLoop q start s).2 := by
  have started := starts (s.queue q) (if s.hasRuntime then some s.nextTask else none)
  rw [startLoop_eq q start rfl]
  generalize (start (s.queue q) _).2 = x at started
  cases started with
  | stays loop stopping period =>
    simp only [loop, bne_self_eq_false, Bool.false_eq_true, if_false]
    exact .setQueue loop (fun _ => stopping) fun _ => period
  | @begins n idle next loop stopping period =>
    have live : s.hasRuntime = true := by
      cases live : s.hasRuntime with
      | true => rfl
      | false => simp [live] at next
    obtain rfl : s.nextTask = n := by simpa [live] using next
    have other : (x.loop != (s.queue q).loop) = true := by simp [loop, idle]
    simp only [other, if_true]
    by_cases there : q < s.queues.size
    · have hired : Calm id s ((Session.setQueue q x s).2.hire (.drains q)) := by
        refine ⟨fun inside => ?_, ?_, fun _ h => h, fun crewed => ?_⟩
        · exact Nat.lt_of_lt_of_eq inside (Array.size_set! ..).symm
        · exact setQueue_view Queue.batchDelay fun same => same ▸ period
        · exact (crewed.restart there idle loop stopping).last
      exact hired.trans (.of_setup (spawn?_setup (.drains q) live))
    · -- There is no such queue: the task that begins has nothing to do with the one that is meant.
      have still : (Session.setQueue q x s).2 = s := setQueue_of_not_lt there x
      rw [still]
      refine .spawn fun same => there ?_
      obtain rfl : q = id := Job.drains.inj same
      exact hasQueue

theorem ensureRunning (q : QueueId) (hasQueue : id < s.queues.size) :
    Calm id s (ensureRunning q s).2 := .startLoop hasQueue Queue.ensureRunning_starts

theorem stopLoop (q : QueueId) : Calm id s (stopLoop q s).2 := by
  have stock := stopLoop_stock q s
  have queues : (Session.stopLoop q s).2.queues =
      (Session.setQueue q (s.queue q).stop.2 s).2.queues := congrArg Stock.queues stock
  have jobs : (Session.stopLoop q s).2.jobs = s.jobs := congrArg Stock.jobs stock
  refine ⟨fun inside => ?_, ?_, ?_, fun crewed => ?_⟩
  · rw [queues]
    exact Nat.lt_of_lt_of_eq inside (Array.size_set! ..).symm
  · have same : ((Session.stopLoop q s).2.queue id).batchDelay =
        ((Session.setQueue q (s.queue q).stop.2 s).2.queue id).batchDelay :=
      congrArg (fun queues => (queues.getD id default).batchDelay) queues
    rw [same]
    refine setQueue_view Queue.batchDelay fun mine => mine ▸ ?_
    unfold Queue.stop
    split <;> rfl
  · rcases stopLoop_eq q s with ⟨_, same⟩ | ⟨n, _, stopped⟩
    · rw [same]
      exact fun _ h => h
    · rw [stopped]
      exact aborted_abort n (Session.setQueue q _ s).2
  · rw [jobs]
    exact crewed.stopLoop q

theorem newQueue {x : Queue} (hasQueue : id < s.queues.size) (idle : x.loop = none) :
    Calm id s { s with queues := s.queues.push x } := by
  have old {q : QueueId} (there : q < s.queues.size) :
      ({ s with queues := s.queues.push x } : Session).queue q = s.queue q := by
    simp [queue, Array.getD_eq_getD_getElem?, Array.getElem?_push, Nat.ne_of_lt there]
  refine ⟨fun inside => ?_, ?_, fun _ h => h, fun crewed => ?_⟩
  · exact Nat.lt_of_lt_of_eq (Nat.lt_succ_of_lt inside) (Array.size_push x).symm
  · rw [old hasQueue]
  · refine crewed.of_same rfl (fun q => ?_) (congrArg Queue.stopping (old hasQueue))
      (congrArg Queue.batchDelay (old hasQueue))
    by_cases there : q < s.queues.size
    · rw [old there]
    · -- What is not there has no loop, nor has what is new.
      rw [queue_of_not_lt there, queue, Array.getD_eq_getD_getElem?, Array.getElem?_push]
      split
      · exact idle
      · rw [Array.getElem?_eq_none (Nat.le_of_not_lt there)]
        rfl

end Calm

def crewFrame (id : QueueId) (period : Duration) : Frame Session where
  always s := id < s.queues.size ∧ (s.queue id).batchDelay = period
  quiet := Calm id
  quiet_refl := .refl
  quiet_trans := .trans
  always_quiet known calm := ⟨calm.hasQueue known.1, calm.period.trans known.2⟩

variable {period : Duration}

theorem crew_forwarding (h : HandoffId) : AllowsForwarding (crewFrame id period) h fun _ => True where
  aside same := .of_setup same
  locks _ _ _ := .of_same rfl rfl rfl
  starts q known := .ensureRunning q known.1
  appends _ _ _ _ := .of_same rfl rfl rfl
  sets _ _ := .of_same rfl rfl rfl
  receives _ _ := .of_same rfl rfl rfl
  counts _ _ := .of_same rfl rfl rfl

theorem crew_jobs : AllowsJobs (crewFrame id period) where
  forwarding := crew_forwarding
  notes _ _ := .of_same rfl rfl rfl
  edits _ _ _ := .of_same rfl rfl rfl
  stops q _ := .stopLoop q

theorem crew_keeps_drain (q : QueueId) : Keeps (crewFrame id period) (drain q) :=
  crew_jobs.keeps_drain fun _ _ =>
    .setQueue rfl (fun _ => rfl) fun _ => rfl

theorem crew_keeps_job (job : Job) : Keeps (crewFrame id period) (Job.task job) :=
  crew_jobs.job { Keeps.composes with
    of_keeps := fun h => h
    gather := Confined.gather
    drain := crew_keeps_drain } job

end Session

end EventTracking
