import EventTracking.Proofs.Async.Protocol
import EventTracking.Proofs.Queue.Crew
import EventTracking.Proofs.Session.Commands
import Mathlib.Data.List.Nodup

set_option autoImplicit false

namespace EventTracking

def Async.isDone {σ α : Type} : Async σ α → Bool
  | .done _ => true
  | _ => false

namespace Session

open Async Change

namespace Workforce

end Workforce

inductive LoopChange : Session → Session → Prop
  | run (q : QueueId) (t : Transport) (s : Session) :
      LoopChange s (startLoop q (fun x task => x.run t task) s).2
  | ensureRunning (q : QueueId) (s : Session) : LoopChange s (ensureRunning q s).2
  | wire (q : QueueId) (inner : Transport) (s : Session) : LoopChange s (wire q inner s).2
  | setTransport (q : QueueId) (t : Transport) (s : Session) :
      LoopChange s (setQueue q ((s.queue q).setTransport t) s).2
  | stopLoop (q : QueueId) (s : Session) : LoopChange s (stopLoop q s).2
  | newQueue {s : Session} {x : Queue} (idle : x.loop = none) :
      LoopChange s { s with queues := s.queues.push x }
  | spawn {job : Job} (other : ∀ q, job ≠ .drains q) (s : Session) : LoopChange s (spawn? job s).2
  | other {s t : Session} (queues : t.queues = s.queues) (jobs : t.jobs = s.jobs)
      (staff : t.staff = s.staff) : LoopChange s t

variable {id : QueueId} {period : Duration} {s t : Session}

theorem LoopChange.calm (change : LoopChange s t) (hasQueue : id < s.queues.size) :
    Calm id s t := by
  cases change with
  | run q t => exact .startLoop hasQueue fun x => x.run_starts t
  | ensureRunning q => exact .ensureRunning q hasQueue
  | wire q inner =>
    have wired : Calm id s (setQueue q ((s.queue q).setTransport inner) s).2 :=
      .setQueue rfl (fun _ => rfl) fun _ => rfl
    exact wired.trans (.ensureRunning q (wired.hasQueue hasQueue))
  | setTransport q t => exact .setQueue rfl (fun _ => rfl) fun _ => rfl
  | stopLoop q => exact .stopLoop q
  | newQueue idle => exact .newQueue hasQueue idle
  | spawn other => exact .spawn (other id)
  | other queues jobs staff => exact .of_same queues jobs staff

theorem LoopChange.allowsCommands : AllowsCommands LoopChange where
  aside same :=
    .other (congrArg (·.1.queues) same) (congrArg (·.1.jobs) same) (congrArg Prod.snd same)
  closes _ _ _ := .other rfl rfl rfl
  notesClosed _ _ := .other rfl rfl rfl
  stops := .stopLoop
  newStore _ _ := .single (.other rfl rfl rfl)
  rigs _ _ _ := .other rfl rfl rfl
  newQueue idle _ := .newQueue idle
  connects := .setTransport
  runs q t s := .single (.run q t s)
  ensures q s := .single (.ensureRunning q s)
  newHandoff _ _ := .single (.other rfl rfl rfl)
  sends h e s := by
    rcases send_cases e h s with same | ⟨u, x, begun, _, setup⟩
    · rw [same]
    · have first : Relation.ReflTransGen LoopChange s u := by
        rcases begun with rfl | rfl
        · exact .refl
        · exact .single (.spawn (fun _ => Job.noConfusion) s)
      exact first.tail (.other (congrArg (·.1.queues) setup) (congrArg (·.1.jobs) setup)
        (congrArg Prod.snd setup))
  stamps _ _ := .single (.other rfl rfl rfl)
  spawns _ s := .single (.spawn (fun _ => Job.noConfusion) s)

def loopProtocol (id : QueueId) (period : Duration) : Protocol Session Bool where
  toFrame := crewFrame id period
  moves seen s seen' t := Calm id s t ∧ (seen' = seen ∨ (s.queue id).stopping = true)
  rests _ := True
  moves_quiet _ _ _ _ calm := ⟨calm, .inl rfl⟩

def LoopEnds (period : Duration) (seen : Bool) (a : Answer) : Prop :=
  seen = true ∨ ∃ fault, Ticker.Breaks period fault ∧ a = .broken fault

theorem obeys_unlessStopping {α : Type} {k : Task α} {x : α} {Q : Bool → α → Prop}
    (ends : Q true x) (goesOn : Obeys (loopProtocol id period) false k Q) :
    Obeys (loopProtocol id period) false (do
      if ← .get fun s => (s.queue id).stopping then
        return x
      k) Q := by
  refine Obeys.bind (Obeys.act fun s _ => ?_)
  by_cases stopping : (s.queue id).stopping = true
  · refine ⟨true, ⟨.refl s, .inr stopping⟩, ?_⟩
    change Obeys _ true (if (s.queue id).stopping = true then pure x else k) Q
    rw [if_pos stopping]
    exact ends
  · refine ⟨false, ⟨.refl s, .inl rfl⟩, ?_⟩
    change Obeys _ false (if (s.queue id).stopping = true then pure x else k) Q
    rw [if_neg stopping]
    exact goesOn

theorem obeys_drainTick {next : Option Duration}
    (lost : next = none → Ticker.Breaks period .tooLate) :
    Obeys (loopProtocol id period) false (drainTick id next) fun seen =>
      Sum.elim (fun _ => seen = false) (LoopEnds period seen) := by
  cases next with
  | none => exact .inr ⟨.tooLate, lost rfl, rfl⟩
  | some next =>
    refine obeys_unlessStopping (.inl rfl) ?_
    exact Obeys.keeps_bind (crew_keeps_drain id) trivial fun _ => rfl

theorem obeys_drainRound (ticks : Ticker.fault? period = none) (due : Duration) :
    Obeys (loopProtocol id period) false (drainRound id period due) fun seen =>
      Sum.elim (fun _ => seen = false) (LoopEnds period seen) := by
  have delivery : AllowsDelivery (crewFrame id period) fun _ => True := crew_jobs.delivery
  refine obeys_unlessStopping (.inl rfl) ?_
  refine Obeys.keeps_bind (delivery.sleepUntil _) trivial fun _ => ?_
  exact Obeys.bind (Obeys.get fun s _ => obeys_drainTick (Ticker.breaks_of_next? ticks))

theorem obeys_loop : Obeys (loopProtocol id period) false (drains id) (LoopEnds period) := by
  refine Obeys.bind (Obeys.get fun s known => ?_)
  have same : (s.queue id).batchDelay = period := known.2
  rw [same]
  cases refused : Ticker.fault? period with
  | some fault => exact .inr ⟨fault, Ticker.fault?_breaks refused, rfl⟩
  | none =>
    refine Obeys.keeps_bind (Keeps.get _) trivial fun start => ?_
    exact Obeys.iterate (fun seen _ => seen = false)
      (fun _ due going => by subst going; exact obeys_drainRound refused due) rfl

structure Worker.Sound (id : QueueId) (period : Duration) (aborted : List TaskId) (x : Worker) :
    Prop where
  keeps : Keeps (crewFrame id period) x.program
  -- A loop that has found the flag up has been aborted.
  loops : x.job = .drains id → ∃ seen, (seen = true → x.id ∈ aborted) ∧
    Obeys (loopProtocol id period) seen x.program (LoopEnds period)
  -- Where no first tick can be set a loop does nothing before it breaks down.
  stillborn : x.job = .drains id → ∀ fault, Ticker.fault? period = some fault →
    x.program = drains id ∨ x.program = .done (.broken fault)

namespace Worker.Sound

variable {aborted aborted' : List TaskId} {x : Worker}

theorem begin (n : TaskId) (job : Job) : Worker.Sound id period aborted ⟨n, job, Job.task job⟩ where
  keeps := crew_keeps_job job
  loops runs := ⟨false, nofun, by
    obtain rfl : job = .drains id := runs
    exact obeys_loop⟩
  stillborn runs fault _ := .inl (by
    obtain rfl : job = .drains id := runs
    rfl)

theorem mono (sound : x.Sound id period aborted) (more : x.id ∈ aborted → x.id ∈ aborted') :
    x.Sound id period aborted' where
  keeps := sound.keeps
  loops runs := by
    obtain ⟨seen, told, obeys⟩ := sound.loops runs
    exact ⟨seen, fun h => more (told h), obeys⟩
  stillborn := sound.stillborn

theorem of_done (sound : x.Sound id period aborted) {a : Answer} (done : x.program = .done a)
    (runs : x.job = .drains id) :
    x.id ∈ aborted ∨ ∃ fault, Ticker.Breaks period fault ∧ a = .broken fault := by
  obtain ⟨seen, told, obeys⟩ := sound.loops runs
  rw [done] at obeys
  exact Or.imp_left told obeys

theorem step_drains {fault : Ticker.Fault} {program : Task Answer}
    (known : (crewFrame id period).always s) (refused : Ticker.fault? period = some fault)
    (go : Async.Step (drains id) s program t) : program = .done (.broken fault) := by
  have same : (s.queue id).batchDelay = period := known.2
  cases go with
  | work =>
    simp only [same, Async.bind, refused]
    rfl

theorem work {crew : List (TaskId × Job)} {program : Task Answer}
    (sound : x.Sound id period s.aborted) (known : (crewFrame id period).always s)
    (crewed : Crewed id s crew) (listed : x.entry ∈ crew)
    (go : Async.Step x.program s program t) :
    Calm id s t ∧ Worker.Sound id period t.aborted { x with program } := by
  obtain ⟨calm, keeps⟩ := sound.keeps.step known go
  refine ⟨calm, keeps, fun runs => ?_, fun runs fault refused => ?_⟩
  · obtain ⟨seen, told, obeys⟩ := sound.loops runs
    obtain ⟨seen', ⟨_, found⟩, obeys'⟩ := obeys.step known go
    refine ⟨seen', fun sees => calm.aborted ?_, obeys'⟩
    rcases found with same | stopping
    · exact told (same ▸ sees)
    · have loop : (x.id, .drains id) ∈ crew := by
        rw [← runs]
        exact listed
      exact crewed.aborted_of_stopping loop stopping
  · rcases sound.stillborn runs fault refused with new | ended
    · exact .inr (step_drains known refused (new ▸ go))
    · rw [ended] at go
      cases go

end Worker.Sound

namespace Workforce

structure Sound (id : QueueId) (period : Duration) (w : Workforce) : Prop where
  known : (crewFrame id period).always w.session
  crewed : Crewed id w.session w.crew
  workers : ∀ x ∈ w.workers, x.Sound id period w.session.aborted
  callers : ∀ a ∈ w.callers, Keeps (crewFrame id period) a

namespace Sound

variable {workers before after : List Worker} {callers : List (Task Answer)} {x : Worker}

theorem calm (sound : Sound id period ⟨s, workers, callers⟩) (calm : Calm id s t) :
    Sound id period ⟨t, workers, callers⟩ where
  known := (crewFrame id period).always_quiet sound.known calm
  crewed := calm.crewed sound.crewed
  workers x mine := (sound.workers x mine).mono fun h => calm.aborted h
  callers := sound.callers

theorem leave {a : Answer} {aborted : List TaskId}
    (sound : Sound id period ⟨s, before ++ x :: after, callers⟩)
    (gone : x.job = .drains id → x.id ∈ s.aborted ∨
      ∃ fault, Ticker.Breaks period fault ∧ a = .broken fault) (kept : aborted ⊆ s.aborted)
    (same : ∀ m, m ≠ x.id → m ∈ s.aborted → m ∈ aborted) :
    Sound id period ⟨(finishTask x.id a { s with aborted }).2, before ++ after, callers⟩ := by
  have first : Crewed id s (x.entry :: (s.jobs ++ (before ++ after).map Worker.entry)) := by
    refine sound.crewed.perm ?_
    simp only [crew, List.map_append, List.map_cons, ← List.append_assoc]
    exact List.perm_middle
  refine ⟨sound.known, first.leave (sound.known.2 ▸ gone) kept same rfl rfl, fun y mine => ?_,
    sound.callers⟩
  have listed : y.entry ∈ s.jobs ++ (before ++ after).map Worker.entry :=
    List.mem_append_right _ (List.mem_map_of_mem mine)
  have other : y.id ≠ x.id := first.toNumbered.other listed
  have old : y ∈ before ++ x :: after := by
    rcases List.mem_append.1 mine with h | h
    · exact List.mem_append_left _ h
    · exact List.mem_append_right _ (List.mem_cons_of_mem _ h)
  exact (sound.workers y old).mono fun h => same _ other h

theorem begin {n : TaskId} {job : Job} (sound : Sound id period ⟨s, workers, callers⟩)
    (begun : s.begin? n = some (job, t)) :
    Sound id period ⟨t, workers ++ [⟨n, job, Job.task job⟩], callers⟩ := by
  obtain ⟨listed, rfl⟩ := begin?_eq_some begun
  have crewed : Crewed id s (s.jobs ++ workers.map Worker.entry) := sound.crewed
  have distinct : (s.jobs.map Prod.fst).Nodup :=
    crewed.distinct.sublist ((List.sublist_append_left _ _).map _)
  have moved : (s.jobs ++ workers.map Worker.entry).Perm
      ((s.jobs.filter fun j => j.1 != n) ++ (workers.map Worker.entry ++ [(n, job)])) := by
    rw [← List.append_assoc]
    exact ((perm_taken listed distinct).append_right _).trans (List.perm_append_singleton _ _).symm
  refine ⟨sound.known, ?_, fun x mine => ?_, sound.callers⟩
  · have kept : Crewed id { s with jobs := s.jobs.filter fun j => j.1 != n } _ :=
      (crewed.perm moved).of_same rfl (fun _ => rfl) rfl rfl
    simpa [crew, Worker.entry] using kept
  · rcases List.mem_append.1 mine with old | new
    · exact sound.workers x old
    · rw [List.mem_singleton.1 new]
      exact .begin n job

theorem work {program : Task Answer} (sound : Sound id period ⟨s, before ++ x :: after, callers⟩)
    (go : Async.Step x.program s program t) :
    Sound id period ⟨t, before ++ { x with program } :: after, callers⟩ := by
  have mine : x ∈ before ++ x :: after := by simp
  have listed : x.entry ∈ s.jobs ++ (before ++ x :: after).map Worker.entry :=
    List.mem_append_right _ (List.mem_map_of_mem mine)
  obtain ⟨calm, next⟩ := (sound.workers x mine).work sound.known sound.crewed listed go
  obtain ⟨known, crewed, workers, callers⟩ := sound.calm calm
  refine ⟨known, ?_, fun y hy => ?_, callers⟩
  · simpa [crew, Worker.entry] using crewed
  · simp only [List.mem_append, List.mem_cons] at hy workers
    rcases hy with old | rfl | old
    · exact workers y (.inl old)
    · exact next
    · exact workers y (.inr (.inr old))

theorem call {a b : Task Answer} {before after : List (Task Answer)}
    (sound : Sound id period ⟨s, workers, before ++ a :: after⟩) (go : Async.Step a s b t) :
    Sound id period ⟨t, workers, before ++ b :: after⟩ := by
  obtain ⟨calm, keeps⟩ := (sound.callers a (by simp)).step sound.known go
  obtain ⟨known, crewed, workers, callers⟩ := sound.calm calm
  refine ⟨known, crewed, workers, fun c hc => ?_⟩
  simp only [List.mem_append, List.mem_cons] at hc callers
  rcases hc with old | rfl | old
  · exact callers c (.inl old)
  · exact keeps
  · exact callers c (.inr (.inr old))

theorem move {w w' : Workforce} (sound : Sound id period w) (move : Move LoopChange w w') :
    Sound id period w' := by
  cases move with
  | begin begun => exact sound.begin begun
  | work go => exact sound.work go
  | @finish x a done s before after =>
    have gone := (sound.workers x (by simp)).of_done done
    exact sound.leave gone (fun _ h => h) fun _ _ h => h
  | @giveUp s x aborted before after =>
    have calm : Calm id s (x.program.abandon s) :=
      (sound.workers x (by simp)).keeps.abandon sound.known
    refine (sound.calm calm).leave (fun _ => .inl (calm.aborted aborted))
      (fun _ kept => (List.mem_filter.1 kept).1) fun m other listed => ?_
    exact List.mem_filter.2 ⟨listed, by simpa using other⟩
  | come e =>
    refine ⟨sound.known, sound.crewed, sound.workers, fun a mine => ?_⟩
    rcases List.mem_append.1 mine with old | new
    · exact sound.callers a old
    · exact List.mem_singleton.1 new ▸ crew_keeps_job (.errand e)
  | call go => exact sound.call go
  | leave a s workers before after =>
    have calm := (sound.callers a (by simp)).abandon sound.known
    obtain ⟨known, crewed, workers, callers⟩ := sound.calm calm
    refine ⟨known, crewed, workers, fun c hc => callers c ?_⟩
    simp only [List.mem_append, List.mem_cons] at hc ⊢
    exact hc.imp_right .inr
  | change changes => exact sound.calm (changes.calm sound.known.1)

theorem course {w w' : Workforce} (sound : Sound id period w) (course : Course LoopChange w w') :
    Sound id period w' := by
  induction course with
  | refl => exact sound
  | tail _ next ih => exact ih.move next

end Sound

end Workforce

-- A queue whose loop has never run, in a session that counts its tasks.
structure NewLoop (id : QueueId) (s : Session) : Prop where
  hasQueue : id < s.queues.size
  hasRuntime : s.hasRuntime = true
  idle : (s.queue id).loop = none
  nobody : ∀ n, (n, .drains id) ∉ s.jobs
  numbered : Numbered s s.jobs
  loops_lt : ∀ q n, (s.queue q).loop = some n → n < s.nextTask

theorem NewLoop.sound (new : NewLoop id s) :
    Workforce.Sound id (s.queue id).batchDelay ⟨s, [], []⟩ where
  known := ⟨new.hasQueue, rfl⟩
  crewed := by
    change Crewed id s (s.jobs ++ [])
    rw [List.append_nil]
    refine { new.numbered with
      hasRuntime := new.hasRuntime
      handle n listed := absurd listed (new.nobody n)
      handled n loop := nomatch new.idle.symm.trans loop
      steady := fun running => ?_
      others := fun q n _ loop => ?_ }
    · rw [Queue.isRunning, new.idle] at running
      cases running
    · exact ⟨new.loops_lt q n loop, new.nobody n⟩
  workers := by simp
  callers := by simp

theorem NewLoop.reached (new : NewLoop id s) (cs : List Command) :
    ∃ callers, Reached LoopChange ⟨s, [], []⟩ callers (Runtime.after ⟨s, []⟩ cs) :=
  (Reached.start s).after LoopChange.allowsCommands.toAllowsTurns
    (fun _ course => (new.sound.course course).crewed.distinct) LoopChange.allowsCommands.prepare cs

theorem loop_after {cs : List Command} {rt : Runtime} {n : TaskId} (new : NewLoop id s)
    (ran : Runtime.after ⟨s, []⟩ cs = rt) (loop : (rt.session.queue id).loop = some n) :
    (((n, .drains id) ∈ rt.session.jobs ∨ n ∈ rt.suspended.map Prod.fst) ∧
        n ∉ rt.session.aborted ∨ BrokeDown id rt.session n) ∧
      (rt.session.queue id).stopping = false := by
  obtain ⟨callers, workers, course, suspended⟩ := new.reached cs
  rw [ran] at course suspended
  have sound := new.sound.course course
  refine ⟨?_, sound.crewed.steady (by rw [Queue.isRunning, loop]; rfl)⟩
  refine (sound.crewed.handled n loop).imp_left fun handled => ⟨?_, handled.2⟩
  rcases List.mem_append.1 handled.1 with waits | begun
  · exact .inl waits
  · obtain ⟨x, mine, same⟩ := List.mem_map.1 begun
    obtain ⟨rfl, _⟩ := Prod.mk.inj same
    refine .inr (List.mem_map.2 ⟨x.waiting, ?_, rfl⟩)
    exact suspended.mem_iff.2 (List.mem_map_of_mem mine)

end Session

end EventTracking
