import EventTracking.Proofs.Queue.Solitude
import EventTracking.Proofs.Waiting.Verdict

set_option autoImplicit false

namespace EventTracking

open Relation (ReflTransGen)

namespace Async

variable {σ α : Type} {R : σ → σ → Prop} {s : σ}

theorem Passes.last_look {look : σ → Option α × σ} {leave : σ → σ}
    {steps : List (σ × σ)} {x : α} (h : Passes (await look leave) steps (.done x)) :
    ∃ early t, steps = early ++ [(t, (look t).2)] ∧ (look t).1 = some x := by
  generalize begun : await look leave = whole at h
  generalize ended : done x = last at h
  induction h with
  | stay => exact nomatch begun.trans ended.symm
  | @step _ _ _ t _ _ step goesOn ih =>
    subst begun
    cases step with
    | ready _ _ now =>
      subst ended
      obtain ⟨rfl, same⟩ := goesOn.of_done
      cases same
      exact ⟨[], t, rfl, now⟩
    | early =>
      obtain ⟨early, u, rfl, found⟩ := ih rfl ended
      exact ⟨_ :: early, u, rfl, found⟩

theorem Settles.await_while {I : σ → Prop}
    {look : σ → Option α × σ} {leave : σ → σ} {Q : α → σ → Prop} (here : I s)
    (outside : ∀ {s t}, I s → R s t → I t) (looks : ∀ t, I t → I (look t).2)
    (happens : ∀ t, I t → ∃ u, ReflTransGen R t u ∧ (look u).1 ≠ none)
    (gives : ∀ t x, I t → (look t).1 = some x → ∀ u, ReflTransGen R (look t).2 u → Q x u) :
    Settles R (Async.await look leave) s fun _ x u => Q x u := by
  have kept {steps : List (σ × σ)} {t : σ} (own : ∀ p ∈ steps, p.2 = (look p.1).2)
      (linked : Linked R s steps t) : I t :=
    linked.keeps outside (fun p mem hp => own p mem ▸ looks p.1 hp) here
  constructor
  · intro steps b t trail
    obtain rfl | ⟨x, rfl, _⟩ := trail.passes.of_await
    · obtain ⟨u, changes, happened⟩ := happens t (kept trail.passes.look trail.linked)
      obtain ⟨x, found⟩ := Option.ne_none_iff_exists'.1 happened
      exact ⟨[(u, (look u).2)], x, _, .step (.ready _ _ found) .stay, .step changes (.last .refl)⟩
    · exact ⟨[], x, t, .stay, .last .refl⟩
  · intro steps x t trail
    obtain ⟨early, u, rfl, found⟩ := trail.passes.last_look
    obtain ⟨v, before, last⟩ := trail.linked.split
    obtain ⟨changes, after⟩ := last.of_cons
    have own : ∀ p ∈ early, p.2 = (look p.1).2 := fun p mem =>
      trail.passes.look p (List.mem_append_left _ mem)
    exact gives u x (kept own (before.after changes)) found t after.of_nil

end Async

namespace Session

open Async Waiting

def waitRound (ask : Task Bool) (pause : Duration) (start timeout : Nat) :
    Task (Unit ⊕ Bool) := do
  let holds ← ask
  match judge timeout holds ((← .get fun s => s.scheduler.now) - start) with
  | .held => return .inr true
  | .expired => return .inr false
  | .askAgain =>
    sleep pause
    return .inl ()

def waitFor (ask : Task Bool) (pause : Duration) (timeout : Nat) : Task Bool := do
  let start ← .get fun s => s.scheduler.now
  Async.iterate (fun () => waitRound ask pause start timeout) ()

theorem waitUntilIdle_eq (id : QueueId) (timeout : Nat) :
    waitUntilIdle id timeout = waitFor (isIdle id) pollInterval timeout := rfl

variable {s t u : Session} {R : Session → Session → Prop} {n time interval cost timeout : Nat}
  {stage : Nat → Session → Prop} {α : Type}

section Clock

variable {a b : Scheduler}

theorem sameClock_wake (a : Scheduler) (task : TaskId) : SameClock a (a.wake task) := by
  fun_cases Scheduler.wake <;> exact ⟨rfl, rfl⟩

theorem sameClock_wakeAll (a : Scheduler) (tasks : List TaskId) :
    SameClock a (a.wakeAll tasks) := by
  induction tasks generalizing a with
  | nil => exact .refl a
  | cons task tasks ih =>
    have first := sameClock_wake a task
    have rest := ih (a.wake task)
    exact ⟨rest.now.trans first.now, rest.timers.trans first.timers⟩

theorem advance?_rested (rested : a.timers = []) : a.advance? = none := by
  simp [Scheduler.advance?, Scheduler.nextDue, rested]

theorem advance?_single {x : Timer} (single : a.timers = [x]) :
    ∃ b, a.advance? = some b ∧ b.now = x.due ∧ b.timers = [] := by
  have woken := sameClock_wakeAll { a with now := x.due, timers := [] } [x.task]
  refine ⟨_, ?_, woken.now, woken.timers⟩
  simp [Scheduler.advance?, Scheduler.nextDue, single]

structure Clocked (R : Session → Session → Prop) : Prop where
  turns : ∀ s scheduler, SameClock s.scheduler scheduler → R s { s with scheduler }
  advances : ∀ s scheduler, s.scheduler.advance? = some scheduler → R s { s with scheduler }
  only : ∀ {s t}, R s t →
    SameClock s.scheduler t.scheduler ∨ s.scheduler.advance? = some t.scheduler

end Clock

structure Rests (stage : Nat → Session → Prop) (n time : Nat) (s : Session) : Prop where
  staged : stage n s
  timers : s.scheduler.timers = []
  now : s.scheduler.now = time

structure Stages (R : Session → Session → Prop) (stage : Nat → Session → Prop) : Prop where
  outside : ∀ {n s t}, stage n s → R s t → stage n t
  blind : ∀ {n s} scheduler, stage n s → stage n { s with scheduler }

section Sleeping

variable (clock : Clocked R) (stages : Stages R stage)

include clock stages

theorem Rests.outside (rests : Rests stage n time s) (change : R s t) : Rests stage n time t := by
  have staged := stages.outside rests.staged change
  rcases clock.only change with same | moved
  · exact ⟨staged, same.timers.trans rests.timers, same.now.trans rests.now⟩
  · rw [advance?_rested rests.timers] at moved
    exact nomatch moved

theorem Rests.later (rests : Rests stage n time s) (changes : ReflTransGen R s t) :
    Rests stage n time t := by
  induction changes with
  | refl => exact rests
  | tail _ change ih => exact ih.outside clock stages change

omit clock in
theorem Rests.same {scheduler : Scheduler} (rests : Rests stage n time s)
    (same : SameClock s.scheduler scheduler) : Rests stage n time { s with scheduler } :=
  ⟨stages.blind scheduler rests.staged, same.timers.trans rests.timers, same.now.trans rests.now⟩

theorem settles_allowance {look : Session → Option Unit × Session}
    (same : ∀ t, ∃ scheduler, SameClock t.scheduler scheduler ∧ (look t).2 = { t with scheduler })
    (ready : ∀ t : Session, (look { t with scheduler.left := 1 }).1 ≠ none)
    (rests : Rests stage n time s) :
    Settles R (Async.await look) s fun _ _ t => Rests stage n time t := by
  have looks (t : Session) (h : Rests stage n time t) : Rests stage n time (look t).2 := by
    obtain ⟨scheduler, kept, after⟩ := same t
    exact after ▸ h.same stages kept
  refine .await_while (I := Rests stage n time) rests (fun h => h.outside clock stages) looks
    (fun t _ => ?_) fun t _ h _ u changes => (looks t h).later clock stages changes
  exact ⟨_, .single (clock.turns t { t.scheduler with left := 1 } ⟨rfl, rfl⟩), ready t⟩

theorem settles_proceed_clock (rests : Rests stage n time s) :
    Settles R proceed s fun _ _ t => Rests stage n time t := by
  refine settles_allowance clock stages (fun t => ?_) (fun t => ?_) rests
  · obtain ⟨scheduler, same, after, -⟩ := whenAllowed_look (fun _ => some ()) t
    exact ⟨scheduler, same, after⟩
  · rw [whenAllowed_replenished (fun _ => some ()) t]
    exact nofun

theorem settles_breathe_clock (rests : Rests stage n time s) :
    Settles R breathe s fun _ _ t => Rests stage n time t := by
  refine settles_allowance clock stages (fun t => ?_) (fun t => by simp) rests
  split
  · exact ⟨t.scheduler.giveWay, ⟨rfl, rfl⟩, rfl⟩
  · exact ⟨t.scheduler, .refl _, rfl⟩

structure Sleeps (stage : Nat → Session → Prop) (n time : Nat) (x : Timer) (s : Session) :
    Prop where
  staged : stage n s
  clock : (s.scheduler.timers = [x] ∧ s.scheduler.now = time) ∨
    (s.scheduler.timers = [] ∧ s.scheduler.now = x.due)

theorem Sleeps.outside {x : Timer} (sleeps : Sleeps stage n time x s) (change : R s t) :
    Sleeps stage n time x t := by
  refine ⟨stages.outside sleeps.staged change, ?_⟩
  rcases clock.only change with same | moved
  · rw [same.timers, same.now]
    exact sleeps.clock
  · rcases sleeps.clock with ⟨single, -⟩ | ⟨none, -⟩
    · obtain ⟨scheduler, advanced, now, timers⟩ := advance?_single single
      obtain rfl : scheduler = t.scheduler := Option.some.inj (advanced.symm.trans moved)
      exact .inr ⟨timers, now⟩
    · rw [advance?_rested none] at moved
      exact nomatch moved

theorem settles_timer {x : Timer} (sleeps : Sleeps stage n time x s) :
    Settles R (Async.await (whenAllowed (when fun s => !s.scheduler.isSet x.id))
      fun s => { s with scheduler := s.scheduler.clearTimer x.id }) s
      fun _ _ t => Rests stage n x.due t := by
  let look (s : Session) : Option Unit := if !s.scheduler.isSet x.id then some () else none
  have gone {t : Session} (sleeps : Sleeps stage n time x t) (seen : look t ≠ none) :
      Rests stage n x.due t := by
    rcases sleeps.clock with ⟨single, -⟩ | ⟨none, now⟩
    · simp [look, Scheduler.isSet, single] at seen
    · exact ⟨sleeps.staged, none, now⟩
  have rested {t : Session} (rests : Rests stage n x.due t) : look t ≠ none := by
    simp [look, Scheduler.isSet, rests.timers]
  -- The clock may move to the timer before anybody looks: both sides of that are one invariant.
  refine .await_while (I := Sleeps stage n time x) sleeps (fun h => h.outside clock stages)
    (fun t h => ?_) (fun t h => ?_) fun t _ h found u changes => ?_
  · obtain ⟨scheduler, same, after, -⟩ := whenAllowed_look look t
    refine after ▸ ⟨stages.blind scheduler h.staged, ?_⟩
    rw [same.timers, same.now]
    exact h.clock
  · obtain ⟨v, changes, rests⟩ : ∃ v, ReflTransGen R t v ∧ Rests stage n x.due v := by
      rcases h.clock with ⟨single, -⟩ | ⟨none, now⟩
      · obtain ⟨scheduler, advanced, now, timers⟩ := advance?_single single
        exact ⟨_, .single (clock.advances t scheduler advanced),
          stages.blind scheduler h.staged, timers, now⟩
      · exact ⟨t, .refl, h.staged, none, now⟩
    have allowed : SameClock v.scheduler { v.scheduler with left := 1 } := ⟨rfl, rfl⟩
    refine ⟨_, changes.tail (clock.turns v _ allowed), ?_⟩
    have seen := whenAllowed_replenished look v
    change (whenAllowed (fun s => (look s, s)) { v with scheduler.left := 1 }).1 ≠ none
    rw [seen]
    exact rested (rests.same stages allowed)
  · obtain ⟨scheduler, same, after, none | seen⟩ := whenAllowed_look look t
    · exact absurd (none.symm.trans found) (Option.some_ne_none _).symm
    · have rests := gone h (Option.ne_none_iff_exists'.2 ⟨_, seen.symm.trans found⟩)
      exact (rests.same stages same).later clock stages (after ▸ changes)

theorem Sleeps.later {x : Timer} (sleeps : Sleeps stage n time x s)
    (changes : ReflTransGen R s t) : Sleeps stage n time x t := by
  induction changes with
  | refl => exact sleeps
  | tail _ change ih => exact ih.outside clock stages change

theorem settles_sleepUntil_clock (due : Nat) (rests : Rests stage n time s) :
    Settles R (sleepUntil due) s fun _ _ t => Rests stage n (max due time) t := by
  refine Settles.bind ((settles_breathe_clock clock stages rests).mono fun _ _ t here => ?_)
  refine Settles.bind (Settles.act fun u changes v later => ?_)
  have before := here.later clock stages changes
  by_cases come : due ≤ u.scheduler.now
  · have unset : u.scheduler.setTimer due = (none, u.scheduler) := if_pos come
    simp only [unset] at later ⊢
    have latest : max due time = time := max_eq_right (before.now ▸ come)
    rw [latest]
    exact settles_proceed_clock clock stages (before.later clock stages later)
  · let x : Timer := ⟨u.scheduler.nextTimer, due, u.scheduler.running⟩
    have set : u.scheduler.setTimer due = (some x.id, { u.scheduler with
        timers := u.scheduler.timers ++ [x], nextTimer := u.scheduler.nextTimer + 1 }) :=
      if_neg come
    simp only [set] at later ⊢
    have latest : max due time = x.due :=
      max_eq_left (before.now ▸ Nat.le_of_not_le come)
    rw [latest]
    refine settles_timer clock stages
      (Sleeps.later clock stages (?_ : Sleeps stage n time x _) later)
    refine ⟨stages.blind _ before.staged, .inl ⟨?_, before.now⟩⟩
    change u.scheduler.timers ++ [x] = [x]
    rw [before.timers, List.nil_append]

def Takes (pause : Duration) (interval : Nat) : Prop :=
  ∀ scheduler : Scheduler, scheduler.dueAfter pause = scheduler.now + interval

theorem settles_sleep_clock {pause : Duration} (takes : Takes pause interval)
    (rests : Rests stage n time s) :
    Settles R (sleep pause) s fun _ _ t => Rests stage n (time + interval) t := by
  refine Settles.bind (Settles.act fun u changes v later => ?_)
  have before := rests.later clock stages changes
  have due : u.scheduler.dueAfter pause = time + interval := by
    rw [takes, before.now]
  have latest : max (time + interval) time = time + interval := by omega
  have slept := settles_sleepUntil_clock clock stages (time + interval)
    (before.later clock stages later)
  rw [latest] at slept
  change Settles R (sleepUntil (u.scheduler.dueAfter pause)) v _
  rw [due]
  exact slept

end Sleeping

theorem takes_ofMillis (fits : interval < Nat.pow 2 62 * 1000) :
    Takes (Duration.ofMillis interval) interval := by
  intro scheduler
  change interval < 2 ^ 62 * 1000 at fits
  have short : ¬Duration.clockRange ≤ Duration.ofMillis interval := by
    change ¬(2 ^ 62 * 10 ^ 9 ≤ interval * 10 ^ 6)
    omega
  have whole : (Duration.ofMillis interval + 999999) / Nat.pow 10 6 = interval := by
    change (interval * 10 ^ 6 + 999999) / 10 ^ 6 = interval
    omega
  rw [Scheduler.dueAfter, if_neg short, whole]

section Asking

structure Asks (R : Session → Session → Prop) (ask : Task Bool)
    (stage : Nat → Session → Prop) (cost : Nat) (holds : Nat → Bool) : Prop where
  answers : ∀ {n time s}, Rests stage n time s → Settles R ask s fun _ b t =>
    b = holds (n + 1) ∧ Rests stage (n + 1) (time + cost) t

variable {ask : Task Bool} {pause : Duration} {holds : Nat → Bool} {start stop : Nat}
  (clock : Clocked R) (stages : Stages R stage) (asks : Asks R ask stage cost holds)
  (takes : Takes pause interval)

include clock stages asks takes

theorem settles_waitRound (rests : Rests stage n (start + n * (cost + interval)) s) :
    Settles R (waitRound ask pause start timeout) s fun _ r t =>
      match judge timeout (holds (n + 1)) (endOf interval cost (n + 1)) with
      | .held => r = .inr true ∧ Rests stage (n + 1) (start + endOf interval cost (n + 1)) t
      | .expired => r = .inr false ∧ Rests stage (n + 1) (start + endOf interval cost (n + 1)) t
      | .askAgain => r = .inl () ∧
          Rests stage (n + 1) (start + (n + 1) * (cost + interval)) t := by
  refine Settles.bind ((asks.answers rests).mono fun _ b t answered => ?_)
  obtain ⟨rfl, there⟩ := answered
  refine Settles.bind (Settles.act fun u changes v later => ?_)
  have here := there.later clock stages changes
  have next := here.later clock stages later
  have time : start + n * (cost + interval) + cost = start + endOf interval cost (n + 1) := by
    rw [endOf_succ, Nat.add_assoc]
  have elapsed : u.scheduler.now - start = endOf interval cost (n + 1) := by
    rw [here.now, time, Nat.add_sub_cancel_left]
  rw [time] at next
  simp only [elapsed]
  cases judge timeout (holds (n + 1)) (endOf interval cost (n + 1)) with
  | held | expired =>
    exact Settles.pure fun w last => ⟨rfl, next.later clock stages last⟩
  | askAgain =>
    refine Settles.bind ((settles_sleep_clock clock stages takes next).mono fun _ _ w rested => ?_)
    refine Settles.pure fun x last => ⟨rfl, ?_⟩
    have whole : endOf interval cost (n + 1) + interval = (n + 1) * (cost + interval) := by
      rw [endOf_succ, Nat.succ_mul, Nat.add_assoc]
    rw [← whole, ← Nat.add_assoc]
    exact rested.later clock stages last

theorem settles_rounds (decides : Decides interval timeout cost holds stop) (before : n < stop)
    (rests : Rests stage n (start + n * (cost + interval)) s) :
    Settles R (Async.iterate (fun () => waitRound ask pause start timeout) ()) s fun _ b t =>
      b = holds stop ∧ Rests stage stop (start + endOf interval cost stop) t := by
  -- The questions that are left carry the induction: each round takes one of them.
  induction left : stop - n generalizing n s with
  | zero => omega
  | succ k ih =>
    refine Settles.iterate ((settles_waitRound clock stages asks takes rests).mono ?_)
    intro steps r t result
    by_cases last : n + 1 = stop
    · subst last
      rw [decides.judge_eq] at result
      cases verdict : holds (n + 1) with
      | false =>
        rw [verdict] at result
        obtain ⟨rfl, there⟩ := result
        exact fun u more => ⟨rfl, there.later clock stages more⟩
      | true =>
        rw [verdict] at result
        obtain ⟨rfl, there⟩ := result
        exact fun u more => ⟨rfl, there.later clock stages more⟩
    · rw [decides.undecided (n + 1) (by omega) (by omega)] at result
      obtain ⟨rfl, there⟩ := result
      exact ih (by omega) there (by omega)

theorem settles_waitFor (decides : Decides interval timeout cost holds stop)
    (rests : Rests stage 0 start s) :
    Settles R (waitFor ask pause timeout) s fun _ b t =>
      b = holds stop ∧ Rests stage stop (start + endOf interval cost stop) t := by
  refine Settles.bind (Settles.act fun u changes v later => ?_)
  have here := rests.later clock stages changes
  have first : Rests stage 0 (start + 0 * (cost + interval)) v := by
    rw [Nat.zero_mul]
    exact here.later clock stages later
  have rounds := settles_rounds clock stages asks takes decides decides.first first
  exact here.now ▸ rounds

end Asking

/-- For whichever interval, timeout and length of a question, unless all of it takes no time: let
question `m` be the first one that ends when the time is up. If the condition holds by then the wait
ends with the first question where it does, and else with question `m`; the rounds that there are
have nothing to do with it. So it is asked once at least, is not given up too early, and ends at
most a round late. On the clock of a session a wait does the same, wherever the questions are asked,
and the wait for an idle queue is such a wait. -/
theorem waitFor_verdict (interval timeout cost : Nat) (holdsFrom : Option Nat)
    (passes : 1 ≤ interval + cost) (first : ∀ n, holdsFrom = some n → 1 ≤ n) :
    ∃ m, IsDeadline interval timeout cost m ∧
      let r := waitUntil interval timeout cost holdsFrom
      (∀ n, holdsFrom = some n → n ≤ m → r = ⟨true, n, endOf interval cost n⟩) ∧
      ((∀ n, holdsFrom = some n → m < n) → r = ⟨false, m, endOf interval cost m⟩) ∧
      (∀ rounds, r.calls ≤ rounds →
        poll interval timeout cost (holdsAt holdsFrom) rounds 0 0 = r) ∧
      1 ≤ r.calls ∧ (r.held = false → timeout ≤ r.elapsed) ∧
      r.elapsed ≤ timeout + interval + cost ∧
      (∀ id, waitUntilIdle id timeout = waitFor (isIdle id) pollInterval timeout) ∧
      ∀ (R : Session → Session → Prop) (stage : Nat → Session → Prop) (ask : Task Bool)
        (pause : Duration) (start : Nat) (s : Session), Clocked R → Stages R stage →
        Asks R ask stage cost (holdsAt holdsFrom) → Takes pause interval → Rests stage 0 start s →
        Settles R (waitFor ask pause timeout) s fun _ b t =>
          b = r.held ∧ Rests stage r.calls (start + r.elapsed) t := by
  obtain ⟨m, deadline⟩ := exists_deadline passes timeout
  have decides := decides_stopAt deadline first
  have result := waitUntil_eq passes deadline first
  have within : endOf interval cost (stopAt holdsFrom m) ≤ timeout + interval + cost :=
    (endOf_le (stopAt_le holdsFrom m)).trans deadline.endOf_le
  refine ⟨m, deadline, ?_⟩
  simp only [result]
  refine ⟨fun n holds before => ?_, fun late => ?_, fun rounds => poll_eq deadline first,
    decides.first, fun unheld => ?_, within, fun id => waitUntilIdle_eq id timeout,
    fun R stage ask pause start s clock stages asks takes rests =>
      settles_waitFor clock stages asks takes decides rests⟩
  · rw [holds, stopAt_of_le before]
    simp [holdsAt]
  · rw [stopAt_of_late late, holdsAt_of_late late]
  · exact decides.decided.resolve_left (unheld ▸ Bool.false_ne_true)

section Queue

variable {id : QueueId} {k : StoreId} {size : Nat} {t : Transport} {flag : Bool} {l : List Event}

theorem stages_filled (elsewhere : ∀ {s u}, R s u → Elsewhere id k s u) :
    Stages R fun _ => Filled id k size t flag l where
  outside filled change := (elsewhere change).filled filled
  blind scheduler filled := (Elsewhere.scheduler _ scheduler).filled filled

theorem Rests.asked (rests : Rests (fun _ => Filled id k size t flag l) n time s) :
    Rests (fun _ => Filled id k size t flag l) (n + 1) (time + 0) s :=
  ⟨rests.staged, rests.timers, rests.now⟩

theorem settles_storeLength_clock (clock : Clocked R)
    (elsewhere : ∀ {s u}, R s u → Elsewhere id k s u)
    (rests : Rests (fun _ => Filled id k size t flag l) n time s) :
    Settles R (storeLength k) s fun _ r u =>
      r = .ok l.length ∧ Rests (fun _ => Filled id k size t flag l) n time u := by
  have stages : Stages R fun _ => Filled id k size t flag l := stages_filled elsewhere
  refine Settles.bind (Settles.act fun u changes v later => ?_)
  have here := rests.later clock stages changes
  have accepts : (u.store k).refusal? .length = none := by
    simp [Store.refusal?, here.staged.inMemory]
  simp only [accepts, here.staged.inMemory]
  refine Settles.bind ((settles_proceed_clock clock stages
    (here.later clock stages later)).mono fun _ _ w went => ?_)
  refine Settles.act fun x changes' y later' => ?_
  have there := went.later clock stages changes'
  refine ⟨?_, there.later clock stages later'⟩
  change Except.ok (x.store k).events.length = _
  rw [there.staged.events_eq]

theorem asks_isIdle (clock : Clocked R) (elsewhere : ∀ {s u}, R s u → Elsewhere id k s u) :
    Asks R (isIdle id) (fun _ => Filled id k size t flag l) 0 fun _ => !flag && l.isEmpty where
  answers {n time s} rests := by
    have stages : Stages R fun _ => Filled id k size t flag l := stages_filled elsewhere
    refine Settles.bind (Settles.act fun u changes v later => ?_)
    have here := rests.later clock stages changes
    have next := here.later clock stages later
    have flag_eq : (u.queue id).processing = flag := here.staged.flag_eq
    have store_eq : (u.queue id).store = k := here.staged.store_eq
    simp only [flag_eq, store_eq]
    cases flag with
    | true =>
      exact Settles.pure fun w last => ⟨by simp, (next.later clock stages last).asked⟩
    | false =>
      have counted := settles_storeLength_clock clock elsewhere next
      refine Settles.bind (counted.mono fun _ r w found => ?_)
      obtain ⟨rfl, there⟩ := found
      refine Settles.pure fun x last => ⟨?_, (there.later clock stages last).asked⟩
      cases l <;> simp

theorem settles_waitUntilIdle (clock : Clocked R)
    (elsewhere : ∀ {s u}, R s u → Elsewhere id k s u) (filled : Filled id k size t flag l s)
    (timers : s.scheduler.timers = []) (timeout : Nat) :
    let r := waitUntil defaultInterval timeout 0 (if !flag && l.isEmpty then some 1 else none)
    Settles R (waitUntilIdle id timeout) s fun _ b u => b = r.held ∧
      u.scheduler.now = s.scheduler.now + r.elapsed ∧ Filled id k size t flag l u := by
  let holdsFrom : Option Nat := if !flag && l.isEmpty then some 1 else none
  have first : ∀ n, holdsFrom = some n → 1 ≤ n := by
    intro n holds
    by_cases idle : (!flag && l.isEmpty) = true
    · obtain rfl : 1 = n := by simpa [holdsFrom, idle] using holds
      exact le_rfl
    · simp [holdsFrom, idle] at holds
  have passes : 1 ≤ defaultInterval + 0 := by decide
  obtain ⟨m, deadline⟩ := exists_deadline passes timeout
  have asks : Asks R (isIdle id) (fun _ => Filled id k size t flag l) 0 (holdsAt holdsFrom) := by
    refine ⟨fun rests => ((asks_isIdle clock elsewhere).answers rests).mono ?_⟩
    rintro _ b u ⟨rfl, there⟩
    refine ⟨?_, there⟩
    cases idle : (!flag && l.isEmpty) <;> simp [holdsFrom, idle, holdsAt]
  have stages : Stages R fun _ => Filled id k size t flag l := stages_filled elsewhere
  have settles := settles_waitFor clock stages asks (takes_ofMillis (by decide))
    (decides_stopAt deadline first) ⟨filled, timers, rfl⟩
  dsimp only
  rw [waitUntil_eq passes deadline first, waitUntilIdle_eq]
  refine settles.mono ?_
  rintro _ b u ⟨rfl, there⟩
  exact ⟨rfl, there.now, there.staged⟩

end Queue

section Sample

inductive Ticking : Session → Session → Prop
  | turn {s : Session} {scheduler : Scheduler} (same : SameClock s.scheduler scheduler) :
      Ticking s { s with scheduler }
  | advance {s : Session} {scheduler : Scheduler}
      (moved : s.scheduler.advance? = some scheduler) : Ticking s { s with scheduler }

theorem clocked_ticking : Clocked Ticking where
  turns _ _ same := .turn same
  advances _ _ moved := .advance moved
  only change := by
    cases change with
    | turn same => exact .inl same
    | advance moved => exact .inr moved

def thirdLook : Task Bool := do
  sleep (Duration.ofMillis 2)
  now (observe (.accept "look"))
  .get fun s => decide (3 ≤ s.observed.length)

def Looked (n : Nat) (s : Session) : Prop := s.observed.length = n

theorem stages_looked : Stages Ticking Looked where
  outside looked change := by cases change <;> exact looked
  blind _ looked := looked

theorem asks_thirdLook : Asks Ticking thirdLook Looked 2 (holdsAt (some 3)) where
  answers {n time s} rests := by
    refine Settles.bind ((settles_sleep_clock clocked_ticking stages_looked
      (takes_ofMillis (by decide)) rests).mono fun _ _ u slept => ?_)
    refine Settles.bind (Settles.act fun v changes w later => ?_)
    have awake := slept.later clocked_ticking stages_looked changes
    have seen : Rests Looked (n + 1) (time + 2) (observe (.accept "look") v).2 :=
      ⟨congrArg Nat.succ awake.staged, awake.timers, awake.now⟩
    refine Settles.act fun x changes' y later' => ?_
    have there := (seen.later clocked_ticking stages_looked later).later clocked_ticking
      stages_looked changes'
    refine ⟨?_, there.later clocked_ticking stages_looked later'⟩
    change decide (3 ≤ x.observed.length) = _
    rw [there.staged]
    rfl

theorem waitFor_verdict_thirdLook :
    1 ≤ 5 + 2 ∧ Settles Ticking (waitFor thirdLook (Duration.ofMillis 5) 30) {} fun _ b t =>
      b = true ∧ Rests Looked 3 16 t := by
  refine ⟨by decide, ?_⟩
  obtain ⟨m, -, -, -, -, -, -, -, -, settles⟩ :=
    waitFor_verdict 5 30 2 (some 3) (by decide) fun n holds => by cases holds; decide
  exact settles Ticking Looked thirdLook _ 0 {} clocked_ticking stages_looked asks_thirdLook
    (takes_ofMillis (by decide)) ⟨rfl, rfl, rfl⟩

end Sample

end Session

end EventTracking
