import EventTracking.Proofs.Async.Step
import EventTracking.Session.Run
import Mathlib.Data.List.Nodup

set_option autoImplicit false

namespace EventTracking.Session

open Async

structure Worker where
  id : TaskId
  job : Job
  program : Task Answer

def Worker.entry (x : Worker) : TaskId × Job := (x.id, x.job)

def Worker.giveUp (x : Worker) (s : Session) : Session :=
  let s := x.program.abandon s
  (finishTask x.id .done { s with aborted := s.aborted.filter (· != x.id) }).2

-- A session with the tasks in the background that have begun, and with those that call in the
-- foreground.
structure Workforce where
  session : Session
  workers : List Worker := []
  callers : List (Task Answer) := []

theorem perm_taken {α : Type _} {tasks : List (TaskId × α)} {n : TaskId} {a : α}
    (listed : (n, a) ∈ tasks) (distinct : (tasks.map Prod.fst).Nodup) :
    tasks.Perm ((n, a) :: tasks.filter fun t => t.1 != n) := by
  induction tasks with
  | nil => cases listed
  | cons t rest ih =>
    rw [List.map_cons, List.nodup_cons] at distinct
    obtain ⟨new, distinct⟩ := distinct
    rcases List.mem_cons.1 listed with rfl | later
    · have others : rest.filter (fun t => t.1 != n) = rest := by
        refine List.filter_eq_self.2 fun u hu => ?_
        have other : u.1 ≠ n := fun same => new (List.mem_map.2 ⟨u, hu, same⟩)
        simpa using other
      simp [others]
    · have other : t.1 ≠ n := fun same => new (List.mem_map.2 ⟨_, later, same.symm⟩)
      rw [List.filter_cons_of_pos (by simpa using other)]
      exact ((ih later distinct).cons t).trans (.swap ..)

namespace Workforce

def crew (w : Workforce) : List (TaskId × Job) := w.session.jobs ++ w.workers.map Worker.entry

variable (outside : Session → Session → Prop)

inductive Move : Workforce → Workforce → Prop
  | begin {s t : Session} {n : TaskId} {job : Job} (begun : s.begin? n = some (job, t))
      (workers : List Worker) (callers : List (Task Answer)) :
      Move ⟨s, workers, callers⟩ ⟨t, workers ++ [⟨n, job, Job.task job⟩], callers⟩
  | work {s t : Session} {x : Worker} {program : Task Answer}
      (go : Async.Step x.program s program t) (before after : List Worker)
      (callers : List (Task Answer)) :
      Move ⟨s, before ++ x :: after, callers⟩ ⟨t, before ++ { x with program } :: after, callers⟩
  | finish {x : Worker} {a : Answer} (done : x.program = .done a) (s : Session)
      (before after : List Worker) (callers : List (Task Answer)) :
      Move ⟨s, before ++ x :: after, callers⟩ ⟨(finishTask x.id a s).2, before ++ after, callers⟩
  | giveUp {s : Session} {x : Worker} (aborted : x.id ∈ s.aborted) (before after : List Worker)
      (callers : List (Task Answer)) :
      Move ⟨s, before ++ x :: after, callers⟩ ⟨x.giveUp s, before ++ after, callers⟩
  | come (e : Errand) (s : Session) (workers : List Worker) (callers : List (Task Answer)) :
      Move ⟨s, workers, callers⟩ ⟨s, workers, callers ++ [Job.task (.errand e)]⟩
  | call {s t : Session} {a b : Task Answer} (go : Async.Step a s b t) (workers : List Worker)
      (before after : List (Task Answer)) :
      Move ⟨s, workers, before ++ a :: after⟩ ⟨t, workers, before ++ b :: after⟩
  | leave (a : Task Answer) (s : Session) (workers : List Worker)
      (before after : List (Task Answer)) :
      Move ⟨s, workers, before ++ a :: after⟩ ⟨a.abandon s, workers, before ++ after⟩
  | change {s t : Session} (changes : outside s t) (workers : List Worker)
      (callers : List (Task Answer)) : Move ⟨s, workers, callers⟩ ⟨t, workers, callers⟩

def Course : Workforce → Workforce → Prop := Relation.ReflTransGen (Move outside)

namespace Course

variable {outside : Session → Session → Prop} {s t : Session} {w : Workforce}
  {workers : List Worker} {callers : List (Task Answer)}

theorem change (course : Course outside w ⟨s, workers, callers⟩) (changes : outside s t) :
    Course outside w ⟨t, workers, callers⟩ := course.tail (.change changes workers callers)

theorem changes (course : Course outside w ⟨s, workers, callers⟩)
    (changes : Relation.ReflTransGen outside s t) : Course outside w ⟨t, workers, callers⟩ := by
  induction changes with
  | refl => exact course
  | tail _ next ih => exact ih.change next

theorem poll {x : Worker} (before after : List Worker)
    (course : Course outside w ⟨s, before ++ x :: after, callers⟩) (fuel : Nat) :
    Course outside w ⟨(x.program.poll fuel s).2,
      before ++ { x with program := (x.program.poll fuel s).1.rest } :: after, callers⟩ := by
  have works {a b : Task Answer} {s t : Session} (go : Steps a s b t)
      (course : Course outside w ⟨s, before ++ { x with program := a } :: after, callers⟩) :
      Course outside w ⟨t, before ++ { x with program := b } :: after, callers⟩ := by
    induction go with
    | refl => exact course
    | head step _ ih => exact ih (course.tail (.work step before after callers))
  exact works (poll_steps fuel x.program s) course

theorem pollCall {a : Task Answer} (before after : List (Task Answer))
    (course : Course outside w ⟨s, workers, before ++ a :: after⟩) (fuel : Nat) :
    Course outside w ⟨(a.poll fuel s).2, workers, before ++ (a.poll fuel s).1.rest :: after⟩ := by
  have calls {a b : Task Answer} {s t : Session} (go : Steps a s b t)
      (course : Course outside w ⟨s, workers, before ++ a :: after⟩) :
      Course outside w ⟨t, workers, before ++ b :: after⟩ := by
    induction go with
    | refl => exact course
    | head step _ ih => exact ih (course.tail (.call step workers before after))
  exact calls (poll_steps fuel a s) course

end Course

end Workforce

end EventTracking.Session
