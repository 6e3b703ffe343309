import EventTracking.Proofs.Async.Settling

set_option autoImplicit false

namespace EventTracking

def Setting.closed {σ : Type} (α : Type) (R : σ → σ → Prop) : Setting σ α where
  comes _ _ _ := False
  outside := R

namespace Async

open Relation (ReflTransGen)

variable {σ α : Type} {R : σ → σ → Prop} {s t u : σ} {steps : List (σ × σ)} {i : Nat}
  {tasks : List (Async σ α)} {a a' : Async σ α} {b b' : Async σ (List α)}

inductive Joined : List (Async σ α) → Async σ (List α) → Prop where
  | nil : Joined [] (.done [])
  | both {a : Async σ α} {tasks : List (Async σ α)} {b : Async σ (List α)}
      (rest : Joined tasks b) : Joined (a :: tasks) (.both a b fun x xs => .done (x :: xs))
  | done {x : α} {tasks : List (Async σ α)} {xs : List α} (rest : Joined tasks (.done xs)) :
      Joined (.done x :: tasks) (.done (x :: xs))

namespace Joined

theorem gather (tasks : List (Async σ α)) : Joined tasks (Async.gather tasks) := by
  induction tasks with
  | nil => exact .nil
  | cons a tasks ih => exact .both ih

theorem eq_of_done {xs : List α} (h : Joined tasks (.done xs)) : tasks = xs.map .done := by
  induction xs generalizing tasks with
  | nil =>
    cases h
    rfl
  | cons x xs ih =>
    cases h with
    | done rest => rw [ih rest, List.map_cons]

theorem step (h : Joined tasks b) (go : Step b s b' t) :
    (∃ i a a', tasks[i]? = some a ∧ Step a s a' t ∧ Joined (tasks.set i a') b') ∨
      t = s ∧ Joined tasks b' := by
  induction h generalizing b' with
  | nil | done => cases go
  | both rest ih =>
    cases go with
    | left go => exact .inl ⟨0, _, _, rfl, go, .both rest⟩
    | right go =>
      obtain ⟨i, a, a', found, step, joined⟩ | ⟨same, joined⟩ := ih go
      · exact .inl ⟨i + 1, a, a', found, step, .both joined⟩
      · exact .inr ⟨same, .both joined⟩
    | join => exact .inr ⟨rfl, .done rest⟩

theorem lift (h : Joined tasks b) (found : tasks[i]? = some a) (go : Step a s a' t) :
    ∃ b', Step b s b' t ∧ Joined (tasks.set i a') b' := by
  induction h generalizing i with
  | nil => cases found
  | both rest ih =>
    cases i with
    | zero =>
      cases found
      exact ⟨_, .left go, .both rest⟩
    | succ i =>
      obtain ⟨b', step, joined⟩ := ih found
      exact ⟨_, .right step, .both joined⟩
  | done rest ih =>
    cases i with
    | zero =>
      cases found
      cases go
    | succ i =>
      obtain ⟨_, step, _⟩ := ih found
      cases step

theorem finish {xs : List α} (h : Joined tasks b) (ended : tasks = xs.map .done) (s : σ) :
    Steps b s (.done xs) s := by
  induction h generalizing xs with
  | nil =>
    obtain rfl := List.map_eq_nil_iff.1 ended.symm
    exact .refl
  | both rest ih =>
    obtain ⟨x, xs, rfl, rfl, others⟩ := List.map_eq_cons_iff.1 ended.symm
    have later := (ih others.symm).within
      (f := (Async.both (.done x) · fun x xs => .done (x :: xs))) .right
    exact later.tail .join
  | @done x tasks ys rest =>
    have mine : Joined (.done x :: tasks) (.done (x :: ys)) := .done rest
    have same := mine.eq_of_done.symm.trans ended
    rw [(List.map_inj_right fun _ _ => Async.done.inj).1 same]
    exact .refl

end Joined

end Async

namespace Crowd

open Async
open Relation (ReflTransGen)

variable {σ α : Type} {R : σ → σ → Prop} {s t u : σ} {steps : List (σ × σ)} {i : Nat}
  {tasks tasks' : List (Async σ α)} {a b : Async σ α}

namespace Run

theorem of_outside {E : Setting σ α} (changes : ReflTransGen E.outside s t) :
    Run E ⟨s, tasks⟩ ⟨t, tasks⟩ := by
  induction changes with
  | refl => exact .refl
  | tail _ change ih => exact ih.tail (.outside change)

theorem of_trail (found : tasks[i]? = some a) (trail : Trail R a s steps b t) :
    Run (.closed α R) ⟨s, tasks⟩ ⟨t, tasks.set i b⟩ := by
  obtain ⟨passes, linked⟩ := trail
  induction passes generalizing s tasks with
  | stay =>
    obtain ⟨inside, rfl⟩ := List.getElem?_eq_some_iff.1 found
    rw [List.set_getElem_self inside]
    exact .of_outside linked.of_nil
  | @step a b c s' t' _ step _ ih =>
    obtain ⟨changes, rest⟩ := linked.of_cons
    obtain ⟨inside, _⟩ := List.getElem?_eq_some_iff.1 found
    have next : (tasks.set i b)[i]? = some b := by simp [inside]
    have others := ih next rest
    rw [List.set_set] at others
    exact (Run.of_outside changes).trans (.head (.step found step) others)

theorem length_eq {c c' : Crowd σ α} (run : Run (.closed α R) c c') :
    c'.tasks.length = c.tasks.length := by
  induction run with
  | refl => rfl
  | tail _ move ih =>
    cases move with
    | step => simpa using ih
    | come comes => exact comes.elim
    | outside => exact ih

theorem trail {c c' : Crowd σ α} (run : Run (.closed α R) c c') {b : Async σ (List α)}
    (joined : Joined c.tasks b) :
    ∃ steps b', Trail R b c.state steps b' c'.state ∧ Joined c'.tasks b' := by
  induction run using Relation.ReflTransGen.head_induction_on generalizing b with
  | refl => exact ⟨[], b, ⟨.stay, .last .refl⟩, joined⟩
  | head move _ ih =>
    cases move with
    | step found step =>
      obtain ⟨b', go, joined⟩ := joined.lift found step
      obtain ⟨steps, b'', trail, joined⟩ := ih joined
      exact ⟨_, b'', ⟨.step go trail.passes, .step .refl trail.linked⟩, joined⟩
    | come comes => exact comes.elim
    | outside change =>
      obtain ⟨steps, b', trail, joined⟩ := ih joined
      exact ⟨steps, b', ⟨trail.passes, trail.linked.before (.single change)⟩, joined⟩

end Run

end Crowd

namespace Async

variable {σ α : Type} {R : σ → σ → Prop} {s t : σ} {steps : List (σ × σ)}
  {tasks : List (Async σ α)} {b b' : Async σ (List α)}

theorem Trail.crowd (trail : Trail R b s steps b' t) (joined : Joined tasks b) :
    ∃ tasks', Crowd.Run (.closed α R) ⟨s, tasks⟩ ⟨t, tasks'⟩ ∧ Joined tasks' b' := by
  obtain ⟨passes, linked⟩ := trail
  induction passes generalizing s tasks with
  | stay => exact ⟨tasks, .of_outside linked.of_nil, joined⟩
  | step step _ ih =>
    obtain ⟨changes, rest⟩ := linked.of_cons
    have before : Crowd.Run (.closed α R) ⟨s, tasks⟩ _ := .of_outside changes
    obtain ⟨i, a, a', found, own, joined⟩ | ⟨rfl, joined⟩ := joined.step step
    · obtain ⟨tasks', run, joined⟩ := ih joined rest
      exact ⟨tasks', before.trans (.head (.step found own) run), joined⟩
    · obtain ⟨tasks', run, joined⟩ := ih joined rest
      exact ⟨tasks', before.trans run, joined⟩

end Async

end EventTracking
