import EventTracking.Proofs.Async.Protocol

set_option autoImplicit false

namespace EventTracking

structure Crowd (σ α : Type) where
  state : σ
  tasks : List (Async σ α)

structure Setting (σ α : Type) where
  comes : σ → Async σ α → σ → Prop
  outside : σ → σ → Prop

namespace Crowd

variable {σ L α : Type}

inductive Move (E : Setting σ α) : Crowd σ α → Crowd σ α → Prop where
  | step {s s' : σ} {tasks : List (Async σ α)} {i : Nat} {a a' : Async σ α}
      (found : tasks[i]? = some a) (go : Async.Step a s a' s') :
      Move E ⟨s, tasks⟩ ⟨s', tasks.set i a'⟩
  | come {s s' : σ} {tasks : List (Async σ α)} {a : Async σ α} (comes : E.comes s a s') :
      Move E ⟨s, tasks⟩ ⟨s', tasks ++ [a]⟩
  | outside {s s' : σ} {tasks : List (Async σ α)} (changes : E.outside s s') :
      Move E ⟨s, tasks⟩ ⟨s', tasks⟩

def Run (E : Setting σ α) : Crowd σ α → Crowd σ α → Prop := Relation.ReflTransGen (Move E)

theorem Run.steps {E : Setting σ α} {s t : σ} {tasks : List (Async σ α)} {i : Nat}
    {a b : Async σ α} (found : tasks[i]? = some a) (go : Async.Steps a s b t) :
    Run E ⟨s, tasks⟩ ⟨t, tasks.set i b⟩ := by
  induction go generalizing tasks with
  | refl =>
    obtain ⟨inside, rfl⟩ := List.getElem?_eq_some_iff.1 found
    rw [List.set_getElem_self inside]
    exact .refl
  | @head a b c s t u step _ ih =>
    obtain ⟨inside, _⟩ := List.getElem?_eq_some_iff.1 found
    have next : (tasks.set i b)[i]? = some b := by simp [inside]
    have rest := ih next
    rw [List.set_set] at rest
    exact .head (.step found step) rest

theorem Run.come_poll {E : Setting σ α} {s t : σ} {tasks : List (Async σ α)} {a : Async σ α}
    (comes : E.comes s a t) (fuel : Nat) :
    Run E ⟨s, tasks⟩ ⟨(a.poll fuel t).2, tasks ++ [(a.poll fuel t).1.rest]⟩ := by
  have last : (tasks ++ [a])[tasks.length]? = some a := by simp
  have polled := Run.steps (E := E) last (Async.poll_steps fuel a t)
  rw [List.set_append_right _ _ (Nat.le_refl _), Nat.sub_self, List.set_cons_zero] at polled
  exact .head (.come comes) polled

structure Manned (P : Protocol σ L) (Q : L → α → Prop) (c : Crowd σ α) (roles : List L) :
    Prop where
  length_eq : roles.length = c.tasks.length
  obeys : ∀ {i : Nat} {l : L} {a : Async σ α}, roles[i]? = some l → c.tasks[i]? = some a →
    Async.Obeys P l a Q

theorem Manned.of_map {ι : Type} {P : Protocol σ L} {Q : L → α → Prop} {s : σ} {xs : List ι}
    {f : ι → Async σ α} {role : ι → L} (obeys : ∀ x ∈ xs, Async.Obeys P (role x) (f x) Q) :
    Manned P Q ⟨s, xs.map f⟩ (xs.map role) := by
  refine ⟨by simp, fun {i l a} hl ha => ?_⟩
  rw [List.getElem?_map, Option.map_eq_some_iff] at hl ha
  obtain ⟨x, found, rfl⟩ := hl
  obtain ⟨y, found', rfl⟩ := ha
  obtain rfl := Option.some.inj (found.symm.trans found')
  exact obeys x (List.mem_of_getElem? found)

theorem Manned.come {P : Protocol σ L} {Q : L → α → Prop} {s s' : σ} {tasks : List (Async σ α)}
    {roles : List L} {a : Async σ α} {l : L} (manned : Manned P Q ⟨s, tasks⟩ roles)
    (obeys : Async.Obeys P l a Q) : Manned P Q ⟨s', tasks ++ [a]⟩ (roles ++ [l]) := by
  have same : roles.length = tasks.length := manned.length_eq
  refine ⟨by simpa using same, ?_⟩
  intro j l' b hl hb
  by_cases old : j < tasks.length
  · rw [List.getElem?_append_left (same ▸ old)] at hl
    rw [List.getElem?_append_left old] at hb
    exact manned.obeys hl hb
  · rw [List.getElem?_append_right (by omega), List.getElem?_singleton] at hl hb
    rw [same] at hl
    split at hl <;> simp_all

end Crowd

structure Discipline {σ L α : Type} (E : Setting σ α) (P : Protocol σ L) (Q : L → α → Prop)
    (known : σ → Prop) where
  holds : σ → List L → Prop
  always : ∀ {s roles}, holds s roles → P.always s
  moves : ∀ {s s' roles i l l'}, known s → known s' → holds s roles → roles[i]? = some l →
    P.moves l s l' s' → holds s' (roles.set i l')
  comes : ∀ {s s' roles a}, known s → known s' → holds s roles → E.comes s a s' →
    ∃ l, Async.Obeys P l a Q ∧ holds s' (roles ++ [l])
  outside : ∀ {s s' roles}, known s → known s' → holds s roles → E.outside s s' → holds s' roles

namespace Discipline

open Crowd

variable {σ L α : Type} {E : Setting σ α} {P : Protocol σ L} {Q : L → α → Prop}
  {known : σ → Prop}

theorem move (D : Discipline E P Q known) {c c' : Crowd σ α} {roles : List L}
    (before : known c.state) (after : known c'.state) (manned : Manned P Q c roles)
    (h : D.holds c.state roles) (move : Move E c c') :
    ∃ roles', Manned P Q c' roles' ∧ D.holds c'.state roles' := by
  cases move with
  | @step s s' tasks i a a' found go =>
    have inside : i < roles.length := by
      rw [manned.length_eq]
      exact (List.getElem?_eq_some_iff.1 found).1
    have role := List.getElem?_eq_getElem inside
    obtain ⟨l', moves, obeys⟩ := (manned.obeys role found).step (D.always h) go
    refine ⟨roles.set i l', ⟨by simpa using manned.length_eq, ?_⟩,
      D.moves before after h role moves⟩
    -- Only the task that took the step has a new role.
    intro j l b hl hb
    by_cases same : i = j
    · subst same
      have here := (List.getElem?_eq_some_iff.1 found).1
      simp only [List.getElem?_set_self, inside, here, Option.some.injEq] at hl hb
      exact hl ▸ hb ▸ obeys
    · rw [List.getElem?_set_ne same] at hl hb
      exact manned.obeys hl hb
  | @come s s' tasks a comes =>
    obtain ⟨l, obeys, holds⟩ := D.comes before after h comes
    exact ⟨roles ++ [l], manned.come obeys, holds⟩
  | outside changes =>
    exact ⟨roles, ⟨manned.length_eq, manned.obeys⟩, D.outside before after h changes⟩

theorem run (D : Discipline E P Q known) {c c' : Crowd σ α} {roles : List L}
    (facts : ∀ c', Run E c c' → known c'.state) (manned : Manned P Q c roles)
    (h : D.holds c.state roles) (run : Run E c c') :
    ∃ roles', Manned P Q c' roles' ∧ D.holds c'.state roles' := by
  induction run with
  | refl => exact ⟨roles, manned, h⟩
  | tail before move ih =>
    obtain ⟨roles', manned', h'⟩ := ih
    exact D.move (facts _ before) (facts _ (before.tail move)) manned' h' move

theorem run_alone (D : Discipline E P Q known) {s : σ} {c : Crowd σ α}
    (facts : ∀ c', Run E ⟨s, []⟩ c' → known c'.state) (h : D.holds s []) (run : Run E ⟨s, []⟩ c) :
    ∃ roles, Manned P Q c roles ∧ D.holds c.state roles :=
  D.run facts ⟨rfl, by simp⟩ h run

end Discipline

end EventTracking
