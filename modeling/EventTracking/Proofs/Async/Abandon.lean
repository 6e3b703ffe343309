import EventTracking.Proofs.Async.Crowd

set_option autoImplicit false

namespace EventTracking

namespace Async

variable {σ L α β γ : Type}

def never : Async σ α := await fun s => (none, s)

theorem Abandons.never {F : Frame σ} : Abandons F (Async.never : Async σ α) :=
  fun s _ => ⟨trivial, F.quiet_refl s, fun _ _ => trivial⟩

end Async

namespace Crowd

variable {σ L α : Type} {E : Setting σ α}

inductive Turn (E : Setting σ α) : Crowd σ α → Crowd σ α → Prop where
  | move {c c' : Crowd σ α} (move : Move E c c') : Turn E c c'
  | giveUp {s : σ} {tasks : List (Async σ α)} {i : Nat} {a : Async σ α}
      (found : tasks[i]? = some a) : Turn E ⟨s, tasks⟩ ⟨a.abandon s, tasks.set i .never⟩

-- A run in which tasks may be given up.
def Course (E : Setting σ α) : Crowd σ α → Crowd σ α → Prop := Relation.ReflTransGen (Turn E)

theorem Run.course {c c' : Crowd σ α} (run : Run E c c') : Course E c c' := by
  induction run with
  | refl => exact .refl
  | tail _ move ih => exact ih.tail (.move move)

def enter (c : Crowd σ α) (fuel : Nat) (a : Async σ α) : Crowd σ α :=
  ⟨(a.poll fuel c.state).2, c.tasks ++ [(a.poll fuel c.state).1.rest]⟩

def poll (c : Crowd σ α) (fuel i : Nat) : Crowd σ α :=
  match c.tasks[i]? with
  | some a => ⟨(a.poll fuel c.state).2, c.tasks.set i (a.poll fuel c.state).1.rest⟩
  | none => c

def giveUp (c : Crowd σ α) (i : Nat) : Crowd σ α :=
  match c.tasks[i]? with
  | some a => ⟨a.abandon c.state, c.tasks.set i .never⟩
  | none => c

def change (c : Crowd σ α) (f : σ → σ) : Crowd σ α := { c with state := f c.state }

namespace Course

variable {c d : Crowd σ α}

theorem enter (course : Course E c d) (fuel : Nat) {a : Async σ α}
    (comes : E.comes d.state a d.state) : Course E c (d.enter fuel a) :=
  course.trans (Run.come_poll comes fuel).course

theorem poll (course : Course E c d) (fuel i : Nat) : Course E c (d.poll fuel i) := by
  unfold Crowd.poll
  split
  · next a found => exact course.trans (Run.steps found (Async.poll_steps fuel a d.state)).course
  · exact course

theorem giveUp (course : Course E c d) (i : Nat) : Course E c (d.giveUp i) := by
  unfold Crowd.giveUp
  split
  · next found => exact course.tail (.giveUp found)
  · exact course

theorem change (course : Course E c d) {f : σ → σ} (outside : E.outside d.state (f d.state)) :
    Course E c (d.change f) := course.tail (.move (.outside outside))

end Course

end Crowd

namespace Discipline

open Crowd

variable {σ L α : Type} {E : Setting σ α} {P : Protocol σ L} {Q : L → α → Prop}
  {known : σ → Prop}

theorem giveUp (D : Discipline E P Q known) (rests : ∀ l, P.rests l) {s : σ}
    {tasks : List (Async σ α)} {roles : List L} {i : Nat} {a : Async σ α}
    (manned : Manned P Q ⟨s, tasks⟩ roles) (h : D.holds s roles) (found : tasks[i]? = some a)
    (quiet : P.quiet s (a.abandon s)) (before : known s) (after : known (a.abandon s)) :
    Manned P Q ⟨a.abandon s, tasks.set i .never⟩ roles ∧ D.holds (a.abandon s) roles := by
  obtain ⟨inside, _⟩ := List.getElem?_eq_some_iff.1 found
  have there : i < roles.length := manned.length_eq ▸ inside
  have role := List.getElem?_eq_getElem there
  have same := D.moves before after h role (P.moves_quiet _ (D.always h) quiet)
  rw [List.set_getElem_self there] at same
  refine ⟨⟨by simpa using manned.length_eq, ?_⟩, same⟩
  intro j l b hl hb
  by_cases mine : i = j
  · subst mine
    simp only [List.getElem?_set_self, inside, Option.some.injEq] at hb
    subst hb
    refine ⟨rests l, fun s hs => ⟨fun _ => P.moves_quiet l hs (P.quiet_refl s), ?_⟩⟩
    simp
  · rw [List.getElem?_set_ne mine] at hb
    exact manned.obeys hl hb

theorem course (D : Discipline E P Q fun _ => True) (rests : ∀ l, P.rests l)
    (comes : ∀ {s a t}, E.comes s a t → Async.Abandons P.toFrame a) {s : σ} {c : Crowd σ α}
    (h : D.holds s []) (course : Course E ⟨s, []⟩ c) :
    ∃ roles, Manned P Q c roles ∧ D.holds c.state roles := by
  suffices both : (∃ roles, Manned P Q c roles ∧ D.holds c.state roles) ∧
      ∀ a ∈ c.tasks, Async.Abandons P.toFrame a from both.1
  induction course with
  | refl => exact ⟨⟨[], ⟨rfl, by simp⟩, h⟩, by simp⟩
  | tail _ turn ih =>
    obtain ⟨⟨roles, manned, holds⟩, harmless⟩ := ih
    cases turn with
    | move move =>
      refine ⟨D.move trivial trivial manned holds move, ?_⟩
      cases move with
      | step found go =>
        intro b hb
        rcases List.mem_or_eq_of_mem_set hb with old | rfl
        · exact harmless b old
        · exact ((harmless _ (List.mem_of_getElem? found)).step (D.always holds) go).2
      | come coming =>
        intro b hb
        rcases List.mem_append.1 hb with old | new
        · exact harmless b old
        · exact List.mem_singleton.1 new ▸ comes coming
      | outside => exact harmless
    | giveUp found =>
      have quiet := (harmless _ (List.mem_of_getElem? found)).abandon (D.always holds)
      refine ⟨⟨roles, D.giveUp rests manned holds found quiet trivial trivial⟩, ?_⟩
      intro b hb
      rcases List.mem_or_eq_of_mem_set hb with old | rfl
      · exact harmless b old
      · exact .never

end Discipline

end EventTracking
