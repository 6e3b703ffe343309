import EventTracking.Proofs.Queue.Exclusion
import EventTracking.Proofs.Queue.Returning
import EventTracking.Proofs.Queue.Tally
import EventTracking.Proofs.Queue.Together
import Mathlib.Data.Set.List

set_option autoImplicit false

namespace EventTracking

open Session Async Change Crowd

namespace Fleet

variable {F : Fleet} {R : Session → Session → Prop} {id : QueueId} {s t : Session}
  {trackers : List SessionTracker} {a : Session.Task (Except Error Nat)}
  {c : Crowd Session (Except Error Nat)}

def AtRound (F : Fleet) (a : Session.Task (Except Error Nat)) : Prop :=
  (∃ r, a = .done r) ∨ ∃ id ∈ F.queues, ∃ next, a = Async.iterate (flushRound id) next

theorem Beside.flag_quiet (beside : F.Beside s t) (mine : id ∈ F.queues) :
    (flagFrame id).quiet s t := by
  have view := beside.views id mine
  have inside : (id < t.queues.size) = (id < s.queues.size) := congrArg QueueView.hasQueue view
  exact ⟨inside.symm.mp, congrArg QueueView.processing view⟩

section Runs

variable (sound : F.Sound) (alone : F.LeftAlone R) (covers : F.Covers trackers)

include sound alone

theorem guarded (mine : id ∈ F.queues)
    (run : Run (.closed _ R) ⟨F.start, trackers.map flushTracker⟩ c) :
    Guarded (flagLatch id) c := by
  have outside (x : SessionTracker) : Outside (flagLatch id) (flushTracker x) :=
    flag_jobs.flushTracker { Outside.composes with
      of_keeps := Outside.of_keeps
      gather := Outside.gather
      drain := outside_drain } x
  have begun : Guarded (flagLatch id) ⟨F.start, trackers.map flushTracker⟩ := by
    refine ⟨sound.hasQueue id mine, fun a ha => ?_, ?_⟩
    · obtain ⟨x, _, rfl⟩ := List.mem_map.1 ha
      exact (outside x).minds
    · have free : (F.start.queue id).processing = false := sound.free id mine
      change Crowd.sections _ _ = if (F.start.queue id).processing = true then 1 else 0
      rw [free, sections_eq_zero]
      · rfl
      · intro a ha
        obtain ⟨x, _, rfl⟩ := List.mem_map.1 ha
        exact (outside x).sections
  exact begun.course (E := .closed _ R) (fun comes => comes.elim)
    (fun change => (alone.beside change).flag_quiet mine) run.course

theorem free_of_rounds (mine : id ∈ F.queues)
    (run : Run (.closed _ R) ⟨F.start, trackers.map flushTracker⟩ c)
    (rounds : ∀ a ∈ c.tasks, F.AtRound a) : (c.state.queue id).processing = false := by
  have guarded := guarded sound alone mine run
  have none : Crowd.sections (flagLatch id) c.tasks = 0 := by
    refine sections_eq_zero fun a ha => ?_
    have minds := guarded.minds a ha
    obtain ⟨r, rfl⟩ | ⟨id', _, next, rfl⟩ := rounds a ha
    · rfl
    · exact (minds.1 next).1
  have balance := guarded.sections_eq
  rw [none] at balance
  change 0 = if (c.state.queue id).processing = true then 1 else 0 at balance
  cases flag : (c.state.queue id).processing with
  | false => rfl
  | true => simp [flag] at balance

variable (responds : F.Responds R)

include covers responds

theorem to_round {x : SessionTracker} (listed : x ∈ trackers) {steps : List (Session × Session)}
    (passes : Passes (flushTracker x) steps a) (along : ∀ p ∈ steps, F.Intact p.1)
    (here : F.Intact s) : ∃ rest b t, Stays F.Intact R a s rest b t ∧ F.AtRound b := by
  unfold flushTracker at passes
  split at passes
  · obtain ⟨_, rfl⟩ := Passes.of_done passes
    exact ⟨[], _, s, .refl here, .inl ⟨_, rfl⟩⟩
  · next id its =>
    have mine := covers.queues x listed id its
    have flushes {steps : List (Session × Session)} {a : Session.Task (Except Error Nat)}
        (passes : Passes (flush id) steps a) (along : ∀ p ∈ steps, F.Intact p.1) :
        ∃ rest b t, Stays F.Intact R a s rest b t ∧ F.AtRound b := by
      obtain ⟨rest, b, t, stays, ended | ⟨next, rfl⟩⟩ :=
        Finishable.to_round (finishes_round sound alone mine responds) passes along here
      · exact ⟨rest, b, t, stays, .inl ended⟩
      · exact ⟨rest, _, t, stays, .inr ⟨id, mine, next, rfl⟩⟩
    cases handoff : x.handoff with
    | none =>
      rw [handoff] at passes
      exact flushes passes along
    | some h =>
      rw [handoff] at passes
      have waits : Finishable F.Intact R (settled h (pure ())) fun _ => True :=
        finishes_settled sound (covers.handoffs x listed h handoff)
      obtain ⟨a', first, rfl⟩ | ⟨_, before, after, rfl, _, second⟩ := Passes.of_bind passes
      · obtain ⟨rest, _, t, stays⟩ := waits.ends first along here
        have around := stays.within (f := (Async.bind · fun _ => flush id)) fun step => step.bind _
        exact ⟨rest, _, t, around, .inr ⟨id, mine, .drain 0, rfl⟩⟩
      · exact flushes second fun p hp => along p (List.mem_append_right _ hp)

variable {i : Nat} (found : c.tasks[i]? = some a)

include found

theorem brings_to_round (run : Run (.closed _ R) ⟨F.start, trackers.map flushTracker⟩ c) :
    ∃ b t, Run (.closed _ R) c ⟨t, c.tasks.set i b⟩ ∧ F.AtRound b := by
  obtain ⟨inside, _⟩ := List.getElem?_eq_some_iff.1 found
  have listed : i < trackers.length := by simpa [run.length_eq] using inside
  have begun : (trackers.map flushTracker)[i]? = some (flushTracker trackers[i]) := by
    simp [listed]
  obtain ⟨a', steps, found', passes, own⟩ := run.own begun
  obtain rfl := Option.some.inj (found'.symm.trans found)
  have along : ∀ p ∈ steps, F.Intact p.1 := by
    intro p hp
    obtain ⟨d, before, same⟩ := own p hp
    exact same ▸ run_intact sound alone covers before
  obtain ⟨rest, b, t, stays, round⟩ := to_round sound alone covers responds
    (List.getElem_mem listed) passes along (run_intact sound alone covers run)
  exact ⟨b, t, .of_trail found stays.toTrail, round⟩

theorem brings_to_end (run : Run (.closed _ R) ⟨F.start, trackers.map flushTracker⟩ c)
    (rounds : ∀ a ∈ c.tasks, F.AtRound a) :
    ∃ r t, Run (.closed _ R) c ⟨t, c.tasks.set i (.done r)⟩ := by
  obtain ⟨r, rfl⟩ | ⟨id, mine, next, rfl⟩ := rounds a (List.mem_of_getElem? found)
  · exact ⟨r, c.state, .of_trail found ⟨.stay, .last .refl⟩⟩
  · have free := free_of_rounds sound alone mine run rounds
    have left := stored_suffix sound alone covers mine run
    have distinct : ((c.state.store (F.store id)).events.map Event.id).Nodup :=
      (sound.nodup_stored mine).sublist (left.sublist.map _)
    obtain ⟨rest, r, v, trail⟩ := flush_ends sound alone responds mine
      (run_intact sound alone covers run) free distinct next
    exact ⟨r, v, .of_trail found trail⟩

omit found

theorem all_end (run : Run (.closed _ R) ⟨F.start, trackers.map flushTracker⟩ c) :
    ∃ (t : Session) (results : List (Except Error Nat)),
      Run (.closed _ R) c ⟨t, results.map .done⟩ := by
  obtain ⟨c₁, first, _, rounds⟩ :=
    Run.bring (H := fun _ => True) (G := F.AtRound) (fun _ run _ _ _ found => by
      obtain ⟨b, t, goes, round⟩ := brings_to_round sound alone covers responds found run
      exact ⟨b, t, goes, trivial, round⟩) run fun _ _ => trivial
  obtain ⟨⟨t, tasks⟩, second, _, done⟩ :=
    Run.bring (H := F.AtRound) (G := (∃ r, · = .done r)) (fun _ run rounds _ _ found => by
      obtain ⟨r, t, goes⟩ := brings_to_end sound alone covers responds found run rounds
      exact ⟨_, t, goes, .inl ⟨r, rfl⟩, r, rfl⟩) (run.trans first) rounds
  obtain ⟨results, rfl⟩ : tasks ∈ Set.range (List.map .done) := by
    rw [Set.range_list_map]
    exact fun a ha => (done a ha).imp fun _ => Eq.symm
  exact ⟨t, results, first.trans second⟩

end Runs

end Fleet

end EventTracking
