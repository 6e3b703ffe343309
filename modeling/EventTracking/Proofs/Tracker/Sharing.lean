import EventTracking.Proofs.Tracker.Registry
import Mathlib.Logic.Function.Basic

set_option autoImplicit false

namespace EventTracking

open Session

theorem Session.Effect.not_has_removed {s t : Session} {r : ReportingRepository}
    {e : RepositoryEdit} {r' : Repository TrackerRef} {reply : RepositoryReply} {id : String}
    (effect : Effect s r e r' reply t) (removes : e.Removes id) : ¬ r'.has id := by
  cases effect with
  | refused complaint =>
    cases e with
    | delete id' =>
      cases removes
      intro there
      simp [Repository.complaint, there] at complaint
    | clear => cases complaint
    | _ => exact removes.elim
  | made config | found config => cases e <;> cases config <;> exact removes.elim
  | added | chosen => exact removes.elim
  | deleted =>
    cases removes
    simp [Repository.has, Fields.contains, Fields.find?_erase]
  | cleared => exact Bool.false_ne_true

inductive Section where
  | edit (e : RepositoryEdit)
  | obtain (caller : Nat) (c : TrackerConfig PluginRef)
  | assign (caller : Nat)
  | elsewhere

structure Shared where
  session : Session
  registry : ReportingRepository
  midway : Nat → Option TrackerRef

namespace Shared

def start (s : Session) (console : ConsoleId) : Shared := ⟨s, ⟨{}, console⟩, fun _ => none⟩

def repository (a : Shared) : Repository TrackerRef := a.registry.repository

def edited (a : Shared) (e : RepositoryEdit) : Shared :=
  { a with
    session := (editRepository a.registry e a.session).2
    registry := (editRepository a.registry e a.session).1.1 }

def obtained (a : Shared) (caller : Nat) (c : TrackerConfig PluginRef) : Shared where
  session := (getOrMake a.registry c a.session).2
  registry := (getOrMake a.registry c a.session).1.1
  midway := Function.update a.midway caller (some (getOrMake a.registry c a.session).1.2)

def assigned (a : Shared) (caller : Nat) (ref : TrackerRef) : Shared where
  session := a.session
  registry := { a.registry with repository := a.repository.assignDefault ref.id }
  midway := Function.update a.midway caller none

theorem midway_obtained (a : Shared) (caller k : Nat) (c : TrackerConfig PluginRef) :
    (a.obtained caller c).midway k =
      if k = caller then some (getOrMake a.registry c a.session).1.2 else a.midway k :=
  Function.update_apply ..

theorem midway_assigned (a : Shared) (caller k : Nat) (ref : TrackerRef) :
    (a.assigned caller ref).midway k = if k = caller then none else a.midway k :=
  Function.update_apply ..

inductive Step : Shared → Section → Shared → Prop
  | edit {a : Shared} {e : RepositoryEdit} (single : ∀ c, e ≠ .setDefaultConfig c)
    (refers : a.session.Refers e) : Step a (.edit e) (a.edited e)
  | obtain {a : Shared} {caller : Nat} {c : TrackerConfig PluginRef}
    (idle : a.midway caller = none) : Step a (.obtain caller c) (a.obtained caller c)
  | assign {a : Shared} {caller : Nat} {ref : TrackerRef} (held : a.midway caller = some ref) :
    Step a (.assign caller) (a.assigned caller ref)
  | elsewhere {a : Shared} {s : Session} (stay : TrackersStay a.session s) :
    Step a .elsewhere { a with session := s }

inductive Run (a : Shared) : List Section → Shared → Prop
  | nil : Run a [] a
  | step {sections : List Section} {x : Section} {b c : Shared} :
    Run a sections b → Step b x c → Run a (sections ++ [x]) c

theorem run_setDefaultConfig (a : Shared) {caller : Nat} (idle : a.midway caller = none)
    (c : TrackerConfig PluginRef) :
    Run a [.obtain caller c, .assign caller]
      ⟨(setDefaultConfig a.registry c a.session).2, (setDefaultConfig a.registry c a.session).1.1,
        a.midway⟩ := by
  have held : (a.obtained caller c).midway caller = some (getOrMake a.registry c a.session).1.2 := by
    rw [midway_obtained, if_pos rfl]
  have run := (Run.nil.step (.obtain (c := c) idle)).step (.assign held)
  have same : Function.update (Function.update a.midway caller
      (some (getOrMake a.registry c a.session).1.2)) caller none = a.midway := by
    rw [Function.update_idem, ← idle, Function.update_eq_self]
  rw [assigned, obtained, same] at run
  exact run

-- Whether no tracker is removed after a caller has obtained it and before the caller has made it
-- the default.
def Undisturbed (sections : List Section) : Prop :=
  ∀ before caller c between after,
    sections = before ++ .obtain caller c :: between ++ .assign caller :: after →
    .assign caller ∉ between → ∀ e, .edit e ∈ between → ¬ e.Removes c.trackerId

theorem Undisturbed.before {sections : List Section} {x : Section}
    (calm : Undisturbed (sections ++ [x])) : Undisturbed sections := by
  intro before caller c between after split
  exact calm before caller c between (after ++ [x]) (by simp [split])

def Holds (a : Shared) (sections : List Section) (caller : Nat) (ref : TrackerRef) : Prop :=
  ∃ before c between, sections = before ++ .obtain caller c :: between ∧
    .assign caller ∉ between ∧ c.trackerId = ref.id ∧
    ((∀ e, .edit e ∈ between → ¬ e.Removes ref.id) → a.repository.has ref.id)

section Steps

variable {a b : Shared} {sections : List Section} {caller : Nat} {ref : TrackerRef} {x : Section}

theorem Holds.later (holds : a.Holds sections caller ref) (other : x ≠ .assign caller)
    (kept : (∀ e, x = .edit e → ¬ e.Removes ref.id) → a.repository.has ref.id →
      b.repository.has ref.id) :
    b.Holds (sections ++ [x]) caller ref := by
  obtain ⟨before, c, between, split, still, named, there⟩ := holds
  refine ⟨before, c, between ++ [x], by simp [split], by simp [still, other.symm], named, ?_⟩
  intro calm
  exact kept (fun e same => calm e (by simp [same])) (there fun e mem => calm e (by simp [mem]))

theorem has_edited {e : RepositoryEdit} {id : String} (kept : ¬ e.Removes id)
    (there : a.repository.has id) : (a.edited e).repository.has id := by
  obtain ⟨ref, found⟩ := Repository.has_iff.1 there
  have effect := (editRepository_effect e a.registry a.session).2
  exact Repository.has_iff.2 ⟨ref, effect.find?_of_not_removes kept found⟩

-- Obtaining a tracker is an edit that removes nothing.
theorem has_obtained (caller : Nat) (c : TrackerConfig PluginRef) {id : String}
    (there : a.repository.has id) : (a.obtained caller c).repository.has id :=
  has_edited (e := .getOrMake c) nofun there

def Attended (a : Shared) (sections : List Section) : Prop :=
  ∀ caller ref, a.midway caller = some ref → a.Holds sections caller ref

theorem getOrMake_id (fine : Registered a.session a.repository) (c : TrackerConfig PluginRef) :
    (getOrMake a.registry c a.session).1.2.id = c.trackerId := by
  cases found : a.registry.repository.trackers.find? c.trackerId with
  | some ref =>
    rw [getOrMake_of_found found]
    exact (fine.hasTracker found).1
  | none =>
    have free : a.registry.repository.has c.trackerId = false := by
      simp [Repository.has, Fields.contains, found]
    rw [getOrMake_of_free free, makeTracker_id]

theorem holds_obtained (fine : Registered a.session a.repository) (sections : List Section)
    (caller : Nat) (c : TrackerConfig PluginRef) :
    (a.obtained caller c).Holds (sections ++ [.obtain caller c]) caller
      (getOrMake a.registry c a.session).1.2 := by
  refine ⟨sections, c, [], rfl, List.not_mem_nil, (getOrMake_id fine c).symm, fun _ => ?_⟩
  have effect := (editRepository_effect (.getOrMake c) a.registry a.session).2
  exact Repository.has_iff.2 ⟨_, effect.find?_of_tracker fine rfl⟩

theorem Step.attended (step : Step a x b) (fine : Registered a.session a.repository)
    (attended : a.Attended sections) : b.Attended (sections ++ [x]) := by
  intro caller ref held
  cases step with
  | edit single refers =>
    refine (attended caller ref held).later nofun fun kept there => ?_
    exact has_edited (kept _ rfl) there
  | @obtain caller' c idle =>
    rw [midway_obtained] at held
    split at held
    · next same =>
      cases held
      exact same ▸ holds_obtained fine sections caller' c
    · exact (attended caller ref held).later nofun fun _ there => has_obtained caller' c there
  | @assign caller' ref' held' =>
    rw [midway_assigned] at held
    split at held
    · cases held
    · next other =>
      refine (attended caller ref held).later (fun same => ?_) fun _ there => there
      cases same
      exact other rfl
  | elsewhere => exact (attended caller ref held).later nofun fun _ there => there

theorem Step.registered (step : Step a x b) (fine : Registered a.session a.repository)
    (attended : a.Attended sections) (calm : Undisturbed (sections ++ [x])) :
    Registered b.session b.repository := by
  cases step with
  | edit _ refers => exact ((editRepository_effect _ _ _).2.registered fine refers).2
  | obtain => exact ((editRepository_effect (.getOrMake _) _ _).2.registered fine nofun).2
  | @assign caller ref held =>
    obtain ⟨before, c, between, split, still, named, there⟩ := attended caller ref held
    have kept := calm before caller c between [] (by rw [split]) still
    exact ⟨fine.keyed, by rintro id ⟨⟩; exact there (named ▸ kept)⟩
  | elsewhere stay => exact fine.stay stay

end Steps

section Runs

variable {s : Session} {console : ConsoleId} {sections : List Section} {a b : Shared}

theorem Run.registered (run : Run (start s console) sections a) (calm : Undisturbed sections) :
    Registered a.session a.repository ∧ a.Attended sections := by
  induction run with
  | nil => exact ⟨.empty s, nofun⟩
  | step _ step ih =>
    obtain ⟨fine, attended⟩ := ih calm.before
    exact ⟨step.registered fine attended calm, step.attended fine attended⟩

/-- A default that is set is registered, unless somebody has removed a tracker while a caller that
had obtained it was about to make it the default. Whenever a caller is there, a removal leaves a
default that is not registered. -/
theorem default_registered_unless_removed (run : Run (start s console) sections a) :
    (Undisturbed sections → ∀ id, a.repository.defaultId = some id → a.repository.has id) ∧
      ∀ caller ref e, a.midway caller = some ref → e.Removes ref.id →
        ∃ b, Run a [.edit e, .assign caller] b ∧ b.repository.defaultId = some ref.id ∧
          ¬ b.repository.has ref.id := by
  refine ⟨fun calm => (run.registered calm).1.listed, fun caller ref e held removes => ?_⟩
  have single : ∀ c, e ≠ .setDefaultConfig c := by
    rintro c rfl
    exact removes
  have refers : a.session.Refers e := by
    rintro ref rfl
    exact removes.elim
  have run := (Run.nil.step (.edit single refers)).step (.assign held)
  exact ⟨_, run, rfl, (editRepository_effect e _ _).2.not_has_removed removes⟩

theorem default_registered_unless_removed_sample :
    let halfway := (start {} 0).obtained 0 { applicationId := "shop" }
    (halfway.assigned 0 ⟨0, "shop"⟩).repository.has "shop" ∧
      ∃ b, Run halfway [.edit (.delete "shop"), .assign 0] b ∧
        b.repository.defaultId = some "shop" ∧ ¬ b.repository.has "shop" := by
  intro halfway
  have reached : Run (start {} 0) [.obtain 0 { applicationId := "shop" }] halfway :=
    .step (x := .obtain 0 _) .nil (.obtain rfl)
  have held : halfway.midway 0 = some ⟨0, "shop"⟩ := by rfl
  have whole := reached.step (.assign held)
  have calm : Undisturbed [.obtain 0 { applicationId := "shop" }, .assign 0] := by
    intro before caller c between after split still e mem
    have few := congrArg List.length split
    simp only [List.length_append, List.length_cons, List.length_nil] at few
    obtain rfl : between = [] := List.length_eq_zero_iff.1 (by omega)
    cases mem
  exact ⟨(default_registered_unless_removed whole).1 calm "shop" rfl,
    (default_registered_unless_removed reached).2 0 ⟨0, "shop"⟩ (.delete "shop") held rfl⟩

end Runs

end Shared

end EventTracking
