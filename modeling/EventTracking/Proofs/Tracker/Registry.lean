import EventTracking.Proofs.Session.Stock

set_option autoImplicit false

namespace EventTracking

inductive RepositoryEdit where
  | make (c : TrackerConfig PluginRef)
  | add (tracker : TrackerRef)
  | getOrMake (c : TrackerConfig PluginRef)
  | setDefault (id : String)
  | setDefaultConfig (c : TrackerConfig PluginRef)
  | delete (id : String)
  | clear

inductive RepositoryReply where
  | tracker (ref : TrackerRef)
  | done
  | refused

namespace RepositoryReply

def ofTracker : Option TrackerRef → RepositoryReply
  | some ref => tracker ref
  | none => refused

def ofFlag : Bool → RepositoryReply
  | true => done
  | false => refused

end RepositoryReply

namespace RepositoryEdit

def config : RepositoryEdit → Option (TrackerConfig PluginRef)
  | make c | getOrMake c | setDefaultConfig c => some c
  | _ => none

def Removes (id : String) : RepositoryEdit → Prop
  | delete id' => id' = id
  | clear => True
  | _ => False

def settle (r : Repository TrackerRef) (ref : TrackerRef) : RepositoryEdit → Repository TrackerRef
  | setDefaultConfig _ => r.assignDefault ref.id
  | _ => r

theorem has_settle (e : RepositoryEdit) (r : Repository TrackerRef) (ref : TrackerRef)
    (id : String) : (e.settle r ref).has id = r.has id := by
  cases e <;> rfl

theorem trackers_settle (e : RepositoryEdit) (r : Repository TrackerRef) (ref : TrackerRef) :
    (e.settle r ref).trackers = r.trackers := by
  cases e <;> rfl

end RepositoryEdit

namespace Repository

def complaint (r : Repository TrackerRef) : RepositoryEdit → Option String
  | .make c => if r.has c.trackerId then some (takenMessage c.trackerId) else none
  | .add ref => if r.has ref.id then some (takenMessage ref.id) else none
  | .setDefault id => if r.has id then none else some (noDefaultMessage id)
  | .delete id => if r.has id then none else some (undeletableMessage id)
  | .getOrMake _ | .setDefaultConfig _ | .clear => none

def registered (r : Repository TrackerRef) (ref : TrackerRef) : Repository TrackerRef :=
  ⟨r.trackers.insert ref.id ref, r.defaultId.or (some ref.id)⟩

theorem has_iff {r : Repository TrackerRef} {id : String} :
    r.has id ↔ ∃ ref, r.trackers.find? id = some ref := by
  simp [has, Fields.contains, Option.isSome_iff_exists]

theorem has_registered {r : Repository TrackerRef} {ref : TrackerRef} {id : String} :
    (r.registered ref).has id ↔ id = ref.id ∨ r.has id := by
  simp only [has_iff, registered, Fields.find?_insert]
  by_cases same : id = ref.id <;> simp [same]

theorem get_eq_ok {r : Repository TrackerRef} {id : String} {ref : TrackerRef} :
    r.get (some id) = .ok ref ↔ r.trackers.find? id = some ref := by
  unfold get
  cases found : r.trackers.find? id <;> simp [found]

theorem register?_eq (r : Repository TrackerRef) (ref : TrackerRef) :
    r.register? ref = if r.has ref.id then none else some (r.registered ref) := rfl

end Repository

namespace Session

open Change

variable {s t : Session} {r : ReportingRepository}

section Making

def Enrolls (id : String) (c : Change TrackerRef) : Prop :=
  ∀ s, ∃ t : SessionTracker, t.trackerId = id ∧ (c s).1 = ⟨s.trackers.size, id⟩ ∧
    (c s).2.trackers = s.trackers.push t

theorem Enrolls.after {α : Type} {c : Change α} {k : α → Change TrackerRef} {id : String}
    (first : Fixes trackers c) (rest : ∀ a, Enrolls id (k a)) : Enrolls id (c >>= k) := by
  intro s
  obtain ⟨a, u, same, whole⟩ := first.bind_apply k s
  obtain ⟨t, named, given, pushed⟩ := rest a u
  exact ⟨t, named, by rw [whole, given, same], by rw [whole, pushed, same]⟩

def equipment (s : Session) : Array SessionTracker × Array Plugin := (s.trackers, s.plugins)

theorem Change.Fixes.trackers {α : Type} {c : Change α} (h : Fixes equipment c) :
    Fixes Session.trackers c := fun s => congrArg Prod.fst (h s)

theorem fixes_spawn? (job : Job) : Fixes equipment (spawn? job) := by
  intro s
  change equipment (if s.hasRuntime then _ else _ : Option TaskId × Session).2 = _
  split <;> rfl

theorem fixes_startLoop (id : QueueId)
    (start : Queue → Option TaskId → Except Error Unit × Queue) :
    Fixes equipment (startLoop id start) := by
  have ends (r : Except Error Unit) (other : Bool) :
      Fixes equipment (if other then (do let _ ← spawn? (.drains id); return r) else pure r) := by
    cases other
    · exact Fixes.pure _
    · exact (fixes_spawn? _).bind fun _ => Fixes.pure _
  exact Fixes.get.bind fun s => Fixes.bind (fun _ => rfl) fun _ => ends _ _

theorem fixes_wire (q : QueueId) (inner : Transport) : Fixes equipment (wire q inner) :=
  Fixes.get.bind fun _ => Fixes.bind (fun _ => rfl) fun _ =>
    (fixes_startLoop q _).bind fun _ => Fixes.pure _

theorem fixes_trackerTransport (c : TrackerConfig PluginRef) (console : ConsoleId) :
    Fixes equipment (trackerTransport c console) := by
  unfold trackerTransport
  split
  · exact (fixes_wire _ _).bind fun _ => Fixes.pure _
  · exact Fixes.pure _
  · exact Fixes.bind (fun _ => rfl) fun _ => Fixes.pure _
  · exact Fixes.pure _

theorem fixes_attach (ref : PluginRef) (owner : Owner) :
    Fixes trackers ((hooks ref).attach owner) := by
  refine Fixes.get.bind fun s => ?_
  cases s.plugin ref.id <;> exact fun _ => rfl

theorem fixes_attachAll (p : Pipeline PluginRef) (owner : Owner) :
    Fixes trackers (p.attach hooks owner) :=
  fixes_onUsable p fun ref => fixes_attach ref owner

theorem enrolls_assemble (c : TrackerConfig PluginRef) (console : ConsoleId)
    (plugins : List PluginRef) : Enrolls c.trackerId (assemble c console plugins) := by
  have reports : Fixes trackers ((Pipeline.ofList plugins).2.forM fun name =>
      report console (.error (Pipeline.takenMessage name))) := Fixes.forM fun _ => fun _ => rfl
  refine .after (fixes_trackerTransport c console).trackers fun transport => ?_
  refine .after reports fun _ => ?_
  have opens : Fixes trackers (transport.mapM addHandoff) := by
    cases transport <;> exact fun _ => rfl
  exact .after opens fun handoff => .after (fixes_attachAll _ _) fun _ _ => ⟨_, rfl, rfl, rfl⟩

theorem enrolls_makeTracker (c : TrackerConfig PluginRef) :
    Enrolls c.trackerId (makeTracker c) := by
  have console : Fixes trackers (consoleOr c.console) := by
    cases c.console <;> exact fun _ => rfl
  refine .after console fun console => ?_
  split
  · exact enrolls_assemble c console _
  · exact .after (fun _ => rfl) fun _ => enrolls_assemble c console _

theorem makeTracker_id (c : TrackerConfig PluginRef) (s : Session) :
    (makeTracker c s).1.id = c.trackerId := by
  obtain ⟨_, _, given, _⟩ := enrolls_makeTracker c s
  rw [given]

end Making

section Edits

theorem register_eq (r : ReportingRepository) (ref : TrackerRef) (s : Session) :
    register r ref s =
      if r.repository.has ref.id then
        ((r, none), (report r.console (.error (Repository.takenMessage ref.id)) s).2)
      else (({ r with repository := r.repository.registered ref }, some ref), s) := by
  unfold register
  rw [Repository.register?_eq]
  split <;> rfl

theorem registerNew_eq (r : ReportingRepository) (c : TrackerConfig PluginRef) (s : Session) :
    registerNew r c s =
      if r.repository.has c.trackerId then
        ((r, none), (report r.console (.error (Repository.takenMessage c.trackerId)) s).2)
      else
        (({ r with repository := r.repository.registered (makeTracker c s).1 },
          some (makeTracker c s).1), (makeTracker c s).2) := by
  unfold registerNew Repository.make?
  split
  · rfl
  · next free =>
    have registers := r.repository.register?_eq (makeTracker c s).1
    rw [makeTracker_id, if_neg free] at registers
    have whole {k : Option (Repository TrackerRef × TrackerRef) →
        Change (ReportingRepository × Option TrackerRef)} :
        ((do let t ← makeTracker c; return (r.repository.register? t).map (·, t)) >>= k) s =
          k ((r.repository.register? (makeTracker c s).1).map (·, (makeTracker c s).1))
            (makeTracker c s).2 := rfl
    rw [whole, registers]
    rfl

theorem getOrMake_of_found {c : TrackerConfig PluginRef} {ref : TrackerRef}
    (found : r.repository.trackers.find? c.trackerId = some ref) (s : Session) :
    getOrMake r c s = ((r, ref), if (s.tracker? ref).any c.agreesWith then s else
      (report r.console (.warn (Repository.differentMessage c.trackerId)) s).2) := by
  unfold getOrMake Repository.getOrMake
  simp only [found]
  rw [get_bind]
  cases (s.tracker? ref).any c.agreesWith <;> rfl

theorem getOrMake_of_free {c : TrackerConfig PluginRef}
    (free : r.repository.has c.trackerId = false) (s : Session) :
    getOrMake r c s =
      (({ r with repository := r.repository.registered (makeTracker c s).1 },
        (makeTracker c s).1), (makeTracker c s).2) := by
  have missing : r.repository.trackers.find? c.trackerId = none := by
    simpa [Repository.has, Fields.contains] using free
  have registers := r.repository.register?_eq (makeTracker c s).1
  rw [makeTracker_id, free] at registers
  unfold getOrMake Repository.getOrMake
  simp only [missing]
  change (({ r with
    repository := (r.repository.register? (makeTracker c s).1).getD r.repository },
    (makeTracker c s).1), (makeTracker c s).2) = _
  rw [registers]
  rfl

def editRepository (r : ReportingRepository) :
    RepositoryEdit → Change (ReportingRepository × RepositoryReply)
  | .make c => do
    let (r, ref) ← registerNew r c
    return (r, .ofTracker ref)
  | .add ref => do
    let (r, ref) ← register r ref
    return (r, .ofTracker ref)
  | .getOrMake c => do
    let (r, ref) ← getOrMake r c
    return (r, .tracker ref)
  | .setDefault id => do
    let (r, done) ← setDefault r id
    return (r, .ofFlag done)
  | .setDefaultConfig c => do
    let (r, ref) ← setDefaultConfig r c
    return (r, .tracker ref)
  | .delete id => do
    let (r, done) ← unregister r id
    return (r, .ofFlag done)
  | .clear => return ({ r with repository := r.repository.clear }, .done)

inductive Effect (s : Session) (r : ReportingRepository) :
    RepositoryEdit → Repository TrackerRef → RepositoryReply → Session → Prop
  | refused {e : RepositoryEdit} {message : String} :
    r.repository.complaint e = some message →
    Effect s r e r.repository .refused (report r.console (.error message) s).2
  | made {e : RepositoryEdit} {c : TrackerConfig PluginRef} :
    e.config = some c → r.repository.has c.trackerId = false →
    Effect s r e (e.settle (r.repository.registered (makeTracker c s).1) (makeTracker c s).1)
      (.tracker (makeTracker c s).1) (makeTracker c s).2
  | added {ref : TrackerRef} :
    r.repository.has ref.id = false →
    Effect s r (.add ref) (r.repository.registered ref) (.tracker ref) s
  | found {e : RepositoryEdit} {c : TrackerConfig PluginRef} {ref : TrackerRef} :
    e.config = some c → r.repository.complaint e = none →
    r.repository.trackers.find? c.trackerId = some ref →
    Effect s r e (e.settle r.repository ref) (.tracker ref)
      (if (s.tracker? ref).any c.agreesWith then s
        else (report r.console (.warn (Repository.differentMessage c.trackerId)) s).2)
  | chosen {id : String} :
    r.repository.has id →
    Effect s r (.setDefault id) { r.repository with defaultId := some id } .done s
  | deleted {id : String} :
    r.repository.has id →
    Effect s r (.delete id)
      ⟨r.repository.trackers.erase id,
        if r.repository.defaultId = some id then none else r.repository.defaultId⟩ .done s
  | cleared : Effect s r .clear {} .done s

theorem bind_eq {α β : Type} (c : Change α) (k : α → Change β) (s : Session) :
    (c >>= k) s = k (c s).1 (c s).2 := rfl

theorem editRepository_effect (e : RepositoryEdit) (r : ReportingRepository) (s : Session) :
    let edited := editRepository r e s
    edited.1.1.console = r.console ∧
      Effect s r e edited.1.1.repository edited.1.2 edited.2 := by
  have free_of {id : String} (missing : r.repository.trackers.find? id = none) :
      r.repository.has id = false := by
    simp [Repository.has, Fields.contains, missing]
  cases e with
  | make c =>
    simp only [editRepository, bind_eq, registerNew_eq]
    split
    · next taken => exact ⟨rfl, .refused (if_pos taken)⟩
    · next free => exact ⟨rfl, .made rfl (by simpa using free)⟩
  | add ref =>
    simp only [editRepository, bind_eq, register_eq]
    split
    · next taken => exact ⟨rfl, .refused (if_pos taken)⟩
    · next free => exact ⟨rfl, .added (by simpa using free)⟩
  | getOrMake c =>
    cases found : r.repository.trackers.find? c.trackerId with
    | some ref =>
      simp only [editRepository, bind_eq, getOrMake_of_found found]
      exact ⟨rfl, .found rfl rfl found⟩
    | none =>
      simp only [editRepository, bind_eq, getOrMake_of_free (free_of found)]
      exact ⟨rfl, .made rfl (free_of found)⟩
  | setDefaultConfig c =>
    cases found : r.repository.trackers.find? c.trackerId with
    | some ref =>
      simp only [editRepository, setDefaultConfig, bind_eq, getOrMake_of_found found]
      exact ⟨rfl, .found rfl rfl found⟩
    | none =>
      simp only [editRepository, setDefaultConfig, bind_eq, getOrMake_of_free (free_of found)]
      exact ⟨rfl, .made rfl (free_of found)⟩
  | setDefault id =>
    simp only [editRepository, setDefault, Repository.setDefault?, bind_eq]
    cases known : r.repository.has id with
    | true => exact ⟨rfl, .chosen known⟩
    | false => exact ⟨rfl, .refused (by simp [Repository.complaint, known])⟩
  | delete id =>
    simp only [editRepository, unregister, Repository.delete?, bind_eq]
    cases known : r.repository.has id with
    | true => exact ⟨rfl, .deleted known⟩
    | false => exact ⟨rfl, .refused (by simp [Repository.complaint, known])⟩
  | clear => exact ⟨rfl, .cleared⟩

end Edits

def HasTracker (s : Session) (ref : TrackerRef) (id : String) : Prop :=
  ref.id = id ∧ ∃ t, s.tracker? ref = some t ∧ t.trackerId = id

def Refers (s : Session) (e : RepositoryEdit) : Prop :=
  ∀ ref, e = .add ref → s.HasTracker ref ref.id

def TrackersStay (s t : Session) : Prop := ∀ ref id, s.HasTracker ref id → t.HasTracker ref id

theorem TrackersStay.of_trackers (same : t.trackers = s.trackers) : TrackersStay s t := by
  intro ref id known
  simpa [HasTracker, tracker?, same] using known

theorem TrackersStay.of_push {x : SessionTracker} (pushed : t.trackers = s.trackers.push x) :
    TrackersStay s t := by
  rintro ref id ⟨named, u, there, mine⟩
  have inside : ref.index < s.trackers.size := (Array.getElem?_eq_some_iff.1 there).1
  refine ⟨named, u, ?_, mine⟩
  rw [tracker?, pushed, Array.getElem?_push_lt inside, ← there, tracker?,
    Array.getElem?_eq_getElem inside]

theorem hasTracker_makeTracker (c : TrackerConfig PluginRef) (s : Session) :
    (makeTracker c s).2.HasTracker (makeTracker c s).1 c.trackerId ∧
      TrackersStay s (makeTracker c s).2 := by
  obtain ⟨t, named, given, pushed⟩ := enrolls_makeTracker c s
  refine ⟨⟨by rw [given], t, ?_, named⟩, .of_push pushed⟩
  rw [tracker?, pushed, given]
  exact Array.getElem?_push_size

structure Registered (s : Session) (r : Repository TrackerRef) : Prop where
  keyed : ∀ x ∈ r.trackers.entries, s.HasTracker x.2 x.1
  listed : ∀ id, r.defaultId = some id → r.has id

namespace Registered

variable {r : Repository TrackerRef} {ref : TrackerRef}

theorem empty (s : Session) : Registered s {} := ⟨nofun, nofun⟩

theorem stay (fine : Registered s r) (stay : TrackersStay s t) : Registered t r :=
  ⟨fun x there => stay _ _ (fine.keyed x there), fine.listed⟩

theorem hasTracker {id : String} (fine : Registered s r)
    (found : r.trackers.find? id = some ref) : s.HasTracker ref id := by
  obtain ⟨⟨key, value⟩, entry, rfl⟩ := Option.map_eq_some_iff.1 found
  have same : key = id := by simpa using List.find?_some entry
  exact same ▸ fine.keyed _ (List.mem_of_find?_eq_some entry)

theorem register (fine : Registered s r) (known : s.HasTracker ref ref.id) :
    Registered s (r.registered ref) where
  keyed x there := by
    rcases Entries.mem_insert there with rfl | old
    · exact known
    · exact fine.keyed x old
  listed id chosen := by
    rw [Repository.has_registered]
    cases before : r.defaultId with
    | none =>
      obtain rfl : ref.id = id := by simpa [Repository.registered, before] using chosen
      exact .inl rfl
    | some first =>
      obtain rfl : first = id := by simpa [Repository.registered, before] using chosen
      exact .inr (fine.listed first before)

theorem settle (fine : Registered s r) (e : RepositoryEdit) (there : r.has ref.id) :
    Registered s (e.settle r ref) := by
  cases e with
  | setDefaultConfig => exact ⟨fine.keyed, by rintro id ⟨⟩; exact there⟩
  | _ => exact fine

theorem delete (fine : Registered s r) (id : String) :
    Registered s ⟨r.trackers.erase id, if r.defaultId = some id then none else r.defaultId⟩ where
  keyed x there := fine.keyed x (List.mem_filter.1 there).1
  listed id' chosen := by
    split at chosen
    · cases chosen
    · next other =>
      have kept : id' ≠ id := fun same => other (same ▸ chosen)
      obtain ⟨ref, found⟩ := Repository.has_iff.1 (fine.listed id' chosen)
      refine Repository.has_iff.2 ⟨ref, ?_⟩
      simp only [Fields.find?_erase, if_neg kept, found]

theorem get_none (fine : Registered s r) :
    (∃ ref, r.get none = .ok ref) ↔ ∃ id, r.defaultId = some id := by
  unfold Repository.get
  cases chosen : r.defaultId with
  | none => simp
  | some id =>
    obtain ⟨ref, found⟩ := Repository.has_iff.1 (fine.listed id chosen)
    simp [found]

end Registered

namespace Effect

variable {e : RepositoryEdit} {r' : Repository TrackerRef} {reply : RepositoryReply}
  (effect : Effect s r e r' reply t)

include effect

theorem registered (fine : Registered s r.repository) (refers : s.Refers e) :
    TrackersStay s t ∧ Registered t r' := by
  cases effect with
  | refused => exact ⟨.of_trackers rfl, fine.stay (.of_trackers rfl)⟩
  | made _ free =>
    obtain ⟨known, stay⟩ := hasTracker_makeTracker _ s
    have fine := (fine.stay stay).register (known.1 ▸ known)
    exact ⟨stay, fine.settle e (Repository.has_registered.2 (.inl rfl))⟩
  | added => exact ⟨fun _ _ known => known, fine.register (refers _ rfl)⟩
  | @found _ c ref _ _ found =>
    have there := Repository.has_iff.2 ⟨ref, found⟩
    rw [← (fine.hasTracker found).1] at there
    suffices stay : TrackersStay s _ from ⟨stay, (fine.stay stay).settle e there⟩
    split <;> exact .of_trackers rfl
  | chosen there => exact ⟨fun _ _ known => known, fine.keyed, by rintro id ⟨⟩; exact there⟩
  | deleted => exact ⟨fun _ _ known => known, fine.delete _⟩
  | cleared => exact ⟨fun _ _ known => known, .empty _⟩

theorem find?_of_not_removes {id : String} {ref : TrackerRef}
    (kept : ¬ e.Removes id) (found : r.repository.trackers.find? id = some ref) :
    r'.trackers.find? id = some ref := by
  have there : r.repository.has id := Repository.has_iff.2 ⟨ref, found⟩
  have others {ref' : TrackerRef} (free : r.repository.has ref'.id = false) :
      (r.repository.registered ref').trackers.find? id = some ref := by
    have other : id ≠ ref'.id := by
      rintro rfl
      simp [free] at there
    simp only [Repository.registered, Fields.find?_insert, if_neg other, found]
  cases effect with
  | refused | chosen => exact found
  | made _ free =>
    rw [RepositoryEdit.trackers_settle]
    exact others (makeTracker_id _ s ▸ free)
  | added free => exact others free
  | found => rw [RepositoryEdit.trackers_settle, found]
  | deleted =>
    have other : id ≠ _ := fun same => kept same.symm
    simp only [Fields.find?_erase, if_neg other, found]
  | cleared => exact absurd trivial kept

theorem defaultId_of_new {id : String} (free : r.repository.has id = false) (new : r'.has id) :
    r'.defaultId = match e with
      | .setDefaultConfig _ => some id
      | _ => r.repository.defaultId.or (some id) := by
  have mine {ref : TrackerRef} (there : (r.repository.registered ref).has id) : id = ref.id := by
    simpa [Repository.has_registered, free] using there
  cases effect with
  | refused => simp_all
  | chosen => exact absurd (free.symm.trans new) (by simp)
  | made =>
    rw [RepositoryEdit.has_settle] at new
    rw [mine new]
    cases e <;> rfl
  | added =>
    rw [mine new]
    rfl
  | found =>
    rw [RepositoryEdit.has_settle] at new
    simp_all
  | deleted =>
    obtain ⟨ref, found⟩ := Repository.has_iff.1 new
    rw [Fields.find?_erase] at found
    split at found
    · cases found
    · simp [Repository.has_iff.2 ⟨ref, found⟩] at free
  | cleared => cases new

theorem of_complaint {message : String} (complaint : r.repository.complaint e = some message) :
    reply = .refused ∧ r' = r.repository ∧ t = (report r.console (.error message) s).2 := by
  cases effect with
  | refused same =>
    obtain rfl := Option.some.inj (same.symm.trans complaint)
    exact ⟨rfl, rfl, rfl⟩
  | made config free => cases e <;> cases config <;> simp [Repository.complaint, free] at complaint
  | added free => simp [Repository.complaint, free] at complaint
  | found _ none => cases none.symm.trans complaint
  | chosen there => simp [Repository.complaint, there] at complaint
  | deleted there => simp [Repository.complaint, there] at complaint
  | cleared => cases complaint

theorem of_no_complaint (complaint : r.repository.complaint e = none) :
    reply ≠ .refused ∧ (t = s ∨ (∃ c, e.config = some c ∧ t = (makeTracker c s).2) ∨
      ∃ id, t = (report r.console (.warn (Repository.differentMessage id)) s).2) := by
  cases effect with
  | refused same => cases complaint.symm.trans same
  | made config => exact ⟨nofun, .inr (.inl ⟨_, config, rfl⟩)⟩
  | found =>
    refine ⟨nofun, ?_⟩
    split
    · exact .inl rfl
    · exact .inr (.inr ⟨_, rfl⟩)
  | added | chosen | deleted | cleared => exact ⟨nofun, .inl rfl⟩

theorem find?_of_tracker {ref : TrackerRef} (fine : Registered s r.repository)
    (given : reply = .tracker ref) : r'.trackers.find? ref.id = some ref := by
  cases effect with
  | made =>
    cases given
    rw [RepositoryEdit.trackers_settle, Repository.registered, Fields.find?_insert, if_pos rfl]
  | added =>
    cases given
    rw [Repository.registered, Fields.find?_insert, if_pos rfl]
  | found _ _ found =>
    cases given
    rw [RepositoryEdit.trackers_settle, (fine.hasTracker found).1, found]
  | refused | chosen | deleted | cleared => cases given

theorem getOrMake_of_has {c : TrackerConfig PluginRef} (same : e = .getOrMake c)
    (there : r.repository.has c.trackerId) : r' = r.repository := by
  subst same
  cases effect with
  | refused | found => rfl
  | made config free =>
    cases config
    simp [there] at free

end Effect

-- What can become of a repository while others use the session.
inductive Life :
    Session × ReportingRepository → List RepositoryEdit → Session × ReportingRepository → Prop
  | nil (a : Session × ReportingRepository) : Life a [] a
  | edit {a : Session × ReportingRepository} {edits : List RepositoryEdit} {s : Session}
    {r : ReportingRepository} (e : RepositoryEdit) :
    Life a edits (s, r) → s.Refers e →
    Life a (edits ++ [e]) ((editRepository r e s).2, (editRepository r e s).1.1)
  | elsewhere {a : Session × ReportingRepository} {edits : List RepositoryEdit} {s t : Session}
    {r : ReportingRepository} :
    Life a edits (s, r) → TrackersStay s t → Life a edits (t, r)

section Lives

variable {a b : Session × ReportingRepository} {edits : List RepositoryEdit}

theorem Life.registered (life : Life a edits b) (fine : Registered a.1 a.2.repository) :
    Registered b.1 b.2.repository := by
  induction life with
  | nil => exact fine
  | edit e _ refers ih => exact ((editRepository_effect e _ _).2.registered ih refers).2
  | elsewhere _ stay ih => exact ih.stay stay

theorem Life.find?_of_not_removes {id : String} {ref : TrackerRef} (life : Life a edits b)
    (kept : ∀ e ∈ edits, ¬ e.Removes id)
    (found : a.2.repository.trackers.find? id = some ref) :
    b.2.repository.trackers.find? id = some ref := by
  induction life with
  | nil => exact found
  | edit e _ _ ih =>
    have before := ih fun e mem => kept e (by simp [mem])
    exact (editRepository_effect e _ _).2.find?_of_not_removes (kept e (by simp)) before
  | elsewhere _ _ ih => exact ih kept

structure Orderly (s : Session) (r : ReportingRepository) (e : RepositoryEdit)
    (r' : Repository TrackerRef) (reply : RepositoryReply) (t : Session) : Prop where
  first : ∀ id, r.repository.has id = false → r'.has id → r.repository.defaultId = none →
    r'.defaultId = some id
  later : ∀ id, r.repository.has id = false → r'.has id → (∀ c, e ≠ .setDefaultConfig c) →
    r.repository.defaultId ≠ none → r'.defaultId = r.repository.defaultId
  found : ∀ c, e = .getOrMake c → r.repository.has c.trackerId → r' = r.repository
  answered : ∀ ref, reply = .tracker ref → r'.get (some ref.id) = .ok ref
  refused : ∀ message, r.repository.complaint e = some message →
    reply = .refused ∧ r' = r.repository ∧ t = (report r.console (.error message) s).2
  accepted : r.repository.complaint e = none →
    reply ≠ .refused ∧ (t = s ∨ (∃ c, e.config = some c ∧ t = (makeTracker c s).2) ∨
      ∃ id, t = (report r.console (.warn (Repository.differentMessage id)) s).2)

theorem Effect.orderly {s t : Session} {r : ReportingRepository} {e : RepositoryEdit}
    {r' : Repository TrackerRef} {reply : RepositoryReply} (effect : Effect s r e r' reply t)
    (fine : Registered s r.repository) : Orderly s r e r' reply t where
  first id free new none := by
    rw [effect.defaultId_of_new free new, none]
    cases e <;> rfl
  later id free new other some := by
    rw [effect.defaultId_of_new free new]
    obtain ⟨d, chosen⟩ := Option.ne_none_iff_exists'.1 some
    rw [chosen]
    cases e with
    | setDefaultConfig c => exact absurd rfl (other c)
    | _ => rfl
  found _ same there := effect.getOrMake_of_has same there
  answered ref given := Repository.get_eq_ok.2 (effect.find?_of_tracker fine given)
  refused _ complaint := effect.of_complaint complaint
  accepted complaint := effect.of_no_complaint complaint

/-- Trackers are registered under their ids and stay until they are deleted; the default is one of
them, if there is one; and every edit is orderly. -/
theorem registry_invariant {s₀ s : Session} {console : ConsoleId} {r : ReportingRepository}
    (life : Life (s₀, ⟨{}, console⟩) edits (s, r)) :
    Registered s r.repository ∧
      ((∃ ref, r.repository.get none = .ok ref) ↔ ∃ id, r.repository.defaultId = some id) ∧
      (∀ id ref, r.repository.get (some id) = .ok ref →
        ∀ later s' r', Life (s, r) later (s', r') → (∀ e ∈ later, ¬ e.Removes id) →
          r'.repository.get (some id) = .ok ref) ∧
      ∀ e, s.Refers e →
        let edited := editRepository r e s
        Orderly s r e edited.1.1.repository edited.1.2 edited.2 := by
  have fine := life.registered (.empty s₀)
  refine ⟨fine, fine.get_none, ?_, fun e _ => (editRepository_effect e r s).2.orderly fine⟩
  intro id ref found later s' r' life kept
  rw [Repository.get_eq_ok] at found ⊢
  exact life.find?_of_not_removes kept found

theorem registry_invariant_sample :
    let shop := editRepository ⟨{}, 0⟩ (.make { applicationId := "shop" }) {}
    let both := editRepository shop.1.1 (.make { applicationId := "cart" }) shop.2
    (∃ ref, both.1.1.repository.get none = .ok ref) ∧
      both.1.1.repository.get (some "shop") = .ok ⟨0, "shop"⟩ := by
  intro shop both
  have first : Life ({}, ⟨{}, 0⟩) [.make { applicationId := "shop" }] (shop.2, shop.1.1) :=
    .edit _ (.nil _) nofun
  have rest : Life (shop.2, shop.1.1) [.make { applicationId := "cart" }] (both.2, both.1.1) :=
    .edit _ (.nil _) nofun
  obtain ⟨-, -, stays, -⟩ := registry_invariant first
  obtain ⟨-, default, -⟩ := registry_invariant (first.edit (.make { applicationId := "cart" }) nofun)
  have kept : both.1.1.repository.get (some "shop") = .ok ⟨0, "shop"⟩ :=
    stays "shop" ⟨0, "shop"⟩ (by rfl) _ both.2 both.1.1 rest (by simp [RepositoryEdit.Removes])
  exact ⟨default.2 ⟨"shop", by rfl⟩, kept⟩

end Lives

end Session

end EventTracking
