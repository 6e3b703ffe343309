import EventTracking.Proofs.Tracker.Registry

set_option autoImplicit false

namespace EventTracking

namespace Plugin

def IsBuiltIn : Plugin → Prop
  | journal _ _ _ => False
  | application _ | taxonomy _ | path _ => True

def IsReady : Plugin → Prop
  | journal _ _ _ => False
  | application p => p.applicationId.isSome ∧ p.console.isSome
  | taxonomy p => p.console.isSome ∧ p.initialized
  | path _ => True

def attached (owner : Owner) : Plugin → Plugin
  | application p => application (p.attach owner)
  | taxonomy p => taxonomy (p.attach owner)
  | p => p

variable {p : Plugin} (owner : Owner)

theorem IsBuiltIn.attached (builtIn : p.IsBuiltIn) : (p.attached owner).IsBuiltIn := by
  cases p <;> exact builtIn

theorem IsBuiltIn.isReady_attached (builtIn : p.IsBuiltIn) : (p.attached owner).IsReady := by
  cases p with
  | journal => exact builtIn
  | application p => simp [Plugin.attached, ApplicationPlugin.attach, IsReady]
  | taxonomy p => simp [Plugin.attached, TaxonomyPlugin.attach, IsReady]
  | path => trivial

theorem IsReady.isBuiltIn (ready : p.IsReady) : p.IsBuiltIn := by
  cases p with
  | journal => exact ready
  | application | taxonomy | path => trivial

theorem IsReady.attached (ready : p.IsReady) : p.attached owner = p := by
  cases p with
  | journal | path => rfl
  | application p =>
    obtain ⟨id, console⟩ := p
    obtain ⟨id, rfl⟩ := Option.isSome_iff_exists.1 ready.1
    obtain ⟨console, rfl⟩ := Option.isSome_iff_exists.1 ready.2
    rfl
  | taxonomy p =>
    obtain ⟨console, initialized⟩ := p
    obtain ⟨console, rfl⟩ := Option.isSome_iff_exists.1 ready.1
    obtain rfl : initialized = true := ready.2
    rfl

theorem IsBuiltIn.isReady_of_unusable (builtIn : p.IsBuiltIn) (unusable : p.isUsable = false) :
    p.IsReady := by
  cases p with
  | journal => exact builtIn
  | application | taxonomy => exact nomatch unusable
  | path => trivial

end Plugin

theorem Pipeline.mem_addAll {α : Type} [Named α] {a : α} {l : List α} {p : Pipeline α}
    (h : a ∈ (p.addAll l).1.plugins) : a ∈ p.plugins ∨ a ∈ l := by
  induction l generalizing p with
  | nil => exact .inl h
  | cons b l ih =>
    rw [addAll] at h
    split at h
    · next q added =>
      obtain ⟨-, rfl⟩ : _ ∧ ⟨p.plugins ++ [b]⟩ = q := by simpa [add?] using added
      rcases ih h with old | new
      · rcases List.mem_append.1 old with old | here
        · exact .inl old
        · exact .inr (List.mem_cons.2 (.inl (List.mem_singleton.1 here)))
      · exact .inr (List.mem_cons_of_mem b new)
    · exact (ih h).imp_right (List.mem_cons_of_mem b)

namespace Session

open Change

variable {s u v : Session}

def KeepsReady (s u : Session) : Prop := ∀ id, (s.plugin id).IsReady → u.plugin id = s.plugin id

namespace KeepsReady

theorem refl (s : Session) : s.KeepsReady s := fun _ _ => rfl

theorem trans (first : s.KeepsReady u) (rest : u.KeepsReady v) : s.KeepsReady v := fun id ready =>
  (rest id ((first id ready).symm ▸ ready)).trans (first id ready)

theorem of_plugins (same : u.plugins = s.plugins) : s.KeepsReady u := fun id _ =>
  congrArg (fun plugins : Array Plugin => plugins.getD id default) same

end KeepsReady

theorem deaf_plugins : Deaf plugins := fun _ _ _ => rfl

section Attaching

variable (ref : PluginRef) (owner : Owner)

theorem plugins_attach (s : Session) : ((hooks ref).attach owner s).2.plugins =
    s.plugins.set! ref.id ((s.plugin ref.id).attached owner) := by
  have same : s.plugins.set! ref.id (s.plugin ref.id) = s.plugins := set_getD _ _ _
  dsimp only [hooks]
  rw [get_bind]
  cases kind : s.plugin ref.id with
  | application | taxonomy => rfl
  | journal | path => exact (kind ▸ same).symm

theorem plugin_attach (s : Session) (id : Nat) : ((hooks ref).attach owner s).2.plugin id =
    if ref.id = id ∧ ref.id < s.plugins.size then (s.plugin id).attached owner
    else s.plugin id := by
  rw [plugin, plugins_attach, getD_set]
  split
  · next here => rw [here.1]
  · rfl

theorem keepsReady_attach (s : Session) : s.KeepsReady ((hooks ref).attach owner s).2 := by
  intro id ready
  rw [plugin_attach]
  split
  · exact ready.attached owner
  · rfl

def HasReady (s : Session) (p : Pipeline PluginRef) : Prop :=
  ∀ ref ∈ p.plugins, (s.plugin ref.id).IsReady

theorem HasReady.later {p : Pipeline PluginRef} (ready : s.HasReady p) (keeps : s.KeepsReady u) :
    u.HasReady p := fun ref mem => (keeps ref.id (ready ref mem)).symm ▸ ready ref mem

theorem onUsable_cons (act : Hooks Change → Change Unit) (ref : PluginRef) (rest : List PluginRef)
    (s : Session) : (Pipeline.mk (ref :: rest)).onUsable hooks act s =
      (Pipeline.mk rest).onUsable hooks act
        (if (s.plugin ref.id).isUsable then (act (hooks ref) s).2 else s) := by
  have whole : (Pipeline.mk (ref :: rest)).onUsable hooks act s =
      (Pipeline.mk rest).onUsable hooks act
        ((if (s.plugin ref.id).isUsable then act (hooks ref) else pure () : Change Unit) s).2 := rfl
  rw [whole]
  split <;> rfl

theorem keepsReady_attachAll (p : Pipeline PluginRef) (owner : Owner) (s : Session) :
    s.KeepsReady (p.attach hooks owner s).2 := by
  obtain ⟨refs⟩ := p
  induction refs generalizing s with
  | nil => exact .refl s
  | cons ref rest ih =>
    rw [Pipeline.attach, onUsable_cons]
    refine KeepsReady.trans ?_ (ih _)
    split
    · exact keepsReady_attach ref owner s
    · exact .refl s

theorem lt_of_isBuiltIn {id : Nat} (builtIn : (s.plugin id).IsBuiltIn) : id < s.plugins.size := by
  refine Nat.lt_of_not_le fun outside => ?_
  have missing : s.plugin id = default := by
    rw [plugin, Array.getD_eq_getD_getElem?, Array.getElem?_eq_none outside]
    rfl
  rw [missing] at builtIn
  exact builtIn

theorem isBuiltIn_attach {id : Nat} (builtIn : (s.plugin id).IsBuiltIn) :
    (((hooks ref).attach owner s).2.plugin id).IsBuiltIn := by
  rw [plugin_attach]
  split
  · exact builtIn.attached owner
  · exact builtIn

theorem hasReady_attachAll {p : Pipeline PluginRef} (owner : Owner)
    (builtIn : ∀ ref ∈ p.plugins, (s.plugin ref.id).IsBuiltIn) :
    (p.attach hooks owner s).2.HasReady p := by
  obtain ⟨refs⟩ := p
  induction refs generalizing s with
  | nil => exact nofun
  | cons ref rest ih =>
    have here := builtIn ref (by simp)
    have others : ∀ r ∈ rest, (s.plugin r.id).IsBuiltIn := fun r mem =>
      builtIn r (List.mem_cons_of_mem ref mem)
    have keeps := keepsReady_attachAll ⟨rest⟩ owner
    rw [Pipeline.attach, onUsable_cons]
    intro r mem
    rcases List.mem_cons.1 mem with rfl | mem
    · cases usable : (s.plugin r.id).isUsable with
      | true =>
        have ready : (((hooks r).attach owner s).2.plugin r.id).IsReady := by
          rw [plugin_attach, if_pos ⟨rfl, lt_of_isBuiltIn here⟩]
          exact here.isReady_attached owner
        exact (keeps _ r.id ready).symm ▸ ready
      | false =>
        have ready := here.isReady_of_unusable usable
        exact (keeps _ r.id ready).symm ▸ ready
    · cases (s.plugin ref.id).isUsable with
      | true => exact ih (fun r mem => isBuiltIn_attach ref owner (others r mem)) r mem
      | false => exact ih others r mem

end Attaching

section Making

theorem plugin_addPlugin {id : Nat} (p : Plugin) (there : id < s.plugins.size) :
    (addPlugin p s).2.plugin id = s.plugin id := by
  change (s.plugins.push p).getD id default = s.plugins.getD id default
  rw [Array.getD_eq_getD_getElem?, Array.getD_eq_getD_getElem?, Array.getElem?_push_lt there,
    Array.getElem?_eq_getElem there]

theorem plugin_addPlugin_self (p : Plugin) :
    (addPlugin p s).2.plugin (addPlugin p s).1.id = p := by
  change (s.plugins.push p).getD s.plugins.size default = p
  rw [Array.getD_eq_getD_getElem?, Array.getElem?_push_size]
  rfl

theorem keepsReady_addPlugin (p : Plugin) (s : Session) : s.KeepsReady (addPlugin p s).2 := by
  intro id ready
  exact plugin_addPlugin p (lt_of_isBuiltIn ready.isBuiltIn)

def assembled (c : TrackerConfig PluginRef) (console : ConsoleId) (plugins : List PluginRef)
    (handoff : Option HandoffId) : SessionTracker where
  applicationId := c.applicationId
  trackerId := c.trackerId
  active := c.active
  contexts := c.contexts
  plugins := (Pipeline.ofList plugins).1
  handoff
  queue := c.queue
  console

theorem assemble_run (c : TrackerConfig PluginRef) (console : ConsoleId)
    (plugins : List PluginRef) (s : Session) : ∃ (handoff : Option HandoffId) (u : Session),
      u.plugins = s.plugins ∧
        let t := assembled c console plugins handoff
        assemble c console plugins s =
          (do t.plugins.attach hooks t.owner; addTracker t : Change TrackerRef) u := by
  have reports : Fixes equipment ((Pipeline.ofList plugins).2.forM fun name =>
      report console (.error (Pipeline.takenMessage name))) := Fixes.forM fun _ => fun _ => rfl
  have opens (transport : Option Transport) : Fixes equipment (transport.mapM addHandoff) := by
    cases transport <;> exact fun _ => rfl
  have same := (opens (trackerTransport c console s).1 _).trans
    ((reports _).trans (fixes_trackerTransport c console s))
  exact ⟨_, _, congrArg Prod.snd same, rfl⟩

theorem keepsReady_assemble (c : TrackerConfig PluginRef) (console : ConsoleId)
    (plugins : List PluginRef) (s : Session) : s.KeepsReady (assemble c console plugins s).2 := by
  obtain ⟨handoff, u, same, whole⟩ := assemble_run c console plugins s
  rw [whole]
  exact KeepsReady.trans (.of_plugins same) (keepsReady_attachAll _ _ u)

theorem assemble_hasReady (c : TrackerConfig PluginRef) (console : ConsoleId)
    {plugins : List PluginRef} (builtIn : ∀ ref ∈ plugins, (s.plugin ref.id).IsBuiltIn) :
    let made := assemble c console plugins s
    ∃ t, made.2.tracker? made.1 = some t ∧ made.2.HasReady t.plugins := by
  obtain ⟨handoff, u, same, whole⟩ := assemble_run c console plugins s
  rw [whole]
  refine ⟨assembled c console plugins handoff, Array.getElem?_push_size, ?_⟩
  have found (ref : PluginRef) (mem : ref ∈ (Pipeline.ofList plugins).1.plugins) :
      (u.plugin ref.id).IsBuiltIn := by
    rw [plugin, same]
    exact builtIn ref ((Pipeline.mem_addAll mem).resolve_left nofun)
  exact hasReady_attachAll _ found

theorem makeTracker_run (c : TrackerConfig PluginRef) (s : Session) :
    ∃ u, u.plugins = s.plugins ∧ makeTracker c s =
      if c.hasApplicationPlugin then assemble c (consoleOr c.console s).1 c.plugins u
      else assemble c (consoleOr c.console s).1 ((addPlugin (.application {}) u).1 :: c.plugins)
        (addPlugin (.application {}) u).2 := by
  refine ⟨(consoleOr c.console s).2, fixes_consoleOr deaf_plugins c.console s, ?_⟩
  have whole : makeTracker c s = (if c.hasApplicationPlugin then
      assemble c (consoleOr c.console s).1 c.plugins
    else addPlugin (.application {}) >>= fun p =>
      assemble c (consoleOr c.console s).1 (c.allPlugins p) : Change TrackerRef)
        (consoleOr c.console s).2 := rfl
  rw [whole]
  split
  · rfl
  · next unlisted =>
    have put (p : PluginRef) : c.allPlugins p = p :: c.plugins := by
      simp [TrackerConfig.allPlugins, unlisted]
    simp only [put]
    rfl

theorem keepsReady_makeTracker (c : TrackerConfig PluginRef) (s : Session) :
    s.KeepsReady (makeTracker c s).2 := by
  obtain ⟨u, same, whole⟩ := makeTracker_run c s
  rw [whole]
  split
  · exact KeepsReady.trans (.of_plugins same) (keepsReady_assemble c _ _ u)
  · exact KeepsReady.trans (.of_plugins same)
      ((keepsReady_addPlugin _ u).trans (keepsReady_assemble c _ _ _))

theorem makeTracker_hasReady {c : TrackerConfig PluginRef}
    (builtIn : ∀ ref ∈ c.plugins, (s.plugin ref.id).IsBuiltIn) :
    let made := makeTracker c s
    ∃ t, made.2.tracker? made.1 = some t ∧ made.2.HasReady t.plugins := by
  obtain ⟨u, same, whole⟩ := makeTracker_run c s
  have given (ref : PluginRef) (mem : ref ∈ c.plugins) : (u.plugin ref.id).IsBuiltIn := by
    rw [plugin, same]
    exact builtIn ref mem
  rw [whole]
  split
  · exact assemble_hasReady c _ given
  · refine assemble_hasReady c _ fun ref mem => ?_
    rcases List.mem_cons.1 mem with rfl | mem
    · rw [plugin_addPlugin_self]
      trivial
    · rw [plugin_addPlugin _ (lt_of_isBuiltIn (given ref mem))]
      exact given ref mem

theorem keepsReady_deriveTracker (t : SessionTracker) (scope : Contexts) (s : Session) :
    s.KeepsReady (deriveTracker t scope s).2 := keepsReady_attachAll t.plugins t.owner s

end Making

section Tracking

theorem fixes_finalize (t : SessionTracker) (e : UntrackedEvent) (extra : List Contexts) :
    Fixes plugins (finalize t e extra) := by
  have stamps (e : UntrackedEvent) : Fixes plugins (stamp e) := fun _ => rfl
  cases active : t.active with
  | false => simpa [finalize, Tracker.finalize, active] using stamps (t.compose e extra)
  | true =>
    have validates : Fixes plugins (t.plugins.validate hooks (t.compose e extra)) :=
      fixes_onUsable t.plugins fun ref => fixes_validate deaf_plugins ref _
    have sees (e : Event) : Fixes plugins (t.plugins.beforeTransport hooks e) :=
      fixes_onUsable t.plugins fun ref => fixes_beforeTransport deaf_plugins ref e
    simpa [finalize, Tracker.finalize, active] using
      validates.bind fun _ => (fixes_enrich_all deaf_plugins t.plugins _).bind fun _ =>
        (stamps _).bind fun e => (sees e).bind fun _ => Fixes.pure e

theorem fixes_send (id : HandoffId) (e : Event) : Fixes plugins (send id e) := by
  have starts : Fixes plugins (spawn? (.forwards id)) := fun u =>
    congrArg Prod.snd (fixes_spawn? (.forwards id) u)
  have ends (sent : Handoff) : Fixes plugins (do
      setHandoff id { sent with receiver := none }
      note (.sent id e)
      wakeAll sent.receiver.toList
      return true) := fun _ => rfl
  refine Fixes.get.bind fun s => ?_
  dsimp only
  split
  · exact Fixes.pure _
  · next sent _ =>
    split
    · exact starts.bind fun _ => ends sent
    · exact ends sent

theorem fixes_track (t : SessionTracker) (e : UntrackedEvent) (extra : List Contexts) :
    Fixes plugins (track t e extra) := by
  refine (fixes_finalize t e extra).bind fun e => Fixes.bind ?_ fun _ => Fixes.pure e
  unfold handOver
  split
  · refine Fixes.get.bind fun s => ?_
    split
    · next id _ =>
      refine (fixes_send id e).bind fun sent => ?_
      cases sent with
      | true => exact Fixes.pure _
      | false => exact fixes_report deaf_plugins _ _
    · exact Fixes.pure _
  · exact Fixes.pure _

theorem keepsReady_track (t : SessionTracker) (e : UntrackedEvent) (extra : List Contexts)
    (s : Session) : s.KeepsReady (track t e extra s).2 := .of_plugins (fixes_track t e extra s)

end Tracking

-- The trackers with built-in plugins and the sessions that they are in: how they come about, and
-- what else may happen.
inductive Equipped : Session → SessionTracker → Prop
  | made {s : Session} {c : TrackerConfig PluginRef} {t : SessionTracker}
      (builtIn : ∀ ref ∈ c.plugins, (s.plugin ref.id).IsBuiltIn)
      (found : (makeTracker c s).2.tracker? (makeTracker c s).1 = some t) :
      Equipped (makeTracker c s).2 t
  | derived {s : Session} {t : SessionTracker} (scope : Contexts) (source : Equipped s t) :
      Equipped (deriveTracker t scope s).2 (t.derive scope)
  | switched {s : Session} {t : SessionTracker} (active : Bool) (source : Equipped s t) :
      Equipped s { t with active }
  | later {s u : Session} {t : SessionTracker} (source : Equipped s t) (keeps : s.KeepsReady u) :
      Equipped u t

theorem Equipped.hasReady {t : SessionTracker} (equipped : s.Equipped t) :
    s.HasReady t.plugins := by
  induction equipped with
  | made builtIn found =>
    obtain ⟨t, there, ready⟩ := makeTracker_hasReady builtIn
    obtain rfl := Option.some.inj (there.symm.trans found)
    exact ready
  | derived scope source ih => exact ih.later (keepsReady_deriveTracker _ scope _)
  | switched active source ih => exact ih
  | later source keeps ih => exact ih.later keeps

theorem Equipped.beside {t : SessionTracker} (equipped : s.Equipped t) :
    (∀ c, (makeTracker c s).2.Equipped t) ∧
      (∀ other scope, (deriveTracker other scope s).2.Equipped t) ∧
      ∀ other e extra, (track other e extra s).2.Equipped t :=
  ⟨fun c => equipped.later (keepsReady_makeTracker c s),
    fun other scope => equipped.later (keepsReady_deriveTracker other scope s),
    fun other e extra => equipped.later (keepsReady_track other e extra s)⟩

end Session

end EventTracking
