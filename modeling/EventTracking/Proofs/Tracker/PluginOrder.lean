import Mathlib.Data.List.Basic
import EventTracking.Proofs.Taxonomy.Rules
import EventTracking.Proofs.Tracker.Scoping

set_option autoImplicit false

namespace EventTracking

theorem foldl_perm {α β : Type} {R : β → β → Prop} {f : β → α → β} {l l' : List α}
    (same : l.Perm l') (refl : ∀ b, R b b) (trans : ∀ {a b c}, R a b → R b c → R a c)
    (keeps : ∀ x ∈ l, ∀ {a b}, R a b → R (f a x) (f b x))
    (commutes : ∀ x ∈ l, ∀ y ∈ l, ∀ a, R (f (f a x) y) (f (f a y) x)) {a b : β} (h : R a b) :
    R (l.foldl f a) (l'.foldl f b) := by
  induction same generalizing a b with
  | nil => exact h
  | cons x _ ih =>
    exact ih (fun y mem => keeps y (.tail x mem))
      (fun y mem z mem' => commutes y (.tail x mem) z (.tail x mem')) (keeps x (.head _) h)
  | swap x y l =>
    have kept : R (f (f a y) x) (f (f b y) x) := keeps x (by simp) (keeps y (by simp) h)
    have swapped := trans kept (commutes y (by simp) x (by simp) b)
    exact List.foldl_rel swapped fun z mem _ _ h => keeps z (by simp [mem]) h
  | trans one _ first second =>
    have mem {x : α} := one.mem_iff (a := x)
    exact trans (first keeps commutes h) (second (fun x there => keeps x (mem.2 there))
      (fun x there y there' => commutes x (mem.2 there) y (mem.2 there')) (refl b))

namespace Pipeline

variable {α : Type} [Named α]

theorem addAll_of_nodup {l : List α} {p : Pipeline α}
    (distinct : ((p.plugins ++ l).map Named.name).Nodup) :
    p.addAll l = (⟨p.plugins ++ l⟩, []) := by
  induction l generalizing p with
  | nil => simp [addAll]
  | cons a l ih =>
    have fresh : p.has (Named.name a) = false := by
      rw [has, List.any_eq_false]
      intro b mem same
      have apart := (List.nodup_append.1 (List.map_append ▸ distinct)).2.2
      exact apart _ (List.mem_map_of_mem mem) _ (by simp) (beq_iff_eq.1 same)
    have added : p.add? a = some ⟨p.plugins ++ [a]⟩ := by simp [add?, fresh]
    rw [addAll, added]
    simpa using ih (p := ⟨p.plugins ++ [a]⟩) (by simpa using distinct)

theorem ofList_of_nodup {l : List α} (distinct : (l.map Named.name).Nodup) :
    (ofList l).1 = ⟨l⟩ := by
  rw [ofList, addAll_of_nodup (by simpa using distinct)]
  rfl

end Pipeline

namespace Contexts

variable {b c d : Contexts}

theorem Reordered.refl (c : Contexts) : c.Reordered c := ⟨rfl, .refl _⟩

theorem Reordered.symm (h : c.Reordered d) : d.Reordered c := ⟨h.locations.symm, h.globals.symm⟩

theorem Reordered.trans (first : b.Reordered c) (rest : c.Reordered d) : b.Reordered d :=
  ⟨first.locations.trans rest.locations, first.globals.trans rest.globals⟩

theorem withGlobal_comm (c : Contexts) (x y : Context) :
    ((c.withGlobal x).withGlobal y).Reordered ((c.withGlobal y).withGlobal x) := by
  refine ⟨rfl, ?_⟩
  have swapped : [x, y].Perm [y, x] := .swap y x []
  simpa [withGlobal] using swapped.append_left c.globals

end Contexts

theorem PathPlugin.enrich_application (p : PathPlugin) (c : Contexts) (id : String) :
    (p.enrich (c.withGlobal (.application id))).Reordered
      ((p.enrich c).withGlobal (.application id)) := by
  have other : Names.applicationContext ≠ Names.pathContext := by decide
  have still : (c.withGlobal (.application id)).globals.any
      (fun x => x.type == Names.pathContext) =
        c.globals.any fun x => x.type == Names.pathContext := by
    simp [Contexts.withGlobal, Context.application, Context.new, other]
  simp only [enrich, still]
  split
  · exact .refl _
  · split
    · exact c.withGlobal_comm _ _
    · exact .refl _

namespace Plugin

def kit (application : ApplicationPlugin) (path : Option String) (validator : TaxonomyPlugin) :
    List Plugin := [.application application, .path ⟨some path⟩, .taxonomy validator]

variable {application : ApplicationPlugin} {path : Option String} {validator : TaxonomyPlugin}

theorem enriched_comm (known : application.applicationId.isSome) {p q : Plugin}
    (first : p ∈ kit application path validator) (second : q ∈ kit application path validator)
    (c : Contexts) : (q.enriched (p.enriched c)).Reordered (p.enriched (q.enriched c)) := by
  obtain ⟨id, known⟩ := Option.isSome_iff_exists.1 known
  have given (c : Contexts) : (Plugin.application application).enriched c =
      c.withGlobal (.application id) := by simp [enriched, ApplicationPlugin.enrich?, known]
  have crossed := PathPlugin.enrich_application ⟨some path⟩ c id
  simp only [kit, List.mem_cons, List.not_mem_nil, or_false] at first second
  rcases first with rfl | rfl | rfl <;> rcases second with rfl | rfl | rfl
  case inl.inr.inl =>
    rw [given, given]
    exact crossed
  case inr.inl.inl =>
    rw [given, given]
    exact crossed.symm
  all_goals exact .refl _

theorem isUsable_kit {p : Plugin} (mem : p ∈ kit application path validator) :
    p.isUsable = true := by
  simp only [kit, List.mem_cons, List.not_mem_nil, or_false] at mem
  rcases mem with rfl | rfl | rfl <;> rfl

theorem enriched_kit {l : List Plugin} {id : String} (known : application.applicationId = some id)
    (same : l.Perm (kit application path validator)) (ready : ∀ p ∈ l, p.IsReady) (c : Contexts) :
    (l.foldl (fun c p => p.enriched c) c).Reordered
      (PathPlugin.enrich ⟨some path⟩ (c.withGlobal (.application id))) := by
  have there {p : Plugin} (mem : p ∈ l) := same.subset mem
  have isSome : application.applicationId.isSome := by simp [known]
  have sorted : (l.foldl (fun c p => p.enriched c) c).Reordered
      ((kit application path validator).foldl (fun c p => p.enriched c) c) :=
    foldl_perm same .refl .trans (fun p mem _ _ => enriched_reordered (ready p mem))
      (fun p mem q mem' => enriched_comm isSome (there mem) (there mem')) (.refl c)
  simpa [kit, enriched, ApplicationPlugin.enrich?, known] using sorted

def validator? : Plugin → Option TaxonomyPlugin
  | taxonomy p => some p
  | _ => none

theorem attached_attached (p : Plugin) (owner : Owner) :
    (p.attached owner).attached owner = p.attached owner := by
  cases p with
  | journal | path => rfl
  | application p => cases h : p.applicationId <;> cases p.console <;>
      simp [attached, ApplicationPlugin.attach]
  | taxonomy p => cases p.console <;> simp [attached, TaxonomyPlugin.attach]

theorem isBuiltIn_kit {p : Plugin} (mem : p ∈ kit application path validator) : p.IsBuiltIn := by
  simp only [kit, List.mem_cons, List.not_mem_nil, or_false] at mem
  rcases mem with rfl | rfl | rfl <;> trivial

end Plugin

theorem Plugin.kit_attached {path : Option String} {validator : TaxonomyPlugin}
    (own : Option ConsoleId) (owner : Owner) :
    (kit ⟨none, own⟩ path validator).map (attached owner) =
      kit ⟨some owner.applicationId, own.or (some owner.console)⟩ path
        ⟨some (validator.console.getD owner.console), true⟩ := by
  cases h : validator.console <;>
    simp [kit, attached, ApplicationPlugin.attach, TaxonomyPlugin.attach, h]

def TaxonomyPlugin.entries (type : String) : List Taxonomy.Violation → List Entry
  | [] => []
  | violations =>
    [.group (name ++ ": " ++ type ++ " failed validation")] ++
      violations.map (fun v => .error v.message) ++ [.groupEnd]

theorem TaxonomyPlugin.reports_eq {p : TaxonomyPlugin} (initialized : p.initialized) (e : Event) :
    p.reports e = entries e.type (Taxonomy.validate e) := by
  unfold reports entries
  cases Taxonomy.validate e <;> simp [initialized]

namespace Taxonomy

def Reported (violations : List Violation) (type : String) (kind : ViolationKind) : Prop :=
  ∃ v ∈ violations, v.contextType = type ∧ v.kind = kind

variable {e : Event} {kind : ViolationKind}

theorem reported_application : Reported (validate e) Names.applicationContext kind ↔
    Miscounted (occurrences Names.applicationContext e.contexts.globals) kind := by
  have root : Names.rootLocationContext ≠ Names.applicationContext := by decide
  have path : Names.pathContext ≠ Names.applicationContext := by decide
  refine ⟨?_, fun wrong => ⟨_, mem_validate.2 (.application wrong), rfl, rfl⟩⟩
  rintro ⟨v, mem, type, rfl⟩
  cases mem_validate.1 mem with
  | application wrong => exact wrong
  | root => exact absurd type root
  | path => exact absurd type path

theorem reported_path (reported : Reported (validate e) Names.pathContext kind) :
    Miscounted (occurrences Names.pathContext e.contexts.globals) kind := by
  have application : Names.applicationContext ≠ Names.pathContext := by decide
  have root : Names.rootLocationContext ≠ Names.pathContext := by decide
  obtain ⟨v, mem, type, rfl⟩ := reported
  cases mem_validate.1 mem with
  | application => exact absurd type application
  | root => exact absurd type root
  | path _ wrong => exact wrong

theorem occurrences_perm {l l' : List Context} (same : l.Perm l') (type : String) :
    occurrences type l = occurrences type l' := (same.map Context.type).count_eq type

theorem occurrences_pos {type : String} {l : List Context} :
    0 < occurrences type l ↔ ∃ c ∈ l, c.type = type := by
  rw [occurrences, List.count_pos_iff, List.mem_map]

end Taxonomy

namespace PathPlugin

theorem occurrences_enrich (path : String) (c : Contexts) :
    0 < Taxonomy.occurrences Names.pathContext (enrich ⟨some (some path)⟩ c).globals := by
  rw [Taxonomy.occurrences_pos]
  unfold enrich
  split
  · next there => simpa using there
  · exact ⟨.path path, by simp [Contexts.withGlobal], rfl⟩

theorem occurrences_enrich_of_ne {type : String} (other : type ≠ Names.pathContext)
    (p : PathPlugin) (c : Contexts) :
    Taxonomy.occurrences type (p.enrich c).globals = Taxonomy.occurrences type c.globals := by
  unfold enrich
  split
  · rfl
  · split
    · simp [Taxonomy.occurrences, Contexts.withGlobal, Context.path, Context.new, other.symm]
    · rfl

end PathPlugin

namespace Session

open Change

variable {s u v : Session}

def installed (s : Session) (p : Pipeline PluginRef) : List Plugin :=
  p.plugins.map fun ref => s.plugin ref.id

theorem installed_plugins (same : u.plugins = s.plugins) : u.installed = s.installed := by
  unfold installed plugin
  rw [same]

theorem installed_later {p : Pipeline PluginRef} (ready : s.HasReady p) (keeps : s.KeepsReady u) :
    u.installed p = s.installed p :=
  List.map_congr_left fun ref mem => keeps ref.id (ready ref mem)

section Attaching

variable {p : Pipeline PluginRef}

theorem plugin_attachAll (owner : Owner)
    (builtIn : ∀ ref ∈ p.plugins, (s.plugin ref.id).IsBuiltIn) {ref : PluginRef}
    (mem : ref ∈ p.plugins) :
    (p.attach hooks owner s).2.plugin ref.id = (s.plugin ref.id).attached owner := by
  obtain ⟨refs⟩ := p
  induction refs generalizing s with
  | nil => exact nomatch mem
  | cons head rest ih =>
    rw [Pipeline.attach, onUsable_cons]
    let next := if (s.plugin head.id).isUsable then ((hooks head).attach owner s).2 else s
    have others (r : PluginRef) (mem : r ∈ rest) : (next.plugin r.id).IsBuiltIn := by
      have here := builtIn r (.tail head mem)
      dsimp only [next]
      split
      · exact isBuiltIn_attach head owner here
      · exact here
    rcases List.mem_cons.1 mem with rfl | mem
    · have here := builtIn ref (.head rest)
      have attached : next.plugin ref.id = (s.plugin ref.id).attached owner := by
        dsimp only [next]
        split
        · rw [plugin_attach, if_pos ⟨rfl, lt_of_isBuiltIn here⟩]
        · next unusable =>
          exact ((here.isReady_of_unusable (by simpa using unusable)).attached owner).symm
      have ready : (next.plugin ref.id).IsReady := attached ▸ here.isReady_attached owner
      exact (keepsReady_attachAll ⟨rest⟩ owner next ref.id ready).trans attached
    · have first : (next.plugin ref.id).attached owner = (s.plugin ref.id).attached owner := by
        dsimp only [next]
        split
        · rw [plugin_attach]
          split
          · exact Plugin.attached_attached _ owner
          · rfl
        · rfl
      exact (ih others mem).trans first

theorem installed_attachAll (owner : Owner)
    (builtIn : ∀ ref ∈ p.plugins, (s.plugin ref.id).IsBuiltIn) :
    (p.attach hooks owner s).2.installed p = (s.installed p).map (Plugin.attached owner) := by
  rw [installed, installed, List.map_map]
  exact List.map_congr_left fun ref mem => plugin_attachAll owner builtIn mem

end Attaching

-- A list of plugins that come with the library, each kind once and in any order. The one that
-- gives the application's context has not met a tracker yet, or is left to the tracker.
structure Lists (s : Session) (path : Option String) (validator : TaxonomyPlugin)
    (plugins : List PluginRef) : Prop where
  named : ∀ ref ∈ plugins, ref.name = (s.plugin ref.id).name
  kinds : (∃ console, (s.installed ⟨plugins⟩).Perm (Plugin.kit ⟨none, console⟩ path validator)) ∨
    (s.installed ⟨plugins⟩).Perm [.path ⟨some path⟩, .taxonomy validator]

structure Outfit (s : Session) (c : TrackerConfig PluginRef) (path : Option String)
    (console : ConsoleId) (t : SessionTracker) : Prop where
  active : t.active = c.active
  contexts : t.contexts = c.contexts
  ready : s.HasReady t.plugins
  installed : ∃ own, (s.installed t.plugins).Perm
    (Plugin.kit ⟨some c.applicationId, own⟩ path ⟨some console, true⟩)

section Making

variable {c : TrackerConfig PluginRef} {path : Option String} {validator : TaxonomyPlugin}
  {plugins : List PluginRef} {kinds : List Plugin}

theorem names_perm (named : ∀ ref ∈ plugins, ref.name = (s.plugin ref.id).name)
    (installed : (s.installed ⟨plugins⟩).Perm kinds) :
    (plugins.map Named.name).Perm (kinds.map Plugin.name) := by
  have same : plugins.map Named.name = (s.installed ⟨plugins⟩).map Plugin.name := by
    rw [Session.installed, List.map_map]
    exact List.map_congr_left named
  exact same ▸ installed.map Plugin.name

theorem builtIn_of_installed (builtIn : ∀ p ∈ kinds, p.IsBuiltIn)
    (installed : (s.installed ⟨plugins⟩).Perm kinds) :
    ∀ ref ∈ plugins, (s.plugin ref.id).IsBuiltIn := fun _ mem =>
  builtIn _ (installed.subset (List.mem_map_of_mem mem))

theorem hasApplicationPlugin_eq (names : (c.plugins.map Named.name).Perm (kinds.map Plugin.name)) :
    c.hasApplicationPlugin = kinds.any fun p => p.name == ApplicationPlugin.name := by
  have same := names.any_eq (f := fun name => name == ApplicationPlugin.name)
  rwa [List.any_map, List.any_map] at same

theorem assemble_outfit (k : ConsoleId) {own : Option ConsoleId}
    (named : ∀ ref ∈ plugins, ref.name = (s.plugin ref.id).name)
    (installed : (s.installed ⟨plugins⟩).Perm (Plugin.kit ⟨none, own⟩ path validator)) :
    let made := assemble c k plugins s
    ∃ t, made.2.tracker? made.1 = some t ∧
      made.2.Outfit c path (validator.console.getD k) t := by
  have builtIn := builtIn_of_installed (fun _ => Plugin.isBuiltIn_kit) installed
  have distinct : (plugins.map Named.name).Nodup := by
    have names : [ApplicationPlugin.name, PathPlugin.name, TaxonomyPlugin.name].Nodup := by decide
    exact (names_perm named installed).nodup_iff.2 names
  obtain ⟨handoff, u, same, whole⟩ := assemble_run c k plugins s
  let t := assembled c k plugins handoff
  have pipeline : t.plugins = ⟨plugins⟩ := Pipeline.ofList_of_nodup distinct
  have found (ref : PluginRef) (mem : ref ∈ t.plugins.plugins) : (u.plugin ref.id).IsBuiltIn := by
    rw [pipeline] at mem
    rw [plugin, same]
    exact builtIn ref mem
  have attached : ((t.plugins.attach hooks t.owner u).2.installed t.plugins).Perm
      ((Plugin.kit ⟨none, own⟩ path validator).map (Plugin.attached t.owner)) := by
    rw [installed_attachAll t.owner found, installed_plugins same, pipeline]
    exact installed.map _
  rw [whole]
  exact ⟨t, Array.getElem?_push_size, rfl, rfl, hasReady_attachAll t.owner found, _,
    Plugin.kit_attached own t.owner ▸ attached⟩

theorem makeTracker_outfit (lists : s.Lists path validator c.plugins) :
    let made := makeTracker c s
    ∃ t, made.2.tracker? made.1 = some t ∧
      made.2.Outfit c path (validator.console.getD (consoleOr c.console s).1) t := by
  obtain ⟨u, same, whole⟩ := makeTracker_run c s
  have named (ref : PluginRef) (mem : ref ∈ c.plugins) : ref.name = (u.plugin ref.id).name := by
    rw [plugin, same]
    exact lists.named ref mem
  rw [whole]
  rcases lists.kinds with ⟨own, listed⟩ | unlisted
  · have has : c.hasApplicationPlugin = true :=
      hasApplicationPlugin_eq (names_perm lists.named listed)
    rw [if_pos has]
    exact assemble_outfit _ named (installed_plugins same ▸ listed)
  · have missing : c.hasApplicationPlugin = false :=
      hasApplicationPlugin_eq (names_perm lists.named unlisted)
    have still : u.installed ⟨c.plugins⟩ = s.installed ⟨c.plugins⟩ :=
      congrFun (installed_plugins same) _
    have builtIn : ∀ ref ∈ c.plugins, (u.plugin ref.id).IsBuiltIn :=
      builtIn_of_installed (by simp [Plugin.IsBuiltIn]) (still ▸ unlisted)
    let added := addPlugin (.application {}) u
    have kept (ref : PluginRef) (mem : ref ∈ c.plugins) :
        added.2.plugin ref.id = u.plugin ref.id :=
      plugin_addPlugin _ (lt_of_isBuiltIn (builtIn ref mem))
    have installed : added.2.installed ⟨added.1 :: c.plugins⟩ =
        .application {} :: s.installed ⟨c.plugins⟩ := by
      rw [← still]
      exact congrArg₂ List.cons (plugin_addPlugin_self _) (List.map_congr_left kept)
    have kit : (added.2.installed ⟨added.1 :: c.plugins⟩).Perm
        (Plugin.kit ⟨none, none⟩ path validator) := installed ▸ unlisted.cons _
    have fresh (ref : PluginRef) (mem : ref ∈ added.1 :: c.plugins) :
        ref.name = (added.2.plugin ref.id).name := by
      rcases List.mem_cons.1 mem with rfl | mem
      · rw [plugin_addPlugin_self]
        rfl
      · rw [kept ref mem]
        exact named ref mem
    rw [if_neg (by simp [missing])]
    exact assemble_outfit _ fresh kit

end Making

section Finishing

variable {p : Pipeline PluginRef}

theorem validate_ready {ref : PluginRef} (ready : (s.plugin ref.id).IsReady)
    (e : UntrackedEvent) : (hooks ref).validate e s = ((), s) := by
  dsimp only [hooks]
  rw [get_bind]
  cases kind : s.plugin ref.id with
  | journal =>
    rw [kind] at ready
    exact ready.elim
  | application | taxonomy | path => rfl

theorem validate_all_ready (ready : s.HasReady p) (e : UntrackedEvent) :
    p.validate hooks e s = ((), s) := by
  obtain ⟨refs⟩ := p
  induction refs with
  | nil => rfl
  | cons ref rest ih =>
    rw [Pipeline.validate, onUsable_cons, validate_ready (ready ref (.head rest)), ite_self]
    exact ih fun r mem => ready r (.tail ref mem)

theorem enrich_ready {ref : PluginRef} (ready : (s.plugin ref.id).IsReady) (c : Contexts) :
    (hooks ref).enrich c s = ((s.plugin ref.id).enriched c, s) := by
  dsimp only [hooks]
  rw [get_bind]
  cases kind : s.plugin ref.id with
  | journal =>
    rw [kind] at ready
    exact ready.elim
  | application p =>
    rw [kind] at ready
    obtain ⟨id, known⟩ := Option.isSome_iff_exists.1 ready.1
    simp only [Plugin.enriched, ApplicationPlugin.enrich?, known]
    rfl
  | taxonomy | path => rfl

theorem enrich_all_ready (ready : s.HasReady p) (c : Contexts) :
    p.enrich hooks c s = (s.enriched p c, s) := by
  obtain ⟨refs⟩ := p
  induction refs generalizing c with
  | nil => rfl
  | cons ref rest ih =>
    let first : Change Contexts :=
      if (s.plugin ref.id).isUsable then (hooks ref).enrich c else pure c
    have run : (Pipeline.mk (ref :: rest)).enrich hooks c s =
        (Pipeline.mk rest).enrich hooks (first s).1 (first s).2 := by
      rw [Pipeline.enrich, List.foldlM_cons]
      rfl
    have made : first s = (if (s.plugin ref.id).isUsable then
        (s.plugin ref.id).enriched c else c, s) := by
      dsimp only [first]
      split
      · exact enrich_ready (ready ref (.head rest)) c
      · rfl
    rw [run, made]
    exact ih _ fun r mem => ready r (.tail ref mem)

theorem enriched_eq_foldl (usable : ∀ q ∈ s.installed p, q.isUsable) (c : Contexts) :
    s.enriched p c = (s.installed p).foldl (fun c q => q.enriched c) c := by
  rw [Session.enriched, installed, List.foldl_map]
  refine List.foldl_ext _ _ c fun c ref mem => ?_
  rw [if_pos (usable _ (List.mem_map_of_mem mem))]

theorem beforeTransport_ready {ref : PluginRef} (ready : (s.plugin ref.id).IsReady) (e : Event) :
    (hooks ref).beforeTransport e s = ((s.plugin ref.id).validator?.toList.forM
      fun v => (v.reports e).forM (report (v.console.getD 0))) s := by
  dsimp only [hooks]
  rw [get_bind]
  cases kind : s.plugin ref.id with
  | journal =>
    rw [kind] at ready
    exact ready.elim
  | taxonomy v =>
    rw [kind] at ready
    obtain ⟨console, known⟩ := Option.isSome_iff_exists.1 ready.1
    have one : [v].forM (fun v => (v.reports e).forM (report (v.console.getD 0))) =
        (v.reports e).forM (report console) := by simp [known]
    change (consoleOr v.console >>= fun console => (v.reports e).forM (report console)) s =
      ([v].forM fun v => (v.reports e).forM (report (v.console.getD 0))) s
    rw [one, known]
    rfl
  | application | path => rfl

theorem beforeTransport_all_ready (ready : s.HasReady p) (e : Event) :
    p.beforeTransport hooks e s = (((s.installed p).filterMap Plugin.validator?).forM
      fun v => (v.reports e).forM (report (v.console.getD 0))) s := by
  obtain ⟨refs⟩ := p
  induction refs generalizing s with
  | nil => rfl
  | cons ref rest ih =>
    let tell (v : TaxonomyPlugin) : Change Unit := (v.reports e).forM (report (v.console.getD 0))
    let here := (s.plugin ref.id).validator?.toList
    let first := if (s.plugin ref.id).isUsable then ((hooks ref).beforeTransport e s).2 else s
    have same : first.plugins = s.plugins := by
      dsimp only [first]
      split
      · exact fixes_beforeTransport deaf_plugins ref e s
      · rfl
    have told : first = (here.forM tell s).2 := by
      dsimp only [first]
      split
      · rw [beforeTransport_ready (ready ref (.head rest))]
      · next unusable =>
        -- A plugin that checks the taxonomy is always usable.
        have none : here = [] := by
          dsimp only [here]
          cases kind : s.plugin ref.id <;> simp_all [Plugin.isUsable, Plugin.validator?]
        rw [none]
        rfl
    have others : first.HasReady ⟨rest⟩ :=
      HasReady.later (fun r mem => ready r (.tail ref mem)) (.of_plugins same)
    have split : (s.installed ⟨ref :: rest⟩).filterMap Plugin.validator? =
        here ++ (s.installed ⟨rest⟩).filterMap Plugin.validator? := by
      simp only [installed, List.map_cons, List.filterMap_cons, here]
      cases (s.plugin ref.id).validator? <;> rfl
    have whole (l : List TaxonomyPlugin) :
        (here ++ l).forM tell = (do here.forM tell; l.forM tell) := List.forM_append
    rw [Pipeline.beforeTransport, onUsable_cons]
    refine (ih others).trans ?_
    rw [installed_plugins same, split, told]
    exact (congrFun (whole _) s).symm

theorem finalize_ready {t : SessionTracker} (ready : s.HasReady t.plugins)
    (e : UntrackedEvent) (extra : List Contexts) : finalize t e extra s = (do
      let x ← stamp { e with contexts := s.finished t (t.compose e extra).contexts }
      if t.active then t.plugins.beforeTransport hooks x
      return x : Change Event) s := by
  cases active : t.active with
  | false =>
    simp only [finalize, Tracker.finalize, finished, active]
    rfl
  | true =>
    let stamped (contexts : Contexts) : Change Event := do
      let x ← stamp { e with contexts }
      t.plugins.beforeTransport hooks x
      return x
    let validated := (t.plugins.validate hooks (t.compose e extra) s).2
    let enriched := t.plugins.enrich hooks (t.compose e extra).contexts validated
    have run : finalize t e extra s = stamped enriched.1 enriched.2 := by
      simp only [finalize, Tracker.finalize, active]
      rfl
    have kept : validated = s := by
      dsimp only [validated]
      rw [validate_all_ready ready]
    have given : enriched = (s.finished t (t.compose e extra).contexts, s) := by
      dsimp only [enriched]
      rw [kept, enrich_all_ready ready, finished, if_pos active]
    rw [run, given]
    rfl

end Finishing

def Finishes (s : Session) (t : SessionTracker) (e : UntrackedEvent) (extra : List Contexts)
    (console : ConsoleId) (violations : List Taxonomy.Violation) : Prop :=
  ∃ composed, finalize t e extra s = (do
    let x ← stamp composed
    (TaxonomyPlugin.entries x.type violations).forM (report console)
    return x : Change Event) s

namespace Outfit

variable {c : TrackerConfig PluginRef} {path : Option String} {console : ConsoleId}
  {t : SessionTracker}

theorem later (outfit : s.Outfit c path console t) (keeps : s.KeepsReady u) :
    u.Outfit c path console t where
  active := outfit.active
  contexts := outfit.contexts
  ready := outfit.ready.later keeps
  installed := installed_later outfit.ready keeps ▸ outfit.installed

theorem finished (outfit : s.Outfit c path console t) (d : Contexts) :
    (s.finished t d).Reordered (if c.active then
      PathPlugin.enrich ⟨some path⟩ (d.withGlobal (.application c.applicationId)) else d) := by
  obtain ⟨own, installed⟩ := outfit.installed
  have there {q : Plugin} (mem : q ∈ s.installed t.plugins) := installed.subset mem
  have ready (q : Plugin) (mem : q ∈ s.installed t.plugins) : q.IsReady := by
    obtain ⟨ref, used, rfl⟩ := List.mem_map.1 mem
    exact outfit.ready ref used
  rw [Session.finished, outfit.active]
  split
  · rw [enriched_eq_foldl fun q mem => Plugin.isUsable_kit (there mem)]
    exact Plugin.enriched_kit rfl installed ready d
  · exact .refl d

theorem tells (outfit : s.Outfit c path console t) (e : Event) :
    t.plugins.beforeTransport hooks e s =
      ((TaxonomyPlugin.entries e.type (Taxonomy.validate e)).forM (report console)) s := by
  obtain ⟨own, installed⟩ := outfit.installed
  have only : (s.installed t.plugins).filterMap Plugin.validator? = [⟨some console, true⟩] :=
    List.perm_singleton.1 (installed.filterMap Plugin.validator?)
  rw [beforeTransport_all_ready outfit.ready, only, List.forM_eq_forM, List.forM_cons,
    TaxonomyPlugin.reports_eq rfl]
  rfl

theorem finishes (outfit : s.Outfit c path console t) (e : UntrackedEvent)
    (extra : List Contexts) :
    s.Finishes t e extra console
      (if c.active then Taxonomy.validate (track t e extra s).1 else []) := by
  let composed : UntrackedEvent :=
    { e with contexts := s.finished t (t.compose e extra).contexts }
  have whole := finalize_ready outfit.ready e extra
  have result : (track t e extra s).1 = (stamp composed s).1 := by
    change (finalize t e extra s).1 = _
    rw [whole]
    split <;> rfl
  refine ⟨composed, ?_⟩
  rw [whole, outfit.active, result]
  let stamped := stamp composed s
  have told := (outfit.later (.of_plugins rfl) : stamped.2.Outfit c path console t).tells stamped.1
  split
  · exact congrArg (fun r : Unit × Session => (stamped.1, r.2)) told
  · rfl

theorem contexts_track (outfit : s.Outfit c path console t) (e : UntrackedEvent)
    (extra : List Contexts) :
    (track t e extra s).1.contexts.Reordered (if c.active then
      PathPlugin.enrich ⟨some path⟩
        ((t.compose e extra).contexts.withGlobal (.application c.applicationId))
      else (t.compose e extra).contexts) := by
  obtain ⟨_, _, tracked⟩ := track_fst t e extra s
  rw [tracked]
  exact outfit.finished _

theorem reported (outfit : s.Outfit c path console t) (active : c.active = true)
    (e : UntrackedEvent) (extra : List Contexts) :
    let violations := Taxonomy.validate (track t e extra s).1
    (∀ kind, Taxonomy.Reported violations Names.applicationContext kind ↔
      kind = .duplicate ∧ ∃ g ∈ e.contexts.globals ++ extra.flatMap Contexts.globals ++
        c.contexts.globals, g.type = Names.applicationContext) ∧
    (path.isSome → ¬Taxonomy.Reported violations Names.pathContext .missing) := by
  have tracked := outfit.contexts_track e extra
  rw [if_pos active] at tracked
  have own : (t.compose e extra).contexts.globals =
      e.contexts.globals ++ extra.flatMap Contexts.globals ++ c.contexts.globals := by
    simp [Tracker.compose, Contexts.merge, outfit.contexts]
  refine ⟨fun kind => ?_, fun known => ?_⟩
  · have counted : Taxonomy.occurrences Names.applicationContext
        (track t e extra s).1.contexts.globals =
          Taxonomy.occurrences Names.applicationContext (t.compose e extra).contexts.globals + 1 := by
      rw [Taxonomy.occurrences_perm tracked.globals, PathPlugin.occurrences_enrich_of_ne (by decide)]
      simp [Taxonomy.occurrences, Contexts.withGlobal, Context.application, Context.new]
    rw [Taxonomy.reported_application, counted, own, ← Taxonomy.occurrences_pos]
    refine ⟨fun wrong => ?_, ?_⟩
    · cases wrong with
      | missing absent => omega
      | duplicate several => exact ⟨rfl, by omega⟩
    · rintro ⟨rfl, there⟩
      exact .duplicate (by omega)
  · obtain ⟨path, rfl⟩ := Option.isSome_iff_exists.1 known
    intro missing
    have there := PathPlugin.occurrences_enrich path
      ((t.compose e extra).contexts.withGlobal (.application c.applicationId))
    rw [← Taxonomy.occurrences_perm tracked.globals] at there
    cases Taxonomy.reported_path missing with
    | missing absent => omega

end Outfit

/-- Whatever happens in between, trackers of one configuration with its plugins in two orders finish
an event alike and report the same violations. The context of the application is never missing; it
is a duplicate if the tracker is active and the contexts that are given hold another one. The
context of the path is not missing if the path is known. -/
theorem order_irrelevant {c : TrackerConfig PluginRef} {path : Option String}
    {validator : TaxonomyPlugin} {order : List PluginRef}
    (first : s.Lists path validator c.plugins) (second : s.Lists path validator order)
    (e : UntrackedEvent) (extra : List Contexts) :
    let one := makeTracker c s
    let other := makeTracker { c with plugins := order } s
    ∃ t t' console, one.2.tracker? one.1 = some t ∧ other.2.tracker? other.1 = some t' ∧
      ∀ u v, one.2.KeepsReady u → other.2.KeepsReady v →
        (track t e extra u).1.Agrees (track t' e extra v).1 ∧
        ∃ violations, u.Finishes t e extra console violations ∧
          v.Finishes t' e extra console violations ∧
          ¬Taxonomy.Reported violations Names.applicationContext .missing ∧
          (Taxonomy.Reported violations Names.applicationContext .duplicate ↔
            c.active = true ∧ ∃ g ∈ e.contexts.globals ++ extra.flatMap Contexts.globals ++
              c.contexts.globals, g.type = Names.applicationContext) ∧
          (path.isSome → ¬Taxonomy.Reported violations Names.pathContext .missing) := by
  obtain ⟨t, found, outfit⟩ := makeTracker_outfit first
  obtain ⟨t', found', outfit'⟩ := makeTracker_outfit (c := { c with plugins := order }) second
  let console := validator.console.getD (consoleOr c.console s).1
  refine ⟨t, t', console, found, found', fun u v keeps keeps' => ?_⟩
  have one := outfit.later keeps
  have other := outfit'.later keeps'
  have agrees : (track t e extra u).1.Agrees (track t' e extra v).1 := by
    obtain ⟨_, _, tracked⟩ := track_fst t e extra u
    obtain ⟨_, _, tracked'⟩ := track_fst t' e extra v
    have composed : t.compose e extra = t'.compose e extra := by
      simp only [Tracker.compose, outfit.contexts, outfit'.contexts]
    have reordered := one.contexts_track e extra
    rw [composed] at reordered
    refine ⟨?_, ?_, reordered.trans (other.contexts_track e extra).symm⟩
    · rw [tracked, tracked']
      rfl
    · rw [tracked, tracked']
      rfl
  refine ⟨agrees, _, one.finishes e extra, ?_, ?_⟩
  · rw [Taxonomy.validate_agrees agrees]
    exact other.finishes e extra
  · cases active : c.active with
    | false => simp [Taxonomy.Reported]
    | true =>
      obtain ⟨application, path⟩ := one.reported active e extra
      have missing : ¬Taxonomy.Reported (Taxonomy.validate (track t e extra u).1)
          Names.applicationContext .missing := by
        intro missing
        cases ((application .missing).1 missing).1
      simp only [if_true]
      exact ⟨missing, (application .duplicate).trans (by simp), path⟩

section Sample

def stockedShop : Session := { shop with plugins := shop.plugins.push (.application {}) }

def backwards : List PluginRef :=
  [⟨1, TaxonomyPlugin.name⟩, ⟨2, ApplicationPlugin.name⟩, ⟨0, PathPlugin.name⟩]

def foreignScope : Contexts := ⟨[], [.application "other"]⟩

theorem shopConfig_lists (path : s.plugin 0 = .path ⟨some (some "/cart")⟩)
    (taxonomy : s.plugin 1 = .taxonomy {}) :
    s.Lists (some "/cart") {} shopConfig.plugins where
  named := by
    intro ref mem
    simp only [shopConfig, List.mem_cons, List.not_mem_nil, or_false] at mem
    rcases mem with rfl | rfl
    · rw [path]
      rfl
    · rw [taxonomy]
      rfl
  kinds := by
    have installed : s.installed ⟨shopConfig.plugins⟩ =
        [.path ⟨some (some "/cart")⟩, .taxonomy {}] := by
      simp [Session.installed, shopConfig, path, taxonomy]
    exact .inr (.of_eq installed)

theorem backwards_lists : stockedShop.Lists (some "/cart") {} backwards where
  named := by
    intro ref mem
    simp only [backwards, List.mem_cons, List.not_mem_nil, or_false] at mem
    rcases mem with rfl | rfl | rfl <;> rfl
  kinds := by
    have turned : ([Plugin.taxonomy {}] ++ [Plugin.application {}, .path ⟨some (some "/cart")⟩]).Perm
        (Plugin.kit {} (some "/cart") {}) := List.perm_append_comm
    exact .inl ⟨none, turned⟩

theorem order_irrelevant_shop :
    stockedShop.Lists (some "/cart") {} shopConfig.plugins ∧
    stockedShop.Lists (some "/cart") {} backwards ∧
    ∃ t t' console violations,
      let one := (makeTracker shopConfig stockedShop).2
      let other := (makeTracker { shopConfig with plugins := backwards } stockedShop).2
      (track t press [foreignScope] one).1.Agrees (track t' press [foreignScope] other).1 ∧
      one.Finishes t press [foreignScope] console violations ∧
      other.Finishes t' press [foreignScope] console violations ∧
      Taxonomy.Reported violations Names.applicationContext .duplicate := by
  have forwards : stockedShop.Lists (some "/cart") {} shopConfig.plugins :=
    shopConfig_lists rfl rfl
  obtain ⟨t, t', console, -, -, run⟩ :=
    order_irrelevant forwards backwards_lists press [foreignScope]
  obtain ⟨agrees, violations, one, other, -, duplicate, -⟩ := run _ _ (.refl _) (.refl _)
  refine ⟨forwards, backwards_lists, t, t', console, violations, agrees, one, other, ?_⟩
  exact duplicate.2 ⟨rfl, .application "other", by simp [foreignScope], rfl⟩

def idleConfig : TrackerConfig PluginRef :=
  { shopConfig with active := false, contexts := foreignScope }

def idleTracker : SessionTracker :=
  { shopTracker with active := false, contexts := foreignScope }

theorem idle_unreported :
    let opened := makeTracker idleConfig shop
    shop.Lists (some "/cart") {} idleConfig.plugins ∧
      opened.2.tracker? opened.1 = some idleTracker ∧
      (∃ g ∈ idleConfig.contexts.globals, g.type = Names.applicationContext) ∧
      (track idleTracker press [] opened.2).2.consoles = #[.memory "console" []] :=
  ⟨shopConfig_lists rfl rfl, rfl,
    ⟨.application "other", by simp [idleConfig, foreignScope], rfl⟩, rfl⟩

end Sample

end Session

end EventTracking
