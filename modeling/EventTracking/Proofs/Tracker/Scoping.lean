import Mathlib.Data.List.Basic
import EventTracking.Proofs.Tracker.Readiness

set_option autoImplicit false

namespace EventTracking

@[simp]
theorem Contexts.locations_append (c d : Contexts) :
    (c ++ d).locations = c.locations ++ d.locations := rfl

@[simp]
theorem Contexts.globals_append (c d : Contexts) : (c ++ d).globals = c.globals ++ d.globals := rfl

structure Contexts.Reordered (c d : Contexts) : Prop where
  locations : c.locations = d.locations
  globals : c.globals.Perm d.globals

theorem Contexts.Reordered.withGlobal {c d : Contexts} (h : c.Reordered d) (x : Context) :
    (c.withGlobal x).Reordered (d.withGlobal x) := ⟨h.locations, h.globals.append_right [x]⟩

structure Event.Agrees (a b : Event) : Prop where
  type : a.type = b.type
  properties : a.properties = b.properties
  contexts : a.contexts.Reordered b.contexts

section Composing

variable {π : Type} (t : Tracker π) (e : UntrackedEvent) (scopes extra : List Contexts)

theorem Tracker.foldl_derive : scopes.foldl derive t =
    { t with contexts := ⟨t.contexts.locations ++ scopes.flatMap Contexts.locations,
      t.contexts.globals ++ scopes.flatMap Contexts.globals⟩ } := by
  induction scopes generalizing t with
  | nil => simp
  | cons scope rest ih =>
    rw [List.foldl_cons, ih]
    simp [derive]

theorem Tracker.compose_foldl_derive : ((scopes.foldl derive t).compose e extra).contexts.Reordered
    (t.compose e (scopes ++ extra)).contexts := by
  rw [foldl_derive]
  constructor
  · simp [compose, Contexts.merge]
  · let own := e.contexts.globals
    let given := extra.flatMap Contexts.globals
    let derived := scopes.flatMap Contexts.globals
    have moved : (given ++ t.contexts.globals ++ derived).Perm
        (derived ++ (given ++ t.contexts.globals)) := List.perm_append_comm
    have whole : (own ++ (given ++ t.contexts.globals ++ derived)).Perm
        (own ++ (derived ++ (given ++ t.contexts.globals))) := moved.append_left own
    simpa [compose, Contexts.merge, own, given, derived] using whole

theorem UntrackedEvent.contexts_withProperty (key : String) (value : Json) :
    (e.withProperty key value).contexts = e.contexts := by
  unfold withProperty
  split <;> rfl

theorem UntrackedEvent.contexts_fromScopes (type : String) (own : Contexts) :
    (fromScopes type own scopes).contexts = Contexts.merge scopes own := by
  have empty : (new type).contexts = {} := by
    unfold new
    split
    · exact contexts_withProperty _ _ _
    · rfl
  have built : (fromScopes type own scopes).contexts =
      (new type).contexts ++ Contexts.merge scopes own := rfl
  rw [built, empty]
  rfl

theorem Tracker.compose_fromScopes (type : String) :
    (t.compose (.fromScopes type e.contexts extra) []).contexts =
      (t.compose e extra).contexts := by
  rw [compose, Contexts.merge_nil, UntrackedEvent.contexts_fromScopes]
  rfl

end Composing

namespace Taxonomy

variable {a b : Event}

theorem count_perm (type : String) {l l' : List Context} (h : l.Perm l') :
    count type l = count type l' := h.countP_eq _

theorem validate_agrees (h : a.Agrees b) : validate a = validate b := by
  have interactive : a.isInteractive = b.isInteractive :=
    congrArg (Fields.isSet · Names.interactiveMarker) h.properties
  have once (name : String) :
      exactlyOne name a.contexts.globals = exactlyOne name b.contexts.globals := by
    rw [exactlyOne, exactlyOne, count_perm name h.contexts.globals]
  simp only [validate, interactive, h.type, h.contexts.locations, once]

end Taxonomy

namespace Plugin

def enriched (c : Contexts) : Plugin → Contexts
  | journal _ _ own => c ++ own
  | application p => (p.enrich? c).getD c
  | taxonomy _ => c
  | path p => p.enrich c

theorem enriched_reordered {p : Plugin} (ready : p.IsReady) {c d : Contexts} (h : c.Reordered d) :
    (p.enriched c).Reordered (p.enriched d) := by
  cases p with
  | journal => exact ready.elim
  | application p =>
    obtain ⟨id, known⟩ := Option.isSome_iff_exists.1 ready.1
    simpa [enriched, ApplicationPlugin.enrich?, known] using h.withGlobal (.application id)
  | taxonomy => exact h
  | path p =>
    have present := h.globals.any_eq (f := fun c => c.type == Names.pathContext)
    simp only [enriched, PathPlugin.enrich, present]
    split
    · exact h
    · split
      · next path _ => exact h.withGlobal (.path path)
      · exact h

end Plugin

namespace Session

open Change

variable {s u v : Session}

def enriched (s : Session) (p : Pipeline PluginRef) (c : Contexts) : Contexts :=
  p.plugins.foldl
    (fun c ref => if (s.plugin ref.id).isUsable then (s.plugin ref.id).enriched c else c) c

theorem enriched_plugins (same : u.plugins = s.plugins) : u.enriched = s.enriched := by
  unfold enriched plugin
  rw [same]

theorem enrich_fst (ref : PluginRef) (c : Contexts) (s : Session) :
    ((hooks ref).enrich c s).1 = (s.plugin ref.id).enriched c := by
  dsimp only [hooks]
  rw [get_bind]
  cases s.plugin ref.id with
  | journal | taxonomy | path => rfl
  | application p =>
    dsimp only [Plugin.enriched]
    cases p.enrich? c <;> rfl

theorem enrich_all_fst (p : Pipeline PluginRef) (c : Contexts) (s : Session) :
    (p.enrich hooks c s).1 = s.enriched p c := by
  obtain ⟨refs⟩ := p
  induction refs generalizing c s with
  | nil => rfl
  | cons ref rest ih =>
    let first : Change Contexts :=
      if (s.plugin ref.id).isUsable then (hooks ref).enrich c else pure c
    have run : (Pipeline.mk (ref :: rest)).enrich hooks c s =
        (Pipeline.mk rest).enrich hooks (first s).1 (first s).2 := by
      rw [Pipeline.enrich, List.foldlM_cons]
      rfl
    have made : (first s).1 =
        if (s.plugin ref.id).isUsable then (s.plugin ref.id).enriched c else c := by
      rw [← enrich_fst]
      dsimp only [first]
      split <;> rfl
    -- No plugin changes what the next one does.
    have same : (first s).2.plugins = s.plugins := by
      dsimp only [first]
      split
      · exact fixes_enrich deaf_plugins ref c s
      · rfl
    rw [run, ih, enriched_plugins same, made]
    rfl

theorem enriched_later {p : Pipeline PluginRef} (ready : s.HasReady p) (keeps : s.KeepsReady u)
    (c : Contexts) : u.enriched p c = s.enriched p c := by
  refine List.foldl_ext _ _ c fun c ref mem => ?_
  rw [keeps ref.id (ready ref mem)]

theorem enriched_reordered {p : Pipeline PluginRef} (ready : s.HasReady p) {c d : Contexts}
    (h : c.Reordered d) : (s.enriched p c).Reordered (s.enriched p d) := by
  obtain ⟨refs⟩ := p
  induction refs generalizing c d with
  | nil => exact h
  | cons ref rest ih =>
    refine ih ?_ fun r mem => ready r (List.mem_cons_of_mem ref mem)
    dsimp only
    split
    · exact Plugin.enriched_reordered (ready ref (by simp)) h
    · exact h

theorem beforeTransport_agrees {a b : Event} (h : a.Agrees b) {ref : PluginRef}
    (ready : (s.plugin ref.id).IsReady) :
    (hooks ref).beforeTransport a s = (hooks ref).beforeTransport b s := by
  dsimp only [hooks]
  rw [get_bind, get_bind]
  cases kind : s.plugin ref.id with
  | journal =>
    rw [kind] at ready
    exact ready.elim
  | taxonomy p =>
    have same : p.reports a = p.reports b := by
      rw [TaxonomyPlugin.reports, TaxonomyPlugin.reports, Taxonomy.validate_agrees h, h.type]
    dsimp only
    rw [same]
  | application | path => rfl

theorem reports_agree {a b : Event} (h : a.Agrees b) {p : Pipeline PluginRef}
    (ready : s.HasReady p) : p.beforeTransport hooks a s = p.beforeTransport hooks b s := by
  obtain ⟨refs⟩ := p
  induction refs generalizing s with
  | nil => rfl
  | cons ref rest ih =>
    have first := beforeTransport_agrees h (ready ref (by simp))
    rw [Pipeline.beforeTransport, Pipeline.beforeTransport, onUsable_cons, onUsable_cons, first]
    refine ih (HasReady.later (fun r mem => ready r (List.mem_cons_of_mem ref mem)) ?_)
    split
    · exact .of_plugins (fixes_beforeTransport deaf_plugins ref b s)
    · exact .refl s

def deriveAll (t : SessionTracker) : List Contexts → Change SessionTracker
  | [] => return t
  | scope :: rest => do
    let ref ← deriveTracker t scope
    match (← get).tracker? ref with
    | some derived => deriveAll derived rest
    | none => return t

theorem deriveAll_cons (t : SessionTracker) (scope : Contexts) (rest : List Contexts)
    (s : Session) : deriveAll t (scope :: rest) s =
      deriveAll (t.derive scope) rest (deriveTracker t scope s).2 := by
  have found : (deriveTracker t scope s).2.tracker? (deriveTracker t scope s).1 =
      some (t.derive scope) := Array.getElem?_push_size
  have run : deriveAll t (scope :: rest) s =
      (match (deriveTracker t scope s).2.tracker? (deriveTracker t scope s).1 with
        | some derived => deriveAll derived rest
        | none => pure t : Change SessionTracker) (deriveTracker t scope s).2 := rfl
  rw [run, found]

theorem deriveAll_fst (t : SessionTracker) (scopes : List Contexts) (s : Session) :
    (deriveAll t scopes s).1 = scopes.foldl Tracker.derive t := by
  induction scopes generalizing t s with
  | nil => rfl
  | cons scope rest ih =>
    rw [deriveAll_cons]
    exact ih _ _

theorem keepsReady_deriveAll (t : SessionTracker) (scopes : List Contexts) (s : Session) :
    s.KeepsReady (deriveAll t scopes s).2 := by
  induction scopes generalizing t s with
  | nil => exact .refl s
  | cons scope rest ih =>
    rw [deriveAll_cons]
    exact (keepsReady_deriveTracker t scope s).trans (ih _ _)

def finished (s : Session) (t : SessionTracker) (c : Contexts) : Contexts :=
  if t.active then s.enriched t.plugins c else c

theorem track_fst (t : SessionTracker) (e : UntrackedEvent) (extra : List Contexts)
    (s : Session) : ∃ id time, (track t e extra s).1 =
      Event.stamp { e with contexts := s.finished t (t.compose e extra).contexts } id time := by
  have tracked : (track t e extra s).1 = (finalize t e extra s).1 := rfl
  rw [tracked]
  cases active : t.active with
  | false =>
    have run : finalize t e extra = stamp (t.compose e extra) := by
      simp [finalize, Tracker.finalize, active]
    have same : s.finished t (t.compose e extra).contexts = (t.compose e extra).contexts := by
      simp [finished, active]
    rw [run, same]
    exact ⟨_, _, rfl⟩
  | true =>
    let validated := (t.plugins.validate hooks (t.compose e extra) s).2
    let enriched := t.plugins.enrich hooks (t.compose e extra).contexts validated
    have run : (finalize t e extra s).1 =
        (stamp { e with contexts := enriched.1 } enriched.2).1 := by
      simp only [finalize, Tracker.finalize, active]
      rfl
    have kept : validated.plugins = s.plugins :=
      fixes_onUsable t.plugins (fun ref => fixes_validate deaf_plugins ref _) s
    have same : enriched.1 = s.finished t (t.compose e extra).contexts := by
      dsimp only [enriched]
      rw [enrich_all_fst, enriched_plugins kept]
      simp [finished, active]
    rw [run, same]
    exact ⟨_, _, rfl⟩

theorem finished_later {t : SessionTracker} (ready : s.HasReady t.plugins) (keeps : s.KeepsReady u)
    (c : Contexts) : u.finished t c = s.finished t c := by
  rw [finished, finished, enriched_later ready keeps]

theorem finished_reordered {t : SessionTracker} (ready : s.HasReady t.plugins) {c d : Contexts}
    (h : c.Reordered d) : (s.finished t c).Reordered (s.finished t d) := by
  unfold finished
  split
  · exact enriched_reordered ready h
  · exact h

/-- Whatever happens in between, an event tracked through derived trackers agrees with the one whose
scopes came with the call, and the plugins report the same of both. An event made of its scopes has
the very contexts of the one that is tracked with them. -/
theorem scopes_agree {t : SessionTracker} (equipped : s.Equipped t)
    (scopes extra : List Contexts) (e : UntrackedEvent)
    (after : (deriveAll t scopes s).2.KeepsReady u) (later : s.KeepsReady v) :
    let derived := (track (deriveAll t scopes s).1 e extra u).1
    let called := (track t e (scopes ++ extra) v).1
    (derived.Agrees called ∧ Taxonomy.validate derived = Taxonomy.validate called ∧
      ∀ w, s.KeepsReady w → t.plugins.beforeTransport hooks derived w =
        t.plugins.beforeTransport hooks called w) ∧
    ∀ type, (track t (.fromScopes type e.contexts extra) [] u).1.contexts =
      (track t e extra v).1.contexts := by
  have ready := equipped.hasReady
  have keeps : s.KeepsReady u := (keepsReady_deriveAll t scopes s).trans after
  have agrees : (track (deriveAll t scopes s).1 e extra u).1.Agrees
      (track t e (scopes ++ extra) v).1 := by
    rw [deriveAll_fst]
    obtain ⟨_, _, derived⟩ := track_fst (scopes.foldl Tracker.derive t) e extra u
    obtain ⟨_, _, called⟩ := track_fst t e (scopes ++ extra) v
    have shared (c : Contexts) : u.finished (scopes.foldl Tracker.derive t) c = s.finished t c := by
      rw [Tracker.foldl_derive, ← finished_later ready keeps]
      rfl
    rw [derived, called, shared, finished_later ready later]
    exact ⟨rfl, rfl, finished_reordered ready (t.compose_foldl_derive e scopes extra)⟩
  refine ⟨⟨agrees, Taxonomy.validate_agrees agrees, fun w keeps =>
    reports_agree agrees (ready.later keeps)⟩, fun type => ?_⟩
  obtain ⟨_, _, built⟩ := track_fst t (.fromScopes type e.contexts extra) [] u
  obtain ⟨_, _, called⟩ := track_fst t e extra v
  rw [built, called]
  change u.finished t _ = v.finished t _
  rw [finished_later ready keeps, finished_later ready later, t.compose_fromScopes]

section Sample

def shop : Session where
  consoles := #[.memory "console" []]
  plugins := #[.path ⟨some (some "/cart")⟩, .taxonomy {}]

def shopConfig : TrackerConfig PluginRef where
  applicationId := "shop"
  contexts := ⟨[.new Names.rootLocationContext "home"], [.new "CookieIdContext" "cookie"]⟩
  plugins := [⟨0, PathPlugin.name⟩, ⟨1, TaxonomyPlugin.name⟩]
  console := some 0

def shopTracker : SessionTracker where
  applicationId := "shop"
  trackerId := "shop"
  active := true
  contexts := shopConfig.contexts
  plugins := ⟨⟨2, ApplicationPlugin.name⟩ :: shopConfig.plugins⟩
  handoff := none
  queue := none
  console := 0

def shopScope (id : String) : Contexts :=
  ⟨[.new "ContentContext" id], [.new "CustomContext" id]⟩

def press : UntrackedEvent :=
  (UntrackedEvent.new "PressEvent").withLocation (.new "PressableContext" "pay")

def openShop : Session := (makeTracker shopConfig shop).2

def derivedShop : SessionTracker × Session :=
  deriveAll shopTracker [shopScope "a", shopScope "b"] openShop

def firstPress : Event × Session := track derivedShop.1 press [shopScope "c"] derivedShop.2

def secondPress : Event × Session :=
  track shopTracker press [shopScope "a", shopScope "b", shopScope "c"] firstPress.2

theorem scopes_agree_shop :
    openShop.Equipped shopTracker ∧ derivedShop.2.KeepsReady derivedShop.2 ∧
      openShop.KeepsReady firstPress.2 ∧ firstPress.1.Agrees secondPress.1 ∧
      Taxonomy.validate firstPress.1 = Taxonomy.validate secondPress.1 ∧
      firstPress.1.contexts.globals.map Context.id = ["c", "cookie", "a", "b", "shop", "/cart"] ∧
      secondPress.1.contexts.globals.map Context.id =
        ["a", "b", "c", "cookie", "shop", "/cart"] ∧
      ∀ type, (track shopTracker (.fromScopes type press.contexts [shopScope "c"]) []
        derivedShop.2).1.contexts = (track shopTracker press [shopScope "c"]
          firstPress.2).1.contexts := by
  have builtIn : ∀ ref ∈ shopConfig.plugins, (shop.plugin ref.id).IsBuiltIn := by
    intro ref mem
    simp only [shopConfig, List.mem_cons, List.not_mem_nil, or_false] at mem
    rcases mem with rfl | rfl <;> trivial
  have equipped : openShop.Equipped shopTracker := .made builtIn rfl
  have meanwhile : openShop.KeepsReady firstPress.2 :=
    (keepsReady_deriveAll shopTracker _ openShop).trans (keepsReady_track derivedShop.1 press _ _)
  have whole := scopes_agree equipped _ [shopScope "c"] press (.refl derivedShop.2) meanwhile
  exact ⟨equipped, .refl _, meanwhile, whole.1.1, whole.1.2.1, rfl, rfl, whole.2⟩

end Sample

end Session

end EventTracking
