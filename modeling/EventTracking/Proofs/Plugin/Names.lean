import EventTracking.Proofs.Session.Reporting
import EventTracking.Proofs.Tracker.Readiness
import EventTracking.Session.Perform.Plugins
import Mathlib.Data.List.Induction
import Mathlib.Data.List.Nodup

set_option autoImplicit false

namespace EventTracking

namespace Pipeline

variable {α : Type} [Named α] {p q : Pipeline α} {a b : α} {l before after : List α} {name : String}

inductive Edit (α : Type)
  | add (a : α)
  | remove (name : String)

def edit (p : Pipeline α) : Edit α → Pipeline α
  | .add a => (p.add? a).getD p
  | .remove name => (p.remove? name).getD p

def edited (p : Pipeline α) (edits : List (Edit α)) : Pipeline α := edits.foldl edit p

def takes (p : Pipeline α) : Edit α → Bool
  | .add a => !p.has (Named.name a)
  | .remove name => p.has name

def Distinct (p : Pipeline α) : Prop := p.names.Nodup

def firsts (l : List α) : List α :=
  (l.zipIdx.filter fun x => Named.name x.1 ∉ (l.take x.2).map Named.name).map Prod.fst

section Names

theorem mem_names : name ∈ p.names ↔ ∃ a ∈ p.plugins, Named.name a = name := List.mem_map

@[simp] theorem has_iff : p.has name ↔ name ∈ p.names := by
  simp [has, names]

theorem has_eq_false_iff : p.has name = false ↔ name ∉ p.names := by
  rw [← has_iff, Bool.not_eq_true]

theorem add?_eq_some (new : Named.name a ∉ p.names) : p.add? a = some ⟨p.plugins ++ [a]⟩ := by
  rw [add?, has_eq_false_iff.2 new]
  rfl

theorem add?_eq_none (taken : Named.name a ∈ p.names) : p.add? a = none := by
  rw [add?, if_pos (has_iff.2 taken)]

theorem remove?_eq_none (unknown : name ∉ p.names) : p.remove? name = none := by
  rw [remove?, has_eq_false_iff.2 unknown]
  rfl

theorem remove?_eq_some (known : name ∈ p.names) :
    p.remove? name = some ⟨p.plugins.filter fun a => Named.name a != name⟩ := by
  rw [remove?, if_pos (has_iff.2 known)]

end Names

namespace Distinct

theorem empty : Distinct ({} : Pipeline α) := List.nodup_nil

theorem edit (distinct : p.Distinct) (e : Edit α) : (p.edit e).Distinct := by
  cases e with
  | add a =>
    rw [Pipeline.edit]
    by_cases taken : Named.name a ∈ p.names
    · rwa [add?_eq_none taken]
    · rw [add?_eq_some taken, Distinct, names, Option.getD_some, List.map_append]
      exact List.nodup_append.2 ⟨distinct, List.nodup_singleton _, by
        rintro other mem _ here rfl
        exact taken (List.mem_singleton.1 here ▸ mem)⟩
  | remove name =>
    rw [Pipeline.edit]
    by_cases known : name ∈ p.names
    · rw [remove?_eq_some known]
      exact distinct.sublist (List.filter_sublist.map _)
    · rwa [remove?_eq_none known]

theorem edited (distinct : p.Distinct) (edits : List (Edit α)) : (p.edited edits).Distinct := by
  induction edits generalizing p with
  | nil => exact distinct
  | cons e edits ih => exact ih (distinct.edit e)

theorem apart (distinct : p.Distinct) (split : p.plugins = before ++ a :: after) :
    ∀ b ∈ before ++ after, Named.name b ≠ Named.name a := by
  have once : ((before ++ a :: after).map Named.name).Nodup := split ▸ distinct
  have first := List.nodup_middle.1 (List.map_append ▸ once)
  intro b mem same
  have again : Named.name a ∈ (before ++ after).map Named.name := same ▸ List.mem_map_of_mem mem
  exact (List.nodup_cons.1 first).1 (List.map_append ▸ again)

theorem remove (distinct : p.Distinct) (split : p.plugins = before ++ a :: after) :
    p.remove? (Named.name a) = some ⟨before ++ after⟩ := by
  have known : Named.name a ∈ p.names := mem_names.2 ⟨a, by simp [split], rfl⟩
  have others := distinct.apart split
  have kept {rest : List α} (sub : rest ⊆ before ++ after) :
      (rest.filter fun b => Named.name b != Named.name a) = rest :=
    List.filter_eq_self.2 fun b mem => bne_iff_ne.2 (others b (sub mem))
  rw [remove?_eq_some known, split, List.filter_append,
    List.filter_cons_of_neg (by simp), kept (List.subset_append_left before after),
    kept (List.subset_append_right before after)]

theorem find? (distinct : p.Distinct) :
    p.find? name = some a ↔ a ∈ p.plugins ∧ Named.name a = name := by
  constructor
  · intro found
    have named : (Named.name a == name) = true :=
      List.find?_some (p := fun a => Named.name a == name) found
    exact ⟨List.mem_of_find?_eq_some found, beq_iff_eq.1 named⟩
  · rintro ⟨mem, rfl⟩
    obtain ⟨before, after, split⟩ := List.append_of_mem mem
    have others := distinct.apart split
    rw [Pipeline.find?, split, List.find?_append, List.find?_eq_none.2 fun b mem same =>
      others b (List.mem_append_left _ mem) (beq_iff_eq.1 same)]
    simp

end Distinct

section Building

theorem addAll_eq_edited (p : Pipeline α) (l : List α) :
    (p.addAll l).1 = p.edited (l.map .add) := by
  induction l generalizing p with
  | nil => rfl
  | cons a l ih =>
    rw [addAll, List.map_cons, edited, List.foldl_cons, edit]
    cases p.add? a with
    | some q => exact ih q
    | none => exact ih p

theorem ofList_append (l : List α) (a : α) :
    (ofList (l ++ [a])).1 = (ofList l).1.edit (.add a) := by
  simp only [ofList, addAll_eq_edited, edited, List.map_append, List.foldl_append]
  rfl

theorem ofList_distinct (l : List α) : (ofList l).1.Distinct := by
  rw [ofList, addAll_eq_edited]
  exact Distinct.empty.edited _

theorem firsts_append (l : List α) (a : α) :
    firsts (l ++ [a]) = firsts l ++ if Named.name a ∈ l.map Named.name then [] else [a] := by
  -- Those in front of `a` do not look as far as `a`.
  have earlier : (l.zipIdx.filter fun x =>
      Named.name x.1 ∉ ((l ++ [a]).take x.2).map Named.name) =
        l.zipIdx.filter fun x => Named.name x.1 ∉ (l.take x.2).map Named.name := by
    refine List.filter_congr fun x mem => ?_
    have inside : x.2 < l.length := by simpa using List.snd_lt_of_mem_zipIdx mem
    rw [List.take_append_of_le_length (Nat.le_of_lt inside)]
  rw [firsts, List.zipIdx_append, List.filter_append, earlier, List.map_append]
  congr 1
  by_cases taken : Named.name a ∈ l.map Named.name <;> simp [taken]

theorem firsts_head (a : α) (l : List α) : (firsts (a :: l)).head? = some a := by
  simp [firsts, List.zipIdx_cons]

theorem mem_names_firsts (l : List α) :
    name ∈ (firsts l).map Named.name ↔ name ∈ l.map Named.name := by
  induction l using List.reverseRecOn with
  | nil => rfl
  | append_singleton l a ih =>
    rw [firsts_append, List.map_append, List.map_append, List.mem_append, List.mem_append, ih]
    split
    · next taken =>
      constructor
      · rintro (old | new)
        · exact .inl old
        · exact nomatch new
      · rintro (old | new)
        · exact .inl old
        · exact .inl (List.mem_singleton.1 new ▸ taken)
    · rfl

theorem ofList_plugins (l : List α) : (ofList l).1.plugins = firsts l := by
  induction l using List.reverseRecOn with
  | nil => rfl
  | append_singleton l a ih =>
    have same : Named.name a ∈ (ofList l).1.names ↔ Named.name a ∈ l.map Named.name := by
      rw [names, ih, mem_names_firsts]
    rw [ofList_append, edit, firsts_append]
    split
    · next taken => rw [add?_eq_none (same.2 taken), ← ih, List.append_nil, Option.getD_none]
    · next new => rw [add?_eq_some (mt same.1 new), ← ih, Option.getD_some]

end Building

end Pipeline

namespace Session

open Pipeline (Edit)

variable {s u : Session} {p : Pipeline PluginRef} {pipeline : String}

inductive Orders (named : Fields PluginRef) (pipeline : String) :
    PipelineCommand → Edit PluginRef → Prop
  | add {plugin : String} {ref : PluginRef} (known : named.find? plugin = some ref) :
      Orders named pipeline (.add pipeline plugin) (.add ref)
  | remove (name : String) : Orders named pipeline (.remove pipeline name) (.remove name)

def editAnswers (p : Pipeline PluginRef) : List (Edit PluginRef) → List Answer
  | [] => []
  | e :: edits => .changed (p.takes e) (p.edit e).names :: editAnswers (p.edit e) edits

def Holds (s : Session) (pipeline : String) (p : Pipeline PluginRef) : Prop :=
  ∃ id r, s.names.pipelines.find? pipeline = some id ∧ s.pipelines[id]? = some r ∧ r.pipeline = p

section Commands

theorem knownPipeline_run {id : Nat} {r : ReportingPipeline}
    (named : s.names.pipelines.find? pipeline = some id) (there : s.pipelines[id]? = some r) :
    (knownPipeline pipeline).run s = (.ok (id, r), s) := by
  have held : s.pipelines.getD id default = r := by
    rw [Array.getD_eq_getD_getElem?, there, Option.getD_some]
  rw [knownPipeline, Step.run_bind (known_run named), ← held]
  rfl

theorem known_mapM {α : Type} {table : Directory → Fields α} {names : List String} {found : List α}
    (known : names.map (table s.names).find? = found.map some) :
    (names.mapM (Session.known table)).run s = (.ok found, s) := by
  induction names generalizing found with
  | nil =>
    obtain rfl : found = [] := by simpa using known.symm
    rfl
  | cons name names ih =>
    cases found with
    | nil => exact nomatch known
    | cons a found =>
      obtain ⟨first, others⟩ := List.cons_eq_cons.1 known
      rw [List.mapM_cons, Step.run_bind (known_run first), Step.run_bind (ih others)]
      rfl

theorem reports_run (console : ConsoleId) (taken : List String) (s : Session) :
    ∃ u, (taken.forM fun name =>
        (report console (.error (Pipeline.takenMessage name)) : Step Unit)).run s = (.ok (), u) ∧
      u.names = s.names := by
  induction taken generalizing s with
  | nil => exact ⟨s, rfl, rfl⟩
  | cons name taken ih =>
    obtain ⟨u, ran, kept⟩ := ih (report console (.error (Pipeline.takenMessage name)) s).2
    exact ⟨u, ran, kept⟩

theorem pipelineStep_new (pipeline : String) {names : List String} {console : ConsoleName}
    {c : Option ConsoleId} {listed : List PluginRef}
    (known : names.map s.names.plugins.find? = listed.map some)
    (resolved : (knownConsole console).run s = (.ok c, s)) :
    ∃ u, (pipelineStep (.new pipeline names console)).run s =
        (.ok (.texts (Pipeline.ofList listed).1.names), u) ∧
      u.names.plugins = s.names.plugins ∧ u.Holds pipeline (Pipeline.ofList listed).1 := by
  have opened : (consoleOr c s).2.names = s.names := fixes_consoleOr (fun _ _ _ => rfl) c s
  obtain ⟨u, reported, kept⟩ :=
    reports_run (consoleOr c s).1 (Pipeline.ofList listed).2 (consoleOr c s).2
  have lifted : (consoleOr c : Step ConsoleId).run s = (.ok (consoleOr c s).1, (consoleOr c s).2) :=
    rfl
  have plugins : u.names.plugins = s.names.plugins :=
    congrArg Directory.plugins (kept.trans opened)
  dsimp only [pipelineStep]
  rw [Step.run_bind (known_mapM known), Step.run_bind resolved, Step.run_bind lifted,
    Step.run_bind reported]
  refine ⟨_, rfl, plugins, u.pipelines.size, _, ?_,
    Array.getElem?_push_size, rfl⟩
  exact (Fields.find?_insert ..).trans (if_pos rfl)

theorem Holds.step {c : PipelineCommand} {e : Edit PluginRef} (holds : s.Holds pipeline p)
    (orders : Orders s.names.plugins pipeline c e) :
    ∃ u, (pipelineStep c).run s = (.ok (.changed (p.takes e) (p.edit e).names), u) ∧
      u.names.plugins = s.names.plugins ∧ u.Holds pipeline (p.edit e) := by
  obtain ⟨id, r, named, there, rfl⟩ := holds
  have reached := knownPipeline_run named there
  have inside : id < s.pipelines.size := (Array.getElem?_eq_some_iff.1 there).1
  have put (q : Pipeline PluginRef) :
      (s.pipelines.set! id { r with pipeline := q })[id]? = some { r with pipeline := q } := by
    simp [inside]
  cases orders with
  | @add plugin ref known =>
    dsimp only [pipelineStep, Pipeline.edit, Pipeline.takes]
    rw [Step.run_bind reached, Step.run_bind (known_run known)]
    by_cases taken : Named.name ref ∈ r.pipeline.names
    · rw [Pipeline.add?_eq_none taken, Pipeline.has_iff.2 taken]
      exact ⟨_, rfl, rfl, id, r, named, there, rfl⟩
    · rw [Pipeline.add?_eq_some taken, Pipeline.has_eq_false_iff.2 taken]
      exact ⟨_, rfl, rfl, id, _, named, put _, rfl⟩
  | remove name =>
    dsimp only [pipelineStep, Pipeline.edit, Pipeline.takes]
    rw [Step.run_bind reached]
    by_cases present : name ∈ r.pipeline.names
    · rw [Pipeline.remove?_eq_some present, Pipeline.has_iff.2 present]
      exact ⟨_, rfl, rfl, id, _, named, put _, rfl⟩
    · rw [Pipeline.remove?_eq_none present, Pipeline.has_eq_false_iff.2 present]
      exact ⟨_, rfl, rfl, id, r, named, there, rfl⟩

theorem Holds.run {commands : List PipelineCommand} {edits : List (Edit PluginRef)}
    (orders : List.Forall₂ (Orders s.names.plugins pipeline) commands edits)
    (holds : s.Holds pipeline p) :
    ∃ u, (commands.mapM pipelineStep).run s = (.ok (editAnswers p edits), u) ∧
      u.Holds pipeline (p.edited edits) := by
  -- The names of the plugins stay, so that the orders of the later commands mean the same.
  generalize same : s.names.plugins = named at orders
  induction orders generalizing s p with
  | nil => exact ⟨s, rfl, holds⟩
  | @cons c e commands edits here _ ih =>
    obtain ⟨t, stepped, kept, held⟩ := holds.step (same ▸ here)
    obtain ⟨u, ran, edited⟩ := ih held (kept.trans same)
    refine ⟨u, ?_, edited⟩
    rw [List.mapM_cons, Step.run_bind stepped, Step.run_bind ran]
    rfl

end Commands

section Made

theorem makeTracker_plugins (c : TrackerConfig PluginRef) (s : Session) :
    ∃ t own, (makeTracker c s).2.tracker? (makeTracker c s).1 = some t ∧
      Named.name own = ApplicationPlugin.name ∧
      t.plugins = (Pipeline.ofList (c.allPlugins own)).1 := by
  obtain ⟨u, -, whole⟩ := makeTracker_run c s
  let own := (addPlugin (.application {}) u).1
  rw [whole]
  split
  · next listed =>
    have put : c.allPlugins own = c.plugins := if_pos listed
    obtain ⟨handoff, v, -, whole⟩ := assemble_run c (consoleOr c.console s).1 c.plugins u
    rw [whole]
    exact ⟨_, own, Array.getElem?_push_size, rfl, put ▸ rfl⟩
  · next unlisted =>
    have put : c.allPlugins own = own :: c.plugins := if_neg unlisted
    obtain ⟨handoff, v, -, whole⟩ := assemble_run c (consoleOr c.console s).1 (own :: c.plugins)
      (addPlugin (.application {}) u).2
    rw [whole]
    exact ⟨_, own, Array.getElem?_push_size, rfl, put ▸ rfl⟩

theorem hasApplicationPlugin_iff (c : TrackerConfig PluginRef) :
    c.hasApplicationPlugin ↔ ApplicationPlugin.name ∈ c.plugins.map Named.name := by
  simp [TrackerConfig.hasApplicationPlugin]

theorem application_mem_allPlugins (c : TrackerConfig PluginRef) {own : PluginRef}
    (named : Named.name own = ApplicationPlugin.name) :
    ApplicationPlugin.name ∈ (c.allPlugins own).map Named.name := by
  rw [TrackerConfig.allPlugins]
  split
  · next listed => exact (hasApplicationPlugin_iff c).1 listed
  · exact List.mem_map.2 ⟨own, List.mem_cons_self, named⟩

end Made

theorem edited_unique {α : Type} [Named α] (plugins : List α) (edits : List (Edit α)) :
    let built := (Pipeline.ofList plugins).1
    let p := built.edited edits
    built.plugins = Pipeline.firsts plugins ∧ p.names.Nodup ∧
      (∀ a, if Named.name a ∈ p.names then p.add? a = none ∧ p.edit (.add a) = p
        else p.add? a = some ⟨p.plugins ++ [a]⟩ ∧ p.edit (.add a) = ⟨p.plugins ++ [a]⟩) ∧
      (∀ name, if name ∈ p.names then ∃ before a after, p.plugins = before ++ a :: after ∧
          Named.name a = name ∧ p.remove? name = some ⟨before ++ after⟩ ∧
          p.edit (.remove name) = ⟨before ++ after⟩
        else p.remove? name = none ∧ p.edit (.remove name) = p) ∧
      ∀ name, (p.has name ↔ name ∈ p.names) ∧
        ((p.find? name).isSome ↔ name ∈ p.names) ∧
        ∀ a, p.find? name = some a ↔ a ∈ p.plugins ∧ Named.name a = name := by
  intro built p
  have distinct : p.Distinct := (Pipeline.ofList_distinct plugins).edited edits
  refine ⟨Pipeline.ofList_plugins plugins, distinct, fun a => ?_, fun name => ?_, fun name => ?_⟩
  · split
    · next taken => simp [Pipeline.edit, Pipeline.add?_eq_none taken]
    · next new => simp [Pipeline.edit, Pipeline.add?_eq_some new]
  · split
    · next present =>
      obtain ⟨a, mem, rfl⟩ := Pipeline.mem_names.1 present
      obtain ⟨before, after, split⟩ := List.append_of_mem mem
      have removed := distinct.remove split
      exact ⟨before, a, after, split, rfl, removed, by simp [Pipeline.edit, removed]⟩
    · next absent => simp [Pipeline.edit, Pipeline.remove?_eq_none absent]
  · refine ⟨Pipeline.has_iff, ?_, fun a => distinct.find?⟩
    rw [Option.isSome_iff_exists, Pipeline.mem_names]
    exact exists_congr fun a => distinct.find?

theorem pipelineSteps_edit (s : Session) (pipeline : String) (names : List String)
    (listed : List PluginRef) (console : ConsoleName) (c : Option ConsoleId)
    (commands : List PipelineCommand) (ordered : List (Edit PluginRef))
    (known : names.map s.names.plugins.find? = listed.map some)
    (resolved : (knownConsole console).run s = (.ok c, s))
    (orders : List.Forall₂ (Orders s.names.plugins pipeline) commands ordered) :
    let made := (Pipeline.ofList listed).1
    ∃ u, ((.new pipeline names console :: commands).mapM pipelineStep).run s =
        (.ok (.texts made.names :: editAnswers made ordered), u) ∧
      u.Holds pipeline (made.edited ordered) := by
  obtain ⟨t, created, same, holds⟩ := pipelineStep_new pipeline known resolved
  obtain ⟨u, ran, held⟩ := holds.run (same ▸ orders)
  refine ⟨u, ?_, held⟩
  rw [List.mapM_cons, Step.run_bind created, Step.run_bind ran]
  rfl

theorem makeTracker_unique (s : Session) (c : TrackerConfig PluginRef) :
    ∃ t own, (makeTracker c s).2.tracker? (makeTracker c s).1 = some t ∧
      t.plugins.plugins = Pipeline.firsts (c.allPlugins own) ∧
      t.plugins.names.count ApplicationPlugin.name = 1 ∧
      (ApplicationPlugin.name ∉ c.plugins.map Named.name →
        t.plugins.plugins.head? = some own ∧ Named.name own = ApplicationPlugin.name) := by
  obtain ⟨t, own, found, named, same⟩ := makeTracker_plugins c s
  have made : t.plugins.plugins = Pipeline.firsts (c.allPlugins own) :=
    same ▸ Pipeline.ofList_plugins _
  refine ⟨t, own, found, made, ?_, fun unlisted => ⟨?_, named⟩⟩
  · have there : ApplicationPlugin.name ∈ t.plugins.names := by
      rw [Pipeline.names, made, Pipeline.mem_names_firsts]
      exact application_mem_allPlugins c named
    exact List.count_eq_one_of_mem (same ▸ Pipeline.ofList_distinct _) there
  · have put : c.allPlugins own = own :: c.plugins :=
      if_neg (mt (hasApplicationPlugin_iff c).1 unlisted)
    rw [made, put, Pipeline.firsts_head]

/-- However a pipeline is made and edited, its names are distinct.

It is made of the first plugin of each name. A name that is taken is not added and a name that is
not there is not removed; otherwise the plugin comes last, or the one plugin of the name leaves the
others as they stand. What has a name, what is found by it and what is listed are the same. Commands
edit the pipelines of a session in this way. A tracker has one plugin with the name of the one that
gives the application's context, and has it in front if none was configured. -/
theorem names_unique {α : Type} [Named α] (plugins : List α) (edits : List (Edit α)) :
    let built := (Pipeline.ofList plugins).1
    let p := built.edited edits
    (built.plugins = Pipeline.firsts plugins ∧ p.names.Nodup ∧
      (∀ a, if Named.name a ∈ p.names then p.add? a = none ∧ p.edit (.add a) = p
        else p.add? a = some ⟨p.plugins ++ [a]⟩ ∧ p.edit (.add a) = ⟨p.plugins ++ [a]⟩) ∧
      (∀ name, if name ∈ p.names then ∃ before a after, p.plugins = before ++ a :: after ∧
          Named.name a = name ∧ p.remove? name = some ⟨before ++ after⟩ ∧
          p.edit (.remove name) = ⟨before ++ after⟩
        else p.remove? name = none ∧ p.edit (.remove name) = p) ∧
      ∀ name, (p.has name ↔ name ∈ p.names) ∧
        ((p.find? name).isSome ↔ name ∈ p.names) ∧
        ∀ a, p.find? name = some a ↔ a ∈ p.plugins ∧ Named.name a = name) ∧
    (∀ (s : Session) (pipeline : String) (names : List String) (listed : List PluginRef)
      (console : ConsoleName) (c : Option ConsoleId) (commands : List PipelineCommand)
      (ordered : List (Edit PluginRef)), names.map s.names.plugins.find? = listed.map some →
      (knownConsole console).run s = (.ok c, s) →
      List.Forall₂ (Orders s.names.plugins pipeline) commands ordered →
      let made := (Pipeline.ofList listed).1
      ∃ u, ((.new pipeline names console :: commands).mapM pipelineStep).run s =
          (.ok (.texts made.names :: editAnswers made ordered), u) ∧
        u.Holds pipeline (made.edited ordered)) ∧
    ∀ (s : Session) (c : TrackerConfig PluginRef), ∃ t own,
      (makeTracker c s).2.tracker? (makeTracker c s).1 = some t ∧
      t.plugins.plugins = Pipeline.firsts (c.allPlugins own) ∧
      t.plugins.names.count ApplicationPlugin.name = 1 ∧
      (ApplicationPlugin.name ∉ c.plugins.map Named.name →
        t.plugins.plugins.head? = some own ∧ Named.name own = ApplicationPlugin.name) :=
  ⟨edited_unique plugins edits, pipelineSteps_edit, makeTracker_unique⟩

section Sample

def namesakes : Session where
  names.plugins :=
    ((∅ : Fields PluginRef).insert "old" ⟨0, "Visits"⟩).insert "new" ⟨1, "Visits"⟩

theorem names_unique_namesakes :
    let commands : List PipelineCommand :=
      [.new "pipeline" ["old", "new"] none, .add "pipeline" "new", .remove "pipeline" "Visits",
        .add "pipeline" "new"]
    ∃ u, (commands.mapM pipelineStep).run namesakes =
        (.ok [.texts ["Visits"], .changed false ["Visits"], .changed true [],
          .changed true ["Visits"]], u) ∧
      u.Holds "pipeline" ⟨[⟨1, "Visits"⟩]⟩ := by
  have known := (names_unique ([] : List PluginRef) []).2.1 namesakes "pipeline" ["old", "new"]
    [⟨0, "Visits"⟩, ⟨1, "Visits"⟩] none none
    [.add "pipeline" "new", .remove "pipeline" "Visits", .add "pipeline" "new"]
    [.add ⟨1, "Visits"⟩, .remove "Visits", .add ⟨1, "Visits"⟩] rfl rfl
    (.cons (.add rfl) (.cons (.remove _) (.cons (.add rfl) .nil)))
  exact known

end Sample

end Session

end EventTracking
