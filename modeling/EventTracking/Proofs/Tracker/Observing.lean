import EventTracking.Proofs.Tracker.Scoping

set_option autoImplicit false

namespace EventTracking

open Session

abbrev World (ρ : Type) := Session × ρ

variable {ρ : Type}

def onSession {β : Type} (x : Change β) : StateM (World ρ) β := fun w =>
  ((x w.1).1, (x w.1).2, w.2)

def trackWith (hooks : PluginRef → Hooks (StateM (World ρ))) (t : SessionTracker)
    (e : UntrackedEvent) (extra : List Contexts) : StateM (World ρ) Event := do
  let x ← t.finalize hooks (fun e => onSession (stamp e)) e extra
  onSession (handOver t x)
  return x

def ownHooks (ref : PluginRef) : Hooks (StateM (World ρ)) where
  isUsable := onSession (hooks ref).isUsable
  attach owner := onSession ((hooks ref).attach owner)
  validate e := onSession ((hooks ref).validate e)
  enrich c := onSession ((hooks ref).enrich c)
  beforeTransport e := onSession ((hooks ref).beforeTransport e)

section Recording

inductive Visit where
  | validated (ref : PluginRef) (e : UntrackedEvent)
  | enriched (ref : PluginRef) (before after : Contexts)
  | observed (ref : PluginRef) (e : Event)

def World.noted (w : World ρ) (visits : List Visit) : World (ρ × List Visit) := (w.1, w.2, visits)

def unrecorded {β : Type} (x : StateM (World ρ) β) : StateM (World (ρ × List Visit)) β := fun w =>
  let o := x (w.1, w.2.1)
  (o.1, o.2.noted w.2.2)

def Visit.record (v : Visit) : StateM (World (ρ × List Visit)) Unit :=
  modify fun w => (w.1, w.2.1, w.2.2 ++ [v])

def recording (hooks : PluginRef → Hooks (StateM (World ρ))) (ref : PluginRef) :
    Hooks (StateM (World (ρ × List Visit))) where
  isUsable := unrecorded (hooks ref).isUsable
  attach owner := unrecorded ((hooks ref).attach owner)
  validate e := do
    Visit.record (.validated ref e)
    unrecorded ((hooks ref).validate e)
  enrich c := do
    let d ← unrecorded ((hooks ref).enrich c)
    Visit.record (.enriched ref c d)
    return d
  beforeTransport e := do
    Visit.record (.observed ref e)
    unrecorded ((hooks ref).beforeTransport e)

def links : Contexts → List (PluginRef × Contexts) → List Visit
  | _, [] => []
  | c, (ref, d) :: rest => .enriched ref c d :: links d rest

def left : Contexts → List (PluginRef × Contexts) → Contexts
  | c, [] => c
  | _, (_, d) :: rest => left d rest

theorem links_append (c : Contexts) (first rest : List (PluginRef × Contexts)) :
    links c (first ++ rest) = links c first ++ links (left c first) rest := by
  induction first generalizing c with
  | nil => rfl
  | cons x first ih => exact congrArg (Visit.enriched x.1 c x.2 :: ·) (ih x.2)

theorem left_append (c : Contexts) (first rest : List (PluginRef × Contexts)) :
    left c (first ++ rest) = left (left c first) rest := by
  induction first generalizing c with
  | nil => rfl
  | cons x first ih => exact ih x.2

end Recording

-- Hooks that leave it as it is which plugins are usable, and that the events of a tracker can be
-- handed off. Whatever else they keep may be part of `fit`.
structure Steady (hooks : PluginRef → Hooks (StateM (World ρ))) (t : SessionTracker)
    (usable : PluginRef → Bool) (id : HandoffId) (fit : World ρ → Prop) : Prop where
  usable : ∀ ref w, fit w → ((hooks ref).isUsable w).1 = usable ref
  asking : ∀ ref w, fit w → fit ((hooks ref).isUsable w).2
  validating : ∀ ref e w, fit w → fit ((hooks ref).validate e w).2
  enriching : ∀ ref c w, fit w → fit ((hooks ref).enrich c w).2
  stamping : ∀ e w, fit w → fit (onSession (stamp e) w).2
  observing : ∀ ref e w, fit w → fit ((hooks ref).beforeTransport e w).2
  handoff : ∀ w, fit w → w.1.usableHandoff t = some id ∧ id < w.1.handoffs.size
  runtime : ∀ w, fit w → w.1.hasRuntime = true

section Cons

variable {ω : Type} {hooks : PluginRef → Hooks (StateM ω)} (ref : PluginRef)
  (rest : List PluginRef) (w : ω)

theorem onUsable_cons (act : Hooks (StateM ω) → StateM ω Unit) :
    (Pipeline.mk (ref :: rest)).onUsable hooks act w =
      let asked := (hooks ref).isUsable w
      (Pipeline.mk rest).onUsable hooks act
        (if asked.1 then (act (hooks ref) asked.2).2 else asked.2) := by
  let asked := (hooks ref).isUsable w
  let first : StateM ω Unit := if asked.1 then act (hooks ref) else pure ()
  change (Pipeline.mk rest).onUsable hooks act (first asked.2).2 = _
  dsimp only [first, asked]
  split <;> rfl

theorem enrich_cons (c : Contexts) :
    (Pipeline.mk (ref :: rest)).enrich hooks c w =
      let asked := (hooks ref).isUsable w
      let next := if asked.1 then (hooks ref).enrich c asked.2 else (c, asked.2)
      (Pipeline.mk rest).enrich hooks next.1 next.2 := by
  let asked := (hooks ref).isUsable w
  let first : StateM ω Contexts := if asked.1 then (hooks ref).enrich c else pure c
  rw [Pipeline.enrich, List.foldlM_cons]
  change (Pipeline.mk rest).enrich hooks (first asked.2).1 (first asked.2).2 = _
  dsimp only [first, asked]
  split <;> rfl

end Cons

section Phases

variable {hooks : PluginRef → Hooks (StateM (World ρ))} {t : SessionTracker}
  {usable : PluginRef → Bool} {id : HandoffId} {fit : World ρ → Prop}

theorem onUsable_recording (steady : Steady hooks t usable id fit)
    {act : Hooks (StateM (World ρ)) → StateM (World ρ) Unit}
    {act' : Hooks (StateM (World (ρ × List Visit))) → StateM (World (ρ × List Visit)) Unit}
    {visit : PluginRef → Visit}
    (keeps : ∀ ref w, fit w → fit (act (hooks ref) w).2)
    (recorded : ∀ ref, act' (recording hooks ref) = do
      (visit ref).record
      unrecorded (act (hooks ref)))
    (p : Pipeline PluginRef) {w : World ρ} (ready : fit w) (visits : List Visit) :
    let after := (p.onUsable hooks act w).2
    fit after ∧ p.onUsable (recording hooks) act' (w.noted visits) =
      ((), after.noted (visits ++ (p.plugins.filter usable).map visit)) := by
  obtain ⟨refs⟩ := p
  induction refs generalizing w visits with
  | nil =>
    refine ⟨ready, ?_⟩
    change ((), w.noted visits) = ((), w.noted (visits ++ []))
    rw [List.append_nil]
  | cons ref rest ih =>
    let asked := (hooks ref).isUsable w
    let next := if asked.1 then (act (hooks ref) asked.2).2 else asked.2
    let shown := if usable ref then visits ++ [visit ref] else visits
    have answer : asked.1 = usable ref := steady.usable ref w ready
    have still : fit asked.2 := steady.asking ref w ready
    have kept : fit next := by
      dsimp only [next]
      split
      · exact keeps ref _ still
      · exact still
    have noted : (Pipeline.mk (ref :: rest)).onUsable (recording hooks) act' (w.noted visits) =
        (Pipeline.mk rest).onUsable (recording hooks) act' (next.noted shown) := by
      rw [onUsable_cons, recorded]
      change (Pipeline.mk rest).onUsable (recording hooks) act' (if asked.1 then
        (act (hooks ref) asked.2).2.noted (visits ++ [visit ref]) else asked.2.noted visits) = _
      dsimp only [next, shown]
      rw [answer]
      split <;> rfl
    have listed : shown ++ (rest.filter usable).map visit =
        visits ++ ((ref :: rest).filter usable).map visit := by
      dsimp only [shown]
      rw [List.filter_cons]
      split <;> simp
    obtain ⟨fits, later⟩ := ih kept shown
    rw [onUsable_cons, noted]
    exact ⟨fits, later.trans (by rw [listed])⟩

theorem validate_recording (steady : Steady hooks t usable id fit) (e : UntrackedEvent)
    (p : Pipeline PluginRef) {w : World ρ} (ready : fit w) (visits : List Visit) :
    let after := (p.validate hooks e w).2
    fit after ∧ p.validate (recording hooks) e (w.noted visits) =
      ((), after.noted (visits ++ (p.plugins.filter usable).map (.validated · e))) :=
  onUsable_recording steady (fun ref => steady.validating ref e) (fun _ => rfl) p ready visits

theorem beforeTransport_recording (steady : Steady hooks t usable id fit) (x : Event)
    (p : Pipeline PluginRef) {w : World ρ} (ready : fit w) (visits : List Visit) :
    let after := (p.beforeTransport hooks x w).2
    fit after ∧ p.beforeTransport (recording hooks) x (w.noted visits) =
      ((), after.noted (visits ++ (p.plugins.filter usable).map (.observed · x))) :=
  onUsable_recording steady (fun ref => steady.observing ref x) (fun _ => rfl) p ready visits

theorem enrich_recording (steady : Steady hooks t usable id fit) (p : Pipeline PluginRef)
    {w : World ρ} (ready : fit w) (c : Contexts) (visits : List Visit) :
    let after := p.enrich hooks c w
    ∃ outs : List (PluginRef × Contexts), outs.map Prod.fst = p.plugins.filter usable ∧
      fit after.2 ∧ after.1 = left c outs ∧
      p.enrich (recording hooks) c (w.noted visits) =
        (after.1, after.2.noted (visits ++ links c outs)) := by
  obtain ⟨refs⟩ := p
  induction refs generalizing w c visits with
  | nil =>
    refine ⟨[], rfl, ready, rfl, ?_⟩
    change (c, w.noted visits) = (c, w.noted (visits ++ []))
    rw [List.append_nil]
  | cons ref rest ih =>
    let asked := (hooks ref).isUsable w
    let next := if asked.1 then (hooks ref).enrich c asked.2 else (c, asked.2)
    let here := if usable ref then [(ref, next.1)] else []
    have answer : asked.1 = usable ref := steady.usable ref w ready
    have still : fit asked.2 := steady.asking ref w ready
    have kept : fit next.2 := by
      dsimp only [next]
      split
      · exact steady.enriching ref c _ still
      · exact still
    have ends : left c here = next.1 := by
      dsimp only [here, next]
      rw [answer]
      split <;> rfl
    have noted : (Pipeline.mk (ref :: rest)).enrich (recording hooks) c (w.noted visits) =
        (Pipeline.mk rest).enrich (recording hooks) next.1
          (next.2.noted (visits ++ links c here)) := by
      rw [enrich_cons]
      change (let next' := if asked.1 then
          let made := (hooks ref).enrich c asked.2
          (made.1, made.2.noted (visits ++ [.enriched ref c made.1]))
        else (c, asked.2.noted visits)
        (Pipeline.mk rest).enrich (recording hooks) next'.1 next'.2) = _
      dsimp only [next, here]
      rw [answer]
      split
      · rfl
      · simp only [links, List.append_nil]
    obtain ⟨outs, listed, fits, last, later⟩ := ih kept next.1 (visits ++ links c here)
    refine ⟨here ++ outs, ?_, ?_⟩
    · rw [List.map_append, listed, List.filter_cons]
      dsimp only [here]
      split <;> rfl
    · rw [enrich_cons, noted, links_append, left_append, ends, ← List.append_assoc]
      exact ⟨fits, last, later⟩

end Phases

section Finalizing

variable {hooks : PluginRef → Hooks (StateM (World ρ))} {t : SessionTracker}
  {usable : PluginRef → Bool} {id : HandoffId} {fit : World ρ → Prop} (e : UntrackedEvent)
  (extra : List Contexts)

def visits (us : List PluginRef) (composed : UntrackedEvent)
    (outs : List (PluginRef × Contexts)) (x : Event) : List Visit :=
  us.map (.validated · composed) ++ links composed.contexts outs ++ us.map (.observed · x)

theorem finalize_recording (steady : Steady hooks t usable id fit) (active : t.active = true)
    {w : World ρ} (ready : fit w) :
    let us := t.plugins.plugins.filter usable
    let composed := t.compose e extra
    let after := t.finalize hooks (fun e => onSession (stamp e)) e extra w
    ∃ outs : List (PluginRef × Contexts), outs.map Prod.fst = us ∧ fit after.2 ∧
      (after.1.type = e.type ∧ after.1.properties = e.properties ∧
        after.1.contexts = left composed.contexts outs) ∧
      t.finalize (recording hooks) (fun e => onSession (stamp e)) e extra (w.noted []) =
        (after.1, after.2.noted (visits us composed outs after.1)) := by
  let composed := t.compose e extra
  let us := t.plugins.plugins.filter usable
  let seen := us.map (Visit.validated · composed)
  obtain ⟨fits, validated⟩ := validate_recording steady composed t.plugins ready []
  obtain ⟨outs, listed, fits, last, enriched⟩ :=
    enrich_recording steady t.plugins fits composed.contexts seen
  let contexts := t.plugins.enrich hooks composed.contexts
    (t.plugins.validate hooks composed w).2
  let stamped := onSession (stamp { e with contexts := contexts.1 }) contexts.2
  obtain ⟨fits, observed⟩ := beforeTransport_recording steady stamped.1 t.plugins
    (steady.stamping _ _ fits) (seen ++ links composed.contexts outs)
  have plain : t.finalize hooks (fun e => onSession (stamp e)) e extra w =
      (stamped.1, (t.plugins.beforeTransport hooks stamped.1 stamped.2).2) := by
    simp only [Tracker.finalize, active]
    rfl
  have noted : t.finalize (recording hooks) (fun e => onSession (stamp e)) e extra (w.noted []) =
      (stamped.1, (t.plugins.beforeTransport hooks stamped.1 stamped.2).2.noted
        (visits us composed outs stamped.1)) := by
    let rest (o : Contexts × World (ρ × List Visit)) :=
      let o := onSession (stamp { e with contexts := o.1 }) o.2
      (o.1, (t.plugins.beforeTransport (recording hooks) o.1 o.2).2)
    have whole : t.finalize (recording hooks) (fun e => onSession (stamp e)) e extra
        (w.noted []) = rest (t.plugins.enrich (recording hooks) composed.contexts
          (t.plugins.validate (recording hooks) composed (w.noted [])).2) := by
      simp only [Tracker.finalize, active]
      rfl
    rw [whole, validated]
    refine (congrArg rest enriched).trans ?_
    exact congrArg (fun o : Unit × World (ρ × List Visit) => (stamped.1, o.2)) observed
  rw [plain]
  exact ⟨outs, listed, fits, ⟨rfl, rfl, last⟩, noted⟩

end Finalizing

section Sending

variable {t : SessionTracker} {id : HandoffId} {s : Session}

theorem handOver_usable (active : t.active = true) (usable : s.usableHandoff t = some id)
    (x : Event) : (handOver t x s).2.stock = (send id x s).2.stock := by
  have reports (sent : Bool) : Change.Aside (if !sent then
      report t.console (.error (t.undeliveredMessage x)) else pure ()) := by
    cases sent
    · exact aside_report _ _
    · exact Change.Fixes.pure ()
  have run : handOver t x s = (send id x >>= fun sent => if !sent then
      report t.console (.error (t.undeliveredMessage x)) else pure () : Change Unit) s := by
    simp only [handOver, active, if_true]
    rw [Change.get_bind, usable]
  rw [run]
  exact stock_of_setup (reports _ _)

theorem sent_of_stock {u v : Session} {h : Handoff} {x : Event} (there : id < v.handoffs.size)
    (same : u.stock = (note (.sent id x) (setHandoff id h v).2).2.stock)
    (last : h.channel.getLast? = some x) :
    u.ledger = .sent id x :: v.ledger ∧ (u.handoff id).channel.getLast? = some x := by
  have taken : u.handoff id = h := by
    have set : u.handoff id = (setHandoff id h v).2.handoff id :=
      congrArg (fun stock : Stock => stock.handoffs.getD id default) same
    rw [set, handoff_setHandoff, if_pos ⟨rfl, there⟩]
  exact ⟨congrArg Stock.ledger same, taken ▸ last⟩

theorem handOver_sends (active : t.active = true) (usable : s.usableHandoff t = some id)
    (there : id < s.handoffs.size) (live : s.hasRuntime = true) (x : Event) :
    let after := (handOver t x s).2
    after.ledger = .sent id x :: s.ledger ∧ (after.handoff id).channel.getLast? = some x := by
  have same := handOver_usable active usable x
  cases opened : (s.handoff id).isOpen with
  | true =>
    exact sent_of_stock there (same.trans (stock_of_setup (send_open x opened)))
      (by simp [Handoff.push])
  | false =>
    let started := (spawn? (.forwards id) s).2
    have stock : started.stock = { s.stock with jobs := s.jobs ++ [(s.nextTask, .forwards id)] } :=
      spawn?_live (.forwards id) live
    have still : id < started.handoffs.size := by
      have handoffs : started.handoffs = s.handoffs := congrArg Stock.handoffs stock
      rw [handoffs]
      exact there
    have sent := sent_of_stock still
      (same.trans (stock_of_setup (send_start x opened live))) (by simp [Handoff.push])
    have ledger : started.ledger = s.ledger := congrArg Stock.ledger stock
    rwa [ledger] at sent

end Sending

section Own

theorem onSession_onUsable {act : Hooks Change → Change Unit}
    {act' : Hooks (StateM (World ρ)) → StateM (World ρ) Unit}
    (same : ∀ ref, act' (ownHooks ref) = onSession (act (hooks ref))) (p : Pipeline PluginRef) :
    p.onUsable ownHooks act' = onSession (p.onUsable hooks act) := by
  obtain ⟨refs⟩ := p
  induction refs with
  | nil => rfl
  | cons ref rest ih =>
    let first : Change Unit := do if ← (hooks ref).isUsable then act (hooks ref)
    let first' : StateM (World ρ) Unit := do if ← (ownHooks ref).isUsable then act' (ownHooks ref)
    have here : first' = onSession first := by
      dsimp only [first']
      rw [same]
      funext w
      change (if ((hooks ref).isUsable w.1).1 then onSession (act (hooks ref)) else pure () :
        StateM (World ρ) Unit) _ = onSession (if ((hooks ref).isUsable w.1).1 then
          act (hooks ref) else pure ()) _
      split <;> rfl
    have whole : (Pipeline.mk (ref :: rest)).onUsable ownHooks act' =
        (do first'; (Pipeline.mk rest).onUsable ownHooks act' : StateM (World ρ) Unit) := rfl
    rw [whole, here, ih]
    rfl

theorem onSession_enrich (p : Pipeline PluginRef) (c : Contexts) :
    p.enrich ownHooks c = (onSession (p.enrich hooks c) : StateM (World ρ) Contexts) := by
  obtain ⟨refs⟩ := p
  induction refs generalizing c with
  | nil => rfl
  | cons ref rest ih =>
    let first : Change Contexts := do
      if ← (hooks ref).isUsable then (hooks ref).enrich c else pure c
    let first' : StateM (World ρ) Contexts := do
      if ← (ownHooks ref).isUsable then (ownHooks ref).enrich c else pure c
    have here : first' = onSession first := by
      funext w
      change (if ((hooks ref).isUsable w.1).1 then onSession ((hooks ref).enrich c) else pure c :
        StateM (World ρ) Contexts) _ = onSession (if ((hooks ref).isUsable w.1).1 then
          (hooks ref).enrich c else pure c) _
      split <;> rfl
    have whole : (Pipeline.mk (ref :: rest)).enrich ownHooks c =
        first' >>= fun d => (Pipeline.mk rest).enrich ownHooks d := by
      rw [Pipeline.enrich, List.foldlM_cons]
      rfl
    have own : (Pipeline.mk (ref :: rest)).enrich hooks c =
        first >>= fun d => (Pipeline.mk rest).enrich hooks d := by
      rw [Pipeline.enrich, List.foldlM_cons]
      rfl
    rw [whole, here, own]
    simp only [ih]
    rfl

theorem trackWith_own (t : SessionTracker) (e : UntrackedEvent) (extra : List Contexts) :
    trackWith ownHooks t e extra = (onSession (track t e extra) : StateM (World ρ) Event) := by
  have validates (composed : UntrackedEvent) : t.plugins.validate ownHooks composed =
      (onSession (t.plugins.validate hooks composed) : StateM (World ρ) Unit) :=
    onSession_onUsable (fun _ => rfl) t.plugins
  have observes (x : Event) : t.plugins.beforeTransport ownHooks x =
      (onSession (t.plugins.beforeTransport hooks x) : StateM (World ρ) Unit) :=
    onSession_onUsable (fun _ => rfl) t.plugins
  cases active : t.active with
  | false =>
    simp only [trackWith, track, finalize, Tracker.finalize, active]
    rfl
  | true =>
    simp only [trackWith, track, finalize, Tracker.finalize, active, validates, observes,
      onSession_enrich]
    rfl

end Own

section Sessions

variable {t : SessionTracker} {id : HandoffId} {s : Session}

def kept (s : Session) : Array Plugin × Array Handoff × Array Leaf × Bool :=
  (s.plugins, s.handoffs, s.leaves, s.hasRuntime)

theorem usableHandoff_kept {u : Session} (same : kept u = kept s) :
    u.usableHandoff t = s.usableHandoff t := by
  obtain ⟨-, handoffs, leaves, -⟩ : _ ∧ u.handoffs = s.handoffs ∧ u.leaves = s.leaves ∧ _ := by
    simpa [kept] using same
  unfold usableHandoff Session.isUsable isLeafUsable leaf handoff
  rw [handoffs, leaves]

theorem steady_own (usable : s.usableHandoff t = some id) (there : id < s.handoffs.size)
    (live : s.hasRuntime = true) :
    Steady ownHooks t (fun ref => (s.plugin ref.id).isUsable) id
      (fun w : World ρ => kept w.1 = kept s) := by
  have deaf : Change.Deaf kept := fun _ _ _ => rfl
  refine ⟨fun ref w same => ?_, fun _ _ same => same, fun ref e w same => ?_,
    fun ref c w same => ?_, fun _ _ same => same, fun ref x w same => ?_, fun w same => ?_,
    fun w same => ?_⟩
  · have plugins : w.1.plugins = s.plugins := congrArg Prod.fst same
    change (w.1.plugin ref.id).isUsable = _
    rw [plugin, plugin, plugins]
  · exact (fixes_validate deaf ref e w.1).trans same
  · exact (fixes_enrich deaf ref c w.1).trans same
  · exact (fixes_beforeTransport deaf ref x w.1).trans same
  · have handoffs : w.1.handoffs = s.handoffs := congrArg (fun kept => kept.2.1) same
    rw [usableHandoff_kept same, handoffs]
    exact ⟨usable, there⟩
  · have runtime : w.1.hasRuntime = s.hasRuntime := congrArg (fun kept => kept.2.2.2) same
    rw [runtime]
    exact live

end Sessions

/-- An active tracker that can hand events off shows the composed event to the usable plugins, in
the order of registration, then has them enrich its contexts, each what the one before has left,
and then shows them the finished event: it is the one that is sent and returned. A tracker that is
not active only stamps the composed event. With the hooks of the session this is tracking. -/
theorem observed_is_delivered (hooks : PluginRef → Hooks (StateM (World ρ))) (t : SessionTracker)
    (e : UntrackedEvent) (extra : List Contexts) (w : World ρ) :
    let composed := t.compose e extra
    let run := trackWith hooks t e extra w
    let recorded := trackWith (recording hooks) t e extra (w.noted [])
    let finalized := t.finalize hooks (fun e => onSession (stamp e)) e extra w
    (t.active = true → ∀ usable id fit, Steady hooks t usable id fit → fit w →
      let us := t.plugins.plugins.filter usable
      ∃ outs x after, run = (x, after) ∧ outs.map Prod.fst = us ∧
        recorded = (x, after.noted (us.map (.validated · composed) ++
          links composed.contexts outs ++ us.map (.observed · x))) ∧
        (x.type = e.type ∧ x.properties = e.properties ∧
          x.contexts = left composed.contexts outs) ∧
        after.1.ledger = .sent id x :: finalized.2.1.ledger ∧
        (after.1.handoff id).channel.getLast? = some x) ∧
    (t.active = false → ∃ x, run = (x, (stamp composed w.1).2, w.2) ∧
      recorded = (x, run.2.noted []) ∧ x.contexts = composed.contexts ∧
      run.2.1.ledger = .stamped x :: w.1.ledger ∧ run.2.1.handoffs = w.1.handoffs) ∧
    trackWith ownHooks t e extra w =
      ((track t e extra w.1).1, (track t e extra w.1).2, w.2) := by
  refine ⟨fun active usable id fit steady ready => ?_, fun idle => ?_, ?_⟩
  · obtain ⟨outs, listed, fits, made, recorded⟩ := finalize_recording e extra steady active ready
    let finalized := t.finalize hooks (fun e => onSession (stamp e)) e extra w
    let handed (o : Event × World (ρ × List Visit)) := (o.1, (onSession (handOver t o.1) o.2).2)
    obtain ⟨usable, there⟩ := steady.handoff _ fits
    have sent := handOver_sends active usable there (steady.runtime _ fits) finalized.1
    exact ⟨outs, finalized.1, _, rfl, listed, congrArg handed recorded, made, sent⟩
  · have plain : trackWith hooks t e extra w = onSession (stamp (t.compose e extra)) w := by
      simp only [trackWith, Tracker.finalize, handOver, idle]
      rfl
    have noted : trackWith (recording hooks) t e extra (w.noted []) =
        onSession (stamp (t.compose e extra)) (w.noted []) := by
      simp only [trackWith, Tracker.finalize, handOver, idle]
      rfl
    rw [plain, noted]
    exact ⟨_, rfl, rfl, rfl, rfl, rfl⟩
  · exact congrFun (trackWith_own t e extra) w

section Sample

def newsroom : Session where
  consoles := #[.memory "console" []]
  plugins := #[.journal "first" true (shopScope "a"), .journal "second" false {},
    .journal "third" true (shopScope "b")]
  leaves := #[.debug 0]
  handoffs := #[{ transport := .leaf 0 }]

def newsTracker : SessionTracker where
  applicationId := "news"
  trackerId := "news"
  active := true
  contexts := shopConfig.contexts
  plugins := ⟨[⟨0, "first"⟩, ⟨1, "second"⟩, ⟨2, "third"⟩]⟩
  handoff := some 0
  queue := none
  console := 0

theorem observed_is_delivered_newsroom :
    newsTracker.active = true ∧
    Steady ownHooks newsTracker (fun ref => (newsroom.plugin ref.id).isUsable) 0
      (fun w : World Unit => kept w.1 = kept newsroom) ∧
    (∃ outs x after, track newsTracker press [] newsroom = (x, after) ∧
      outs.map Prod.fst = [⟨0, "first"⟩, ⟨2, "third"⟩] ∧
      x.contexts = left (newsTracker.compose press []).contexts outs ∧
      x.contexts.globals.map Context.id = ["cookie", "a", "b"] ∧
      (after.handoff 0).channel.getLast? = some x) ∧
    let idle := { newsTracker with active := false }
    idle.active = false ∧
      (track idle press [] newsroom).1.contexts = (idle.compose press []).contexts := by
  have steady : Steady ownHooks newsTracker (fun ref => (newsroom.plugin ref.id).isUsable) 0
      (fun w : World Unit => kept w.1 = kept newsroom) := steady_own rfl (by decide) rfl
  obtain ⟨shown, -, own⟩ := observed_is_delivered ownHooks newsTracker press [] (newsroom, ())
  obtain ⟨outs, x, after, run, listed, -, made, -, sent⟩ := shown rfl _ _ _ steady rfl
  have tracked : track newsTracker press [] newsroom = (x, after.1) := by
    rw [own] at run
    obtain ⟨returned, rest⟩ := Prod.mk.inj run
    exact Prod.ext returned (congrArg Prod.fst rest)
  have content : (track newsTracker press [] newsroom).1.contexts.globals.map Context.id =
      ["cookie", "a", "b"] := rfl
  obtain ⟨-, skipped, own⟩ := observed_is_delivered ownHooks { newsTracker with active := false }
    press [] (newsroom, ())
  obtain ⟨y, run, -, same, -⟩ := skipped rfl
  refine ⟨rfl, steady, ⟨outs, x, after.1, tracked, listed, made.2.2, ?_, sent⟩, rfl, ?_⟩
  · rw [tracked] at content
    exact content
  · rw [own] at run
    exact (congrArg Event.contexts (Prod.mk.inj run).1).trans same

end Sample

end EventTracking
