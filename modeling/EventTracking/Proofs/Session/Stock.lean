import EventTracking.Session.Run

set_option autoImplicit false

namespace EventTracking

structure Stock where
  stores : Array Store
  queues : Array Queue
  handoffs : Array Handoff
  jobs : List (TaskId × Job)
  ledger : Ledger

structure Staff where
  hasRuntime : Bool
  nextTask : TaskId
  aborted : List TaskId
  results : List (TaskId × Answer)

namespace Session

def stock (s : Session) : Stock := ⟨s.stores, s.queues, s.handoffs, s.jobs, s.ledger⟩

def staff (s : Session) : Staff := ⟨s.hasRuntime, s.nextTask, s.aborted, s.results⟩

def setup (s : Session) : Stock × Staff := (s.stock, s.staff)

theorem stock_of_setup {s t : Session} (same : t.setup = s.setup) : t.stock = s.stock :=
  congrArg Prod.fst same

theorem getD_set {α : Type} (xs : Array α) (i j : Nat) (x fallback : α) :
    (xs.set! i x).getD j fallback = if i = j ∧ i < xs.size then x else xs.getD j fallback := by
  rw [Array.getD_eq_getD_getElem?, Array.getD_eq_getD_getElem?, Array.set!_eq_setIfInBounds,
    Array.getElem?_setIfInBounds]
  by_cases same : i = j
  · by_cases inside : i < xs.size
    · simp [same ▸ inside, same]
    · simp [same ▸ inside, same]
  · simp [same]

theorem set_getD {α : Type} (xs : Array α) (i : Nat) (fallback : α) :
    xs.set! i (xs.getD i fallback) = xs := by
  rw [Array.set!_eq_setIfInBounds, Array.getD_eq_getD_getElem?]
  by_cases there : i < xs.size
  · simp [there, Array.setIfInBounds]
  · simp [there, Array.setIfInBounds]

theorem store_setStore (s : Session) (id k : StoreId) (x : Store) :
    (setStore id x s).2.store k = if id = k ∧ id < s.stores.size then x else s.store k :=
  getD_set s.stores id k x default

theorem queue_setQueue (s : Session) (id k : QueueId) (q : Queue) :
    (setQueue id q s).2.queue k = if id = k ∧ id < s.queues.size then q else s.queue k :=
  getD_set s.queues id k q default

theorem queue_of_not_lt {s : Session} {id : QueueId} (missing : ¬ id < s.queues.size) :
    s.queue id = default := by
  have none : s.queues[id]? = none := by simpa using missing
  simp [queue, none]

theorem setQueue_view {β : Type} (view : Queue → β) {s : Session} {id k : QueueId} {q : Queue}
    (same : id = k → view q = view (s.queue k)) :
    view ((setQueue id q s).2.queue k) = view (s.queue k) := by
  rw [queue_setQueue]
  split
  · next here => exact same here.1
  · rfl

theorem setQueue_of_not_lt {s : Session} {id : QueueId} (missing : ¬ id < s.queues.size)
    (q : Queue) : (setQueue id q s).2 = s := by
  have same : s.queues.set! id q = s.queues := by
    rw [Array.set!_eq_setIfInBounds]
    exact Array.setIfInBounds_eq_of_size_le (Nat.le_of_not_lt missing)
  exact congrArg (fun queues => { s with queues }) same

theorem setQueue_queue (s : Session) (id : QueueId) : (setQueue id (s.queue id) s).2 = s :=
  congrArg (fun queues => { s with queues }) (set_getD s.queues id default)

theorem setQueue_setQueue (s : Session) (id : QueueId) (q q' : Queue) :
    (setQueue id q' (setQueue id q s).2).2 = (setQueue id q' s).2 := by
  have same : (s.queues.set! id q).set! id q' = s.queues.set! id q' := by simp
  exact congrArg (fun queues => { s with queues }) same

theorem handoff_setHandoff (s : Session) (id k : HandoffId) (h : Handoff) :
    (setHandoff id h s).2.handoff k =
      if id = k ∧ id < s.handoffs.size then h else s.handoff k :=
  getD_set s.handoffs id k h default

@[simp]
theorem ledger_note (m : Milestone) (s : Session) : (note m s).2.ledger = m :: s.ledger := rfl

@[simp]
theorem ledger_setHandoff (s : Session) (id : HandoffId) (h : Handoff) :
    (setHandoff id h s).2.ledger = s.ledger := rfl

theorem whenAllowed_cases {α : Type} (ready : Session → Option α × Session) (s : Session) :
    (whenAllowed ready s).1 = none ∧ (whenAllowed ready s).2.setup = s.setup ∨
      (whenAllowed ready s).1 = (ready s).1 ∧
        (whenAllowed ready s).2.setup = (ready s).2.setup := by
  unfold whenAllowed
  split
  · exact .inr ⟨rfl, rfl⟩
  · cases s.scheduler.spend? with
    | none => exact .inl ⟨rfl, rfl⟩
    | some scheduler =>
      rcases ready s with ⟨_ | a, s'⟩
      · exact .inr ⟨rfl, rfl⟩
      · exact .inr ⟨rfl, rfl⟩

namespace Change

variable {α β : Type}

theorem get_bind (k : Session → Change α) (s : Session) :
    (MonadState.get >>= k : Change α) s = k s s := rfl

def Fixes {γ : Type} (view : Session → γ) (c : Change α) : Prop := ∀ s, view (c s).2 = view s

namespace Fixes

variable {γ : Type} {view : Session → γ}

theorem pure (a : α) : Fixes view (Pure.pure a) := fun _ => rfl

theorem bind {c : Change α} {k : α → Change β} (first : Fixes view c)
    (rest : ∀ a, Fixes view (k a)) : Fixes view (c >>= k) := fun s => (rest _ _).trans (first s)

theorem bind_apply {c : Change α} (first : Fixes view c) (k : α → Change β) (s : Session) :
    ∃ a t, view t = view s ∧ (c >>= k) s = k a t := ⟨_, _, first s, rfl⟩

theorem get : Fixes view (MonadState.get : Change Session) := fun _ => rfl

theorem forM {l : List α} {f : α → Change PUnit} (h : ∀ a, Fixes view (f a)) :
    Fixes view (l.forM f) := by
  induction l with
  | nil => exact pure _
  | cons a l ih => exact bind (h a) fun _ => ih

theorem foldlM {l : List α} {f : β → α → Change β} (h : ∀ b a, Fixes view (f b a)) (b : β) :
    Fixes view (l.foldlM f b) := by
  induction l generalizing b with
  | nil => exact pure b
  | cons a l ih =>
    rw [List.foldlM_cons]
    exact bind (h b a) ih

end Fixes

abbrev Aside (c : Change α) : Prop := Fixes setup c

def Deaf {γ : Type} (view : Session → γ) : Prop :=
  ∀ (s : Session) (consoles : Array Console) (observed : List Observation),
    view { s with consoles, observed } = view s

end Change

open Change

theorem fixes_onUsable {γ : Type} {view : Session → γ} {act : Hooks Change → Change Unit}
    (p : Pipeline PluginRef) (acts : ∀ ref, Fixes view (act (hooks ref))) :
    Fixes view (p.onUsable hooks act) := by
  refine Fixes.forM fun ref => Fixes.bind (fun _ => rfl) fun usable => ?_
  cases usable with
  | false => exact Fixes.pure ()
  | true => exact acts ref

section Reports

variable {γ : Type} {view : Session → γ} (deaf : Deaf view)

include deaf

theorem fixes_observe (o : Observation) : Fixes view (observe o) :=
  fun s => deaf s s.consoles (o :: s.observed)

theorem fixes_report (console : ConsoleId) (e : Entry) : Fixes view (report console e) :=
  fun s => deaf s _ _

theorem fixes_consoleOr (c : Option ConsoleId) : Fixes view (consoleOr c) := by
  cases c with
  | none => exact fun s => deaf s (s.consoles.push .default) s.observed
  | some c => exact Fixes.pure c

theorem fixes_validate (ref : PluginRef) (e : UntrackedEvent) :
    Fixes view ((hooks ref).validate e) := by
  refine Fixes.get.bind fun s => ?_
  cases s.plugin ref.id with
  | journal => exact fixes_observe deaf _
  | application | taxonomy | path => exact Fixes.pure ()

theorem fixes_enrich (ref : PluginRef) (contexts : Contexts) :
    Fixes view ((hooks ref).enrich contexts) := by
  refine Fixes.get.bind fun s => ?_
  cases s.plugin ref.id with
  | journal => exact (fixes_observe deaf _).bind fun _ => Fixes.pure _
  | application p =>
    dsimp only
    cases p.enrich? contexts with
    | some contexts => exact Fixes.pure contexts
    | none =>
      exact (fixes_consoleOr deaf p.console).bind fun c => (fixes_report deaf c _).bind fun _ =>
        Fixes.pure contexts
  | path | taxonomy => exact Fixes.pure _

theorem fixes_beforeTransport (ref : PluginRef) (e : Event) :
    Fixes view ((hooks ref).beforeTransport e) := by
  refine Fixes.get.bind fun s => ?_
  cases s.plugin ref.id with
  | journal => exact fixes_observe deaf _
  | taxonomy p =>
    exact (fixes_consoleOr deaf p.console).bind fun c => Fixes.forM fun r => fixes_report deaf c r
  | application | path => exact Fixes.pure ()

theorem fixes_enrich_all (p : Pipeline PluginRef) (contexts : Contexts) :
    Fixes view (p.enrich hooks contexts) := by
  refine Fixes.foldlM (fun c ref => Fixes.bind (fun _ => rfl) fun usable => ?_) contexts
  cases usable with
  | false => exact Fixes.pure c
  | true => exact fixes_enrich deaf ref c

end Reports

theorem deaf_setup : Deaf setup := fun _ _ _ => rfl

theorem aside_observe (o : Observation) : Aside (observe o) := fixes_observe deaf_setup o

theorem aside_report (console : ConsoleId) (e : Entry) : Aside (report console e) :=
  fixes_report deaf_setup console e

theorem aside_consoleOr (c : Option ConsoleId) : Aside (consoleOr c) := fixes_consoleOr deaf_setup c

theorem aside_cancel (id : CancellationId) : Aside (cancel id) := fun _ => rfl

theorem aside_cancelAt (n : Nat) (cancelOn : Option (CancelOn CancellationId)) :
    Aside (cancelAt n cancelOn) := by
  cases cancelOn with
  | none => exact fun _ => rfl
  | some c =>
    by_cases now : c.n = n
    · simpa [cancelAt, now] using aside_cancel c.cancellation
    · simpa [cancelAt, now] using Fixes.pure ()

theorem aside_beginCall (id : LeafId) (x : ScriptedLeaf) (batch : List Event) :
    Aside (beginCall id x batch) :=
  Fixes.bind (fun _ => rfl) fun _ => (aside_observe _).bind fun _ =>
    (aside_cancelAt _ _).bind fun _ => Fixes.pure _

theorem aside_endCall (id : LeafId) : Aside (endCall id) := by
  refine Fixes.get.bind fun s => ?_
  cases s.leaf id with
  | scripted x =>
    dsimp only
    split
    · exact (aside_observe _).bind fun _ => Fixes.pure _
    · exact Fixes.bind (fun _ => rfl) fun _ => (aside_observe _).bind fun _ => Fixes.pure _
  | debug | collector => exact Fixes.pure _

theorem warns_setup (console : ConsoleId) (f : Event → String) (events : List Event)
    (s : Session) :
    (events.foldl (fun s e => surroundings.warn console (f e) s) s).setup = s.setup := by
  induction events generalizing s with
  | nil => rfl
  | cons e rest ih => exact (ih _).trans rfl

theorem aside_setPlugin (id : Nat) (p : Plugin) : Aside (setPlugin id p) := fun _ => rfl

theorem aside_attach (ref : PluginRef) (owner : Owner) : Aside ((hooks ref).attach owner) := by
  refine Fixes.get.bind fun s => ?_
  cases s.plugin ref.id with
  | journal => exact aside_observe _
  | application | taxonomy => exact aside_setPlugin _ _
  | path => exact Fixes.pure ()

theorem aside_validate (ref : PluginRef) (e : UntrackedEvent) : Aside ((hooks ref).validate e) :=
  fixes_validate deaf_setup ref e

theorem aside_enrich (ref : PluginRef) (contexts : Contexts) :
    Aside ((hooks ref).enrich contexts) := fixes_enrich deaf_setup ref contexts

theorem aside_beforeTransport (ref : PluginRef) (e : Event) :
    Aside ((hooks ref).beforeTransport e) := fixes_beforeTransport deaf_setup ref e

theorem aside_enrich_all (p : Pipeline PluginRef) (contexts : Contexts) :
    Aside (p.enrich hooks contexts) := fixes_enrich_all deaf_setup p contexts

theorem takeNext_of_nil {id : HandoffId} {s : Session} (h : (s.handoff id).channel = []) :
    takeNext id s = (none, s) := by
  unfold takeNext
  rw [get_bind]
  simp only [Handoff.receive?, h]
  rfl

theorem takeNext_of_cons {id : HandoffId} {s : Session} {e : Event} {rest : List Event}
    (h : (s.handoff id).channel = e :: rest) :
    takeNext id s = (some e, (note (.received id e)
      (setHandoff id { s.handoff id with channel := rest } s).2).2) := by
  unfold takeNext
  rw [get_bind]
  simp only [Handoff.receive?, h]
  rfl

def Change.Stamps (c : Change Event) : Prop :=
  ∀ s, (c s).2.setup = (note (.stamped (c s).1) s).2.setup

theorem Change.Aside.stamps {α : Type} {c : Change α} {k : α → Change Event} (first : Aside c)
    (rest : ∀ a, Stamps (k a)) : Stamps (c >>= k) := by
  intro s
  have noted (e : Event) : (note (.stamped e) (c s).2).2.setup = (note (.stamped e) s).2.setup :=
    congrArg (fun w : Stock × Staff =>
      ({ w.1 with ledger := .stamped e :: w.1.ledger }, w.2)) (first s)
  exact (rest (c s).1 (c s).2).trans (noted _)

theorem Change.Stamps.aside {c : Change Event} {k : Event → Change Unit} (first : Stamps c)
    (rest : ∀ e, Aside (k e)) : Stamps (do let e ← c; k e; return e) :=
  fun s => (rest (c s).1 (c s).2).trans (first s)

theorem stamps_stamp (e : UntrackedEvent) : Stamps (stamp e) := fun _ => rfl

theorem stamps_finalize (t : SessionTracker) (e : UntrackedEvent) (extra : List Contexts) :
    Stamps (finalize t e extra) := by
  cases active : t.active with
  | false => simpa [finalize, Tracker.finalize, active] using stamps_stamp (t.compose e extra)
  | true =>
    have validates : Aside (t.plugins.validate hooks (t.compose e extra)) :=
      fixes_onUsable _ fun ref => aside_validate ref _
    have sees (e : Event) : Aside (t.plugins.beforeTransport hooks e) :=
      fixes_onUsable _ fun ref => aside_beforeTransport ref e
    simpa [finalize, Tracker.finalize, active] using
      validates.stamps fun _ => (aside_enrich_all _ _).stamps fun _ => (stamps_stamp _).aside sees

theorem begin?_eq_some {s t : Session} {task : TaskId} {job : Job}
    (h : s.begin? task = some (job, t)) :
    (task, job) ∈ s.jobs ∧ t = { s with jobs := s.jobs.filter fun j => j.1 != task } := by
  obtain ⟨⟨task', job'⟩, found, rest⟩ := Option.map_eq_some_iff.1 h
  have named : task' = task := by simpa using List.find?_some found
  obtain ⟨rfl, rfl⟩ := Prod.mk.inj rest
  exact ⟨named ▸ List.mem_of_find?_eq_some found, rfl⟩

def hire (s : Session) (job : Job) : Session :=
  { s with nextTask := s.nextTask + 1, jobs := s.jobs ++ [(s.nextTask, job)] }

theorem spawn?_setup (job : Job) {s : Session} (live : s.hasRuntime = true) :
    (spawn? job s).2.setup = (s.hire job).setup := by
  have spawned : spawn? job s = (some s.nextTask, _) := if_pos live
  rw [spawned]
  rfl

theorem spawn?_live (job : Job) {s : Session} (live : s.hasRuntime = true) :
    (spawn? job s).2.stock = { s.stock with jobs := s.jobs ++ [(s.nextTask, job)] } :=
  stock_of_setup (spawn?_setup job live)

theorem spawn?_stock (job : Job) (s : Session) :
    ∃ jobs, (∀ j ∈ jobs, j.2 = job) ∧
      (spawn? job s).2.stock = { s.stock with jobs := s.jobs ++ jobs } := by
  by_cases live : s.hasRuntime = true
  · exact ⟨[(s.nextTask, job)], by simp, spawn?_live job live⟩
  · have same : spawn? job s = (none, s) := if_neg live
    exact ⟨[], by simp, by simp [same, stock]⟩

theorem startLoop_eq (id : QueueId) (start : Queue → Option TaskId → Except Error Unit × Queue)
    {s : Session} {r : Except Error Unit} {q : Queue}
    (started : start (s.queue id) (if s.hasRuntime then some s.nextTask else none) = (r, q)) :
    startLoop id start s = (r, if q.loop != (s.queue id).loop
      then (spawn? (.drains id) (setQueue id q s).2).2 else (setQueue id q s).2) := by
  have whole : startLoop id start s =
      (if (start (s.queue id) (if s.hasRuntime then some s.nextTask else none)).2.loop !=
          (s.queue id).loop then spawn? (.drains id) >>= fun _ => pure _ else pure _ : Change _)
        (setQueue id _ s).2 := rfl
  rw [whole, started]
  by_cases other : q.loop != (s.queue id).loop
  · rw [if_pos other, if_pos other]
    rfl
  · rw [if_neg other, if_neg other]
    rfl

theorem startLoop_stock (id : QueueId)
    (start : Queue → Option TaskId → Except Error Unit × Queue) (s : Session) :
    ∃ task jobs, (∀ j ∈ jobs, j.2 = .drains id) ∧
      (startLoop id start s).2.stock =
        { (setQueue id (start (s.queue id) task).2 s).2.stock with jobs := s.jobs ++ jobs } := by
  refine ⟨if s.hasRuntime then some s.nextTask else none, ?_⟩
  rw [startLoop_eq id start rfl]
  generalize (start (s.queue id) _).2 = q
  by_cases other : q.loop != (s.queue id).loop
  · obtain ⟨jobs, drains, stock⟩ := spawn?_stock (.drains id) (setQueue id q s).2
    refine ⟨jobs, drains, ?_⟩
    simp only [if_pos other]
    exact stock
  · refine ⟨[], by simp, ?_⟩
    simp only [if_neg other, List.append_nil]
    rfl

theorem ensureRunning_beside (id : QueueId) (s : Session) :
    (ensureRunning id s).2.handoffs = s.handoffs ∧ (ensureRunning id s).2.ledger = s.ledger := by
  obtain ⟨_, _, _, stock⟩ := startLoop_stock id Queue.ensureRunning s
  exact ⟨congrArg Stock.handoffs stock, congrArg Stock.ledger stock⟩

theorem fixes_abort (task : TaskId) : Fixes stock (abort task) := by
  intro s
  change (if s.isFinished task then s else _ : Session).stock = s.stock
  split <;> rfl

theorem stopLoop_stock (id : QueueId) (s : Session) :
    (stopLoop id s).2.stock = (setQueue id (s.queue id).stop.2 s).2.stock := by
  unfold stopLoop
  rw [get_bind]
  rcases (s.queue id).stop with ⟨_ | task, q⟩
  · rfl
  · exact fixes_abort task (setQueue id q s).2

theorem stopLoop_eq (id : QueueId) (s : Session) :
    (s.queue id).loop = none ∧ (stopLoop id s).2 = s ∨ ∃ n, (s.queue id).loop = some n ∧
      (stopLoop id s).2 =
        (abort n (setQueue id { s.queue id with stopping := true, loop := none } s).2).2 := by
  unfold stopLoop
  rw [get_bind]
  cases loop : (s.queue id).loop with
  | none =>
    have still : (s.queue id).stop = (none, s.queue id) := by simp [Queue.stop, loop]
    rw [still]
    exact .inl ⟨rfl, setQueue_queue s id⟩
  | some n =>
    have stopped : (s.queue id).stop =
        (some n, { s.queue id with stopping := true, loop := none }) := by simp [Queue.stop, loop]
    rw [stopped]
    exact .inr ⟨n, rfl, rfl⟩

section Sending

variable {id : HandoffId} {s : Session} (e : Event)

theorem send_open (opened : (s.handoff id).isOpen = true) :
    (send id e s).2.setup = (note (.sent id e)
      (setHandoff id { (s.handoff id).push e with receiver := none } s).2).2.setup := by
  unfold send
  rw [get_bind]
  simp [Handoff.send?, opened]
  rfl

theorem send_start (shut : (s.handoff id).isOpen = false) (live : s.hasRuntime = true) :
    (send id e s).2.setup = (note (.sent id e)
      (setHandoff id { (s.handoff id).openChannel.push e with receiver := none }
        (spawn? (.forwards id) s).2).2).2.setup := by
  unfold send
  rw [get_bind]
  simp [Handoff.send?, shut, live]
  rfl

theorem send_refused (shut : (s.handoff id).isOpen = false) (dead : s.hasRuntime = false) :
    send id e s = (false, s) := by
  unfold send
  rw [get_bind]
  simp [Handoff.send?, shut, dead]
  rfl

theorem send_cases (id : HandoffId) (s : Session) :
    (send id e s).2 = s ∨ ∃ (u : Session) (h : Handoff),
      (u = s ∨ u = (spawn? (.forwards id) s).2) ∧ h.transport = (u.handoff id).transport ∧
        (send id e s).2.setup = (note (.sent id e) (setHandoff id h u).2).2.setup := by
  cases opened : (s.handoff id).isOpen with
  | true =>
    exact .inr ⟨s, { (s.handoff id).push e with receiver := none }, .inl rfl, rfl,
      send_open e opened⟩
  | false =>
    cases live : s.hasRuntime with
    | true =>
      have same : (spawn? (.forwards id) s).2.handoff id = s.handoff id :=
        congrArg (fun stock => stock.handoffs.getD id default) (spawn?_live (.forwards id) live)
      refine .inr ⟨(spawn? (.forwards id) s).2,
        { (s.handoff id).openChannel.push e with receiver := none }, .inr rfl, ?_,
        send_start e opened live⟩
      rw [same]
      rfl
    | false => exact .inl (congrArg Prod.snd (send_refused e opened live))

theorem handOver_cases (t : SessionTracker) (s : Session) :
    (handOver t e s).2.setup = s.setup ∨
      ∃ id, t.handoff = some id ∧ (handOver t e s).2.setup = (send id e s).2.setup := by
  unfold handOver
  cases active : t.active with
  | false => exact .inl rfl
  | true =>
    simp only [if_true]
    rw [get_bind]
    cases usable : s.usableHandoff t with
    | none => exact .inl rfl
    | some id =>
      have mine : t.handoff = some id := (Option.filter_eq_some_iff.1 usable).1
      refine .inr ⟨id, mine, ?_⟩
      have reports (sent : Bool) : Aside (if !sent then
          report t.console (.error (t.undeliveredMessage e)) else pure ()) := by
        cases sent
        · exact aside_report _ _
        · exact Fixes.pure ()
      exact reports _ (send id e s).2

end Sending

end Session

end EventTracking
