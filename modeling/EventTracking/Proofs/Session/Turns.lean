import EventTracking.Proofs.Session.Stock
import EventTracking.Proofs.Session.Workforce

set_option autoImplicit false

namespace EventTracking

namespace Runtime

def after (rt : Runtime) (cs : List Command) : Runtime := cs.foldl (fun rt c => (rt.step c).2) rt

end Runtime

namespace Session

open Async Change Relation

variable {outside : Session → Session → Prop} {s t : Session}

def Change.Follows {α : Type} (outside : Session → Session → Prop) (c : Change α) : Prop :=
  ∀ s, ReflTransGen outside s (c s).2

namespace Change.Follows

variable {α β : Type}

theorem pure (a : α) : Follows outside (Pure.pure a) := fun _ => .refl

theorem get : Follows outside (MonadState.get : Change Session) := fun _ => .refl

theorem bind {c : Change α} {k : α → Change β} (first : Follows outside c)
    (rest : ∀ a, Follows outside (k a)) : Follows outside (c >>= k) :=
  fun s => (first s).trans (rest _ _)

theorem forIn {l : List α} {f : α → β → Change (ForInStep β)}
    (each : ∀ a b, Follows outside (f a b)) (b : β) : Follows outside (forIn l b f) := by
  induction l generalizing b with
  | nil => exact pure b
  | cons a l ih =>
    rw [List.forIn_cons]
    refine bind (each a b) fun r => ?_
    cases r with
    | done b => exact pure b
    | yield b => exact ih b

theorem forM {l : List α} {f : α → Change PUnit} (each : ∀ a, Follows outside (f a)) :
    Follows outside (l.forM f) := by
  induction l with
  | nil => exact pure _
  | cons a l ih => exact (each a).bind fun _ => ih

end Change.Follows

structure AllowsTurns (outside : Session → Session → Prop) : Prop where
  aside {s t : Session} (same : t.setup = s.setup) : outside s t
  closes (id : HandoffId) (h : Handoff) (s : Session) : outside s (setHandoff id h s).2
  notesClosed (id : HandoffId) (s : Session) : outside s (note (.closed id) s).2
  stops (id : QueueId) (s : Session) : outside s (stopLoop id s).2

namespace AllowsTurns

theorem follows (allows : AllowsTurns outside) {α : Type} {c : Change α} (aside : Aside c) :
    Follows outside c := fun s => .single (allows.aside (aside s))

theorem completeWrites (allows : AllowsTurns outside) : Follows outside completeWrites := by
  refine Follows.get.bind fun s => (allows.follows fun _ => rfl).bind fun _ => ?_
  refine (Follows.forIn (fun w _ => (allows.follows fun s => ?_).bind fun _ =>
    (allows.follows fun _ => rfl).bind fun _ => (allows.follows fun _ => rfl).bind fun _ =>
      .pure _) _).bind fun _ => .pure _
  simp only [modifyGet, MonadStateOf.modifyGet, StateT.modifyGet]
  cases s.disk.write w.file w.text <;> rfl

theorem retire (allows : AllowsTurns outside) : Follows outside retire := by
  refine Follows.get.bind fun s => ?_
  refine (Follows.forIn (fun id _ => ?_) _).bind fun _ => Follows.get.bind fun live => ?_
  · dsimp only
    split
    · exact .bind (fun s => .single (allows.closes id _ s)) fun _ =>
        (allows.follows fun _ => rfl).bind fun _ => .pure _
    · exact .pure _
  · refine (Follows.forIn (fun id _ => ?_) _).bind fun _ => .pure _
    split
    · exact .bind (fun s => .single (allows.stops id s)) fun _ => .pure _
    · exact .pure _

theorem closeBroken (allows : AllowsTurns outside) : Follows outside closeBroken := by
  refine Follows.get.bind fun s => ?_
  dsimp only
  split
  · have closes (id : HandoffId) : Follows outside (closeChannel id) :=
      Follows.get.bind fun _ => .bind (fun s => .single (allows.closes id _ s)) fun _ s =>
        .single (allows.notesClosed id s)
    exact (Follows.forM closes).bind fun _ => allows.retire
  · exact .pure _

end AllowsTurns

theorem perform_eq (c : Command) :
    ∃ next, perform c = .step (prepare c).run next ∧ ∀ r, ∃ e, next r = carryOut e := by
  refine ⟨_, rfl, fun r => ?_⟩
  cases r with
  | ok e => exact ⟨e, rfl⟩
  | error name => exact ⟨.answered (.unknown name), rfl⟩

def Worker.waiting (x : Worker) : TaskId × Task Answer := (x.id, x.program)

theorem Worker.perm_waiting (x : Worker) (before after : List Worker) :
    ((before ++ x :: after).map waiting).Perm (x.waiting :: (before ++ after).map waiting) :=
  List.perm_middle.map waiting

def Reached (outside : Session → Session → Prop) (w₀ : Workforce) (callers : List (Task Answer))
    (rt : Runtime) : Prop :=
  ∃ workers, Workforce.Course outside w₀ ⟨rt.session, workers, callers⟩ ∧
    rt.suspended.Perm (workers.map Worker.waiting)

namespace Reached

variable {w₀ : Workforce} {callers : List (Task Answer)} {rt rt' : Runtime}

theorem start (s : Session) : Reached outside ⟨s, [], []⟩ [] ⟨s, []⟩ := ⟨[], .refl, .refl _⟩

theorem change (reached : Reached outside w₀ callers rt)
    (changes : ReflTransGen outside rt.session t) :
    Reached outside w₀ callers { rt with session := t } := by
  obtain ⟨workers, course, suspended⟩ := reached
  exact ⟨workers, course.changes changes, suspended⟩

theorem take {n : TaskId} {program : Task Answer}
    (distinct : ∀ w, Workforce.Course outside w₀ w → (w.crew.map Prod.fst).Nodup)
    (reached : Reached outside w₀ callers rt) (taken : rt.take? n = some (program, rt')) :
    ∃ x before after, x.waiting = (n, program) ∧
      Workforce.Course outside w₀ ⟨rt'.session, before ++ x :: after, callers⟩ ∧
      rt'.suspended.Perm ((before ++ after).map Worker.waiting) := by
  obtain ⟨workers, course, suspended⟩ := reached
  unfold Runtime.take? at taken
  split at taken
  · next m program' found =>
    obtain ⟨rfl, rfl⟩ := Prod.mk.inj (Option.some.inj taken)
    obtain rfl : m = n := by simpa using List.find?_some found
    have listed := List.mem_of_find?_eq_some found
    obtain ⟨x, mine, same⟩ := List.mem_map.1 (suspended.mem_iff.1 listed)
    obtain ⟨before, after, rfl⟩ := List.append_of_mem mine
    have numbers : (rt.suspended.map Prod.fst).Nodup := by
      have ids : ((before ++ x :: after).map Worker.waiting).map Prod.fst =
          ((before ++ x :: after).map Worker.entry).map Prod.fst := by
        rw [List.map_map, List.map_map]
        rfl
      rw [(suspended.map Prod.fst).nodup_iff, ids]
      exact (distinct _ course).sublist ((List.sublist_append_right _ _).map _)
    have others : ((m, program') :: rt.suspended.filter fun p => p.1 != m).Perm
        ((m, program') :: (before ++ after).map Worker.waiting) := by
      refine (perm_taken listed numbers).symm.trans (suspended.trans ?_)
      rw [← same]
      exact x.perm_waiting before after
    exact ⟨x, before, after, same, course, others.cons_inv⟩
  · obtain ⟨⟨job, session⟩, begun, same⟩ := Option.map_eq_some_iff.1 taken
    obtain ⟨rfl, rfl⟩ := Prod.mk.inj same
    refine ⟨⟨n, job, Job.task job⟩, workers, [], rfl, course.tail (.begin begun _ _), ?_⟩
    rwa [List.append_nil]

variable (allows : AllowsTurns outside)
  (distinct : ∀ w, Workforce.Course outside w₀ w → (w.crew.map Prod.fst).Nodup)

include allows in
theorem aside (reached : Reached outside w₀ callers rt) (same : t.setup = rt.session.setup) :
    Reached outside w₀ callers { rt with session := t } :=
  reached.change (.single (allows.aside same))

include allows in
theorem schedule (reached : Reached outside w₀ callers rt) (scheduler : Scheduler) :
    Reached outside w₀ callers { rt with session := { rt.session with scheduler } } :=
  reached.aside allows rfl

include allows distinct

theorem runTask (reached : Reached outside w₀ callers rt) (n : TaskId) :
    Reached outside w₀ callers (rt.runTask n) := by
  unfold Runtime.runTask
  cases taken : rt.take? n with
  | none => exact reached
  | some found =>
    obtain ⟨program, rt'⟩ := found
    obtain ⟨x, before, after, same, course, rest⟩ := reached.take distinct taken
    obtain ⟨rfl, rfl⟩ := Prod.mk.inj same
    dsimp only
    split
    · next aborted =>
      have gone := course.tail (.giveUp (by simpa using aborted) before after callers)
      exact ⟨before ++ after, .changes gone (allows.retire _), rest⟩
    · have polled := (course.change (allows.aside (t := { rt'.session with
        scheduler := rt'.session.scheduler.run x.id }) rfl)).poll before after Runtime.pollFuel
      split
      · next a s ended =>
        rw [ended] at polled
        have gone := polled.tail (.finish rfl s before after callers)
        exact ⟨before ++ after, .changes gone (allows.retire _), rest⟩
      · next program s waits =>
        rw [waits] at polled
        refine ⟨before ++ { x with program } :: after, .changes polled (allows.closeBroken _), ?_⟩
        refine ((rest.append_right _).trans (List.perm_append_singleton _ _)).trans ?_
        exact (Worker.perm_waiting { x with program } before after).symm

theorem runReady (turns : Nat) (reached : Reached outside w₀ callers rt) :
    Reached outside w₀ callers (rt.runReady turns) := by
  induction turns generalizing rt with
  | zero => exact reached
  | succ turns ih =>
    unfold Runtime.runReady
    split
    · exact reached
    · exact ih ((reached.schedule allows _).runTask allows distinct _)

omit distinct

theorem idle (reached : Reached outside w₀ callers rt) (idle : rt.idle? = some rt') :
    Reached outside w₀ callers rt' := by
  unfold Runtime.idle? at idle
  dsimp only at idle
  split at idle
  · cases idle
    exact reached.aside allows rfl
  · split at idle
    · cases idle
      exact reached
    · split at idle
      · cases idle
        exact reached.change (allows.completeWrites _)
      · obtain ⟨scheduler, _, rfl⟩ := Option.map_eq_some_iff.1 idle
        exact reached.schedule allows scheduler

theorem afterTurn (reached : Reached outside w₀ callers rt) (turned : rt.afterTurn? = some rt') :
    Reached outside w₀ callers rt' := by
  unfold Runtime.afterTurn? at turned
  dsimp only at turned
  split at turned
  · exact reached.idle allows turned
  · cases turned
    exact reached.schedule allows _

theorem resume {a : Task Answer} (reached : Reached outside w₀ (callers ++ [a]) rt) :
    Reached outside w₀ (callers ++ [(rt.resume a).1.rest]) (rt.resume a).2 := by
  obtain ⟨workers, course, suspended⟩ :=
    reached.schedule allows { rt.session.scheduler with foregroundReady := false }
  exact ⟨workers, course.pollCall callers [] Runtime.pollFuel, suspended⟩

include distinct

theorem drive (fuel : Nat) {a : Task Answer} (reached : Reached outside w₀ (callers ++ [a]) rt) :
    ∃ callers, Reached outside w₀ callers (rt.drive fuel a).2 := by
  induction fuel generalizing rt a with
  | zero => exact ⟨_, reached⟩
  | succ fuel ih =>
    have turn := reached.runReady allows distinct Scheduler.turnLength
    unfold Runtime.drive
    dsimp only
    split
    · exact ⟨_, turn⟩
    · next rt' turned =>
      have next := turn.afterTurn allows turned
      split
      · have resumed := (next.schedule allows (rt'.session.scheduler.run foreground)).resume allows
        split
        · next ended =>
          rw [ended] at resumed
          exact ⟨_, resumed⟩
        · next waits =>
          rw [waits] at resumed
          exact ih resumed
      · exact ih next

omit distinct in
theorem resume_perform {c : Command} (prepares : Follows outside (prepare c).run)
    (reached : Reached outside w₀ callers rt) :
    Reached outside w₀ (callers ++ [(rt.resume (perform c)).1.rest])
      (rt.resume (perform c)).2 := by
  have polled (s : Session) (same : s.setup = rt.session.setup) (fuel : Nat) :
      Reached outside w₀ (callers ++ [((perform c).poll (fuel + 1) s).1.rest])
        { rt with session := ((perform c).poll (fuel + 1) s).2 } := by
    obtain ⟨workers, course, suspended⟩ := reached
    obtain ⟨next, performs, carries⟩ := perform_eq c
    obtain ⟨e, carries⟩ := carries ((prepare c).run s).1
    have polls : (perform c).poll (fuel + 1) s = (carryOut e).poll fuel ((prepare c).run s).2 := by
      rw [performs, ← carries]
      rfl
    rw [polls]
    have prepared := (course.change (allows.aside same)).changes (prepares s)
    have called : Workforce.Course outside w₀ _ := prepared.tail (.come e _ workers callers)
    exact ⟨workers, called.pollCall callers [] fuel, suspended⟩
  exact polled { rt.session with scheduler := { rt.session.scheduler with
    foregroundReady := false } } rfl (Runtime.pollFuel - 1)

theorem step {c : Command} (prepares : Follows outside (prepare c).run)
    (reached : Reached outside w₀ callers rt) :
    ∃ callers, Reached outside w₀ callers (rt.step c).2 := by
  have begun : Reached outside w₀ callers
      { rt with session := { rt.session with observed := [] } } := reached.aside allows rfl
  have resumed := (begun.schedule allows { rt.session.scheduler with
    running := foreground }).resume_perform allows prepares
  have ran : ∃ callers, Reached outside w₀ callers
      (Runtime.run (perform c) { rt with session := { rt.session with observed := [] } }).2 := by
    unfold Runtime.run
    dsimp only
    split
    · next ended =>
      rw [ended] at resumed
      exact ⟨_, resumed⟩
    · next waits =>
      rw [waits] at resumed
      exact resumed.drive allows distinct _
  obtain ⟨callers, ran⟩ := ran
  refine ⟨callers, ran.change ?_⟩
  have leaves : Follows outside (letGo foreground) := allows.follows fun _ => rfl
  exact leaves.bind (fun _ => allows.retire) _

theorem after (prepares : ∀ c, Follows outside (prepare c).run) (cs : List Command)
    (reached : Reached outside w₀ callers rt) :
    ∃ callers, Reached outside w₀ callers (rt.after cs) := by
  induction cs generalizing rt callers with
  | nil => exact ⟨callers, reached⟩
  | cons c rest ih =>
    obtain ⟨callers, stepped⟩ := reached.step allows distinct (prepares c)
    exact ih stepped

end Reached

end Session

end EventTracking
