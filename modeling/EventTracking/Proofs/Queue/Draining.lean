import EventTracking.Proofs.Async.Passages
import EventTracking.Proofs.Async.Protocol
import EventTracking.Proofs.Session.Delivery

set_option autoImplicit false

namespace EventTracking.Session

open Async Change

variable {L α : Type} {P : Protocol Session L} {queues : QueueId → Prop} {l : L}

namespace AllowsDelivery

theorem obeys_locked (allows : AllowsDelivery P.toFrame queues) (rests : P.rests l) (id : StoreId)
    {a : Task α} {Q : L → α → Prop} (h : Obeys P l a Q) : Obeys P l (Session.locked id a) Q := by
  have wakes (s : Session) (tasks : List TaskId) (lock : Lock) (hs : P.always s) :
      P.quiet s (wakeAll tasks (setLock id lock s).2).2 :=
    P.quiet_trans (allows.locks id lock hs) (allows.aside rfl)
  refine Obeys.keeps_bind (Keeps.act fun s hs => allows.locks id _ hs) rests fun ticket => ?_
  have held : Obeys P l (Async.ensuring (leaving (releaseLock id)) a) Q := by
    refine Obeys.ensuring (h.mono fun l x hx s hs => ?_)
    exact ⟨l, P.moves_quiet l hs (wakes s _ _ hs), hx⟩
  cases ticket with
  | none => exact held
  | some ticket =>
    exact Obeys.keeps_bind
      (Keeps.await (fun s _ => P.quiet_refl s) fun s hs => wakes s _ _ hs) rests fun _ => held

theorem obeys_onStore (allows : AllowsDelivery P.toFrame queues) (rests : P.rests l) (id : StoreId)
    (method : Store.Method) {run : Task (Except Error α)} {Q : L → Except Error α → Prop}
    (refuses : ∀ s e, P.always s → (s.store id).refusal? method = some e →
      ∃ l', P.moves l s l' s ∧ Q l' (.error e))
    (h : Obeys P l run Q) : Obeys P l (Session.onStore id method run) Q := by
  refine Obeys.bind (Obeys.act fun s hs => ?_)
  have refuses := fun e => refuses s e hs
  dsimp only
  generalize s.store id = x at refuses ⊢
  cases refused : x.refusal? method with
  | some e => exact refuses e refused
  | none =>
    refine ⟨l, P.moves_quiet l hs (P.quiet_refl s), ?_⟩
    refine Obeys.keeps_bind allows.proceed rests fun _ => ?_
    cases x.kind with
    | file => exact allows.obeys_locked rests id h
    | memory | flaky => exact h

theorem obeys_editStore (allows : AllowsDelivery P.toFrame queues) (rests : P.rests l)
    (id : StoreId) (e : Store.Edit) {Q : L → Except Error Unit → Prop}
    (refuses : ∀ s err, P.always s → (s.store id).refusal? e.method = some err →
      ∃ l', P.moves l s l' s ∧ Q l' (.error err))
    (edits : ∀ s, P.always s →
      ∃ l', P.moves l s l' (applyEdit id e s).2 ∧ P.rests l' ∧ ∀ r, Q l' r) :
    Obeys P l (Session.editStore id e) Q := by
  refine allows.obeys_onStore rests id e.method refuses (Obeys.bind (Obeys.act fun s hs => ?_))
  obtain ⟨l', moves, rests', any⟩ := edits s hs
  refine ⟨l', moves, ?_⟩
  cases (applyEdit id e s).1.file? with
  | none => exact any _
  | some file =>
    refine Obeys.keeps_bind (allows.writeFile file.1 file.2) rests' fun r => ?_
    cases r <;> exact any _

end AllowsDelivery

structure DrainRoles (L : Type) where
  away : L
  -- It has the flag.
  busy : L
  holding : List Event → L
  -- The transport has accepted the batch.
  removing : List Event → L
  -- It has seen that the store is empty.
  empty : L
  -- The same after the flag was given back.
  idle : L

namespace DrainRoles

def afterDrain (R : DrainRoles L) : Except Error Drain.Outcome → L
  | .ok .empty => R.idle
  | _ => R.away

def afterFlush (R : DrainRoles L) : Except Error Nat → L
  | .ok _ => R.idle
  | .error _ => R.away

def afterWait (R : DrainRoles L) : Bool → L
  | true => R.idle
  | false => R.away

theorem afterDrain_eq_away (R : DrainRoles L) (again : R.idle = R.away)
    (r : Except Error Drain.Outcome) : R.afterDrain r = R.away := by
  rcases r with e | outcome
  · rfl
  · cases outcome
    case empty => exact again
    all_goals rfl

theorem afterFlush_eq_away (R : DrainRoles L) (again : R.idle = R.away) (r : Except Error Nat) :
    R.afterFlush r = R.away := by
  cases r with
  | ok => exact again
  | error => rfl

theorem afterWait_eq_away (R : DrainRoles L) (again : R.idle = R.away) (b : Bool) :
    R.afterWait b = R.away := by
  cases b with
  | true => exact again
  | false => rfl

end DrainRoles

structure Drains (P : Protocol Session L) (R : DrainRoles L) (id : QueueId)
    (queues : QueueId → Prop) : Prop extends AllowsDelivery P.toFrame queues where
  rests_away : P.rests R.away
  rests_busy : P.rests R.busy
  rests_holding : ∀ batch, P.rests (R.holding batch)
  rests_removing : ∀ batch, P.rests (R.removing batch)
  transports : ∀ {s t}, P.always s → (s.queue id).transport = some t →
    ∀ inner ∈ queuesOf t, queues inner
  claims : ∀ {s q}, P.always s → (s.queue id).claim? = some q →
    P.moves R.away s R.busy (setQueue id q s).2
  -- The store and the size of a batch are looked up some time before.
  reads : ∀ {s₀ s batch}, P.always s₀ → P.always s → batch ≠ [] →
    batch = Store.window (s₀.queue id).batchSize 0 (s.store (s₀.queue id).store).events →
    P.moves R.busy s (R.holding batch) s
  readsNone : ∀ {s₀ s}, P.always s₀ → P.always s →
    Store.window (s₀.queue id).batchSize 0 (s.store (s₀.queue id).store).events = [] →
    P.moves R.busy s R.empty s
  accepts : ∀ {s batch}, P.always s → batch ≠ [] →
    P.moves (R.holding batch) s (R.removing batch) (note (.accepted id batch) s).2
  removes : ∀ {s₀ s batch}, P.always s₀ → P.always s →
    P.moves (R.removing batch) s R.busy
      (applyEdit (s₀.queue id).store (.remove (Drain.ids batch)) s).2
  refuses : ∀ {s₀ s batch e}, P.always s₀ → P.always s →
    (s.store (s₀.queue id).store).refusal? .delete = some e →
    P.moves (R.removing batch) s R.busy s
  ends_busy : ∀ {s}, P.always s → P.moves R.busy s R.away (unclaim id s).2
  ends_holding : ∀ {s batch}, P.always s → P.moves (R.holding batch) s R.away (unclaim id s).2
  ends_empty : ∀ {s}, P.always s → P.moves R.empty s R.idle (unclaim id s).2
  -- Outside of a drain one may see that the store is empty, too.
  idles : ∀ {s₀ s}, P.always s₀ → P.always s → (s.store (s₀.queue id).store).events = [] →
    P.moves R.away s R.idle s

theorem claim_of_none {id : QueueId} {s : Session} (h : (s.queue id).claim? = none) :
    claim id s = (none, s) := by
  unfold claim
  rw [get_bind, h]
  rfl

theorem claim_of_some {id : QueueId} {s : Session} {q : Queue} (h : (s.queue id).claim? = some q) :
    claim id s = (some (Drain.opening s.isUsable q), (setQueue id q s).2) := by
  unfold claim
  rw [get_bind, h]
  rfl

-- A drain notes a batch as accepted where the call with this batch has ended well, right after the
-- call, and nowhere else while it delivers.
theorem passes_delivering {id : QueueId} {t : Transport} {batch : List Event}
    {steps : List (Session × Session)} {x : Drain.Phase ⊕ Except Error Drain.Outcome} :
    Passes (drainPhase id (.delivering t batch)) steps (.done x) ↔
      ∃ r call, Passes (handle t batch) call (.done r) ∧ x = .inl (Drain.answered batch r) ∧
        (r = .ok () ∧ (∃ s, steps = call ++ [(s, (note (.accepted id batch) s).2)]) ∨
          (∃ e, r = .error e) ∧ steps = call) := by
  constructor
  · intro go
    obtain ⟨r, call, after, rfl, called, goesOn⟩ := go.of_bind_done
    cases r with
    | ok =>
      obtain ⟨_, noted, last, rfl, notes, goesOn⟩ := Passes.of_bind_done goesOn
      obtain ⟨rfl, same⟩ := Passes.of_done goesOn
      cases same
      obtain ⟨_, same⟩ | ⟨s, rfl, _⟩ := notes.of_act
      · cases same
      · exact ⟨.ok (), call, called, rfl, .inl ⟨rfl, s, rfl⟩⟩
    | error e =>
      obtain ⟨rfl, same⟩ := Passes.of_done goesOn
      cases same
      exact ⟨.error e, call, called, rfl, .inr ⟨⟨e, rfl⟩, List.append_nil _⟩⟩
  · rintro ⟨r, call, called, rfl, ⟨rfl, s, rfl⟩ | ⟨⟨e, rfl⟩, same⟩⟩
    · exact called.bind (.step .work .stay)
    · have ends : Passes (drainPhase id (.delivering t batch)) (call ++ [])
          (.done (.inl (Drain.answered batch (.error e)))) := called.bind .stay
      rwa [List.append_nil, ← same] at ends

namespace Drains

variable {R : DrainRoles L} {id : QueueId}

def During (P : Protocol Session L) (R : DrainRoles L) (id : QueueId) (queues : QueueId → Prop)
    (l : L) : Drain.Phase → Prop
  | .reading t => l = R.busy ∧ ∀ inner ∈ queuesOf t, queues inner
  | .delivering t batch => l = R.holding batch ∧ batch ≠ [] ∧ ∀ inner ∈ queuesOf t, queues inner
  | .deleting ids => ∃ batch, ids = Drain.ids batch ∧ l = R.removing batch
  | .ended r => ∀ s, P.always s → ∃ l', P.moves l s l' (unclaim id s).2 ∧ l' = R.afterDrain r

theorem ended_busy (D : Drains P R id queues) {r : Except Error Drain.Outcome}
    (other : R.afterDrain r = R.away) : During P R id queues R.busy (.ended r) :=
  fun _ hs => ⟨R.away, D.ends_busy hs, other.symm⟩

theorem opening (D : Drains P R id queues) {s : Session} (hs : P.always s) {q : Queue}
    (same : q.transport = (s.queue id).transport) :
    During P R id queues R.busy (Drain.opening s.isUsable q) := by
  unfold Drain.opening
  split
  · exact D.ended_busy rfl
  · next t found =>
    split
    · exact ⟨rfl, D.transports hs (same ▸ found)⟩
    · exact D.ended_busy rfl

theorem read (D : Drains P R id queues) {t : Transport}
    (mine : ∀ inner ∈ queuesOf t, queues inner) {s₀ s : Session} (h₀ : P.always s₀)
    (hs : P.always s) :
    ∃ l, P.moves R.busy s l s ∧ During P R id queues l (Drain.read t
      (.ok (Store.window (s₀.queue id).batchSize 0 (s.store (s₀.queue id).store).events))) := by
  cases found : Store.window (s₀.queue id).batchSize 0 (s.store (s₀.queue id).store).events with
  | nil => exact ⟨R.empty, D.readsNone h₀ hs found, fun s hs => ⟨R.idle, D.ends_empty hs, rfl⟩⟩
  | cons e rest => exact ⟨_, D.reads h₀ hs (by simp) found.symm, rfl, by simp, mine⟩

theorem phase (D : Drains P R id queues) (p : Drain.Phase) (during : During P R id queues l p) :
    Obeys P l (drainPhase id p) fun l =>
      Sum.elim (During P R id queues l) fun r => During P R id queues l (.ended r) := by
  -- The queue is looked at once more in each phase: between the look and what follows it, anything
  -- that the protocol allows may happen.
  cases p with
  | reading t =>
    obtain ⟨rfl, mine⟩ := during
    refine Obeys.bind (Obeys.act fun s₀ h₀ => ⟨_, P.moves_quiet _ h₀ (P.quiet_refl _), ?_⟩)
    refine Obeys.bind (D.obeys_onStore D.rests_busy _ _ (fun s e hs _ => ?_) ?_)
    · exact ⟨_, P.moves_quiet _ hs (P.quiet_refl _), D.ended_busy rfl⟩
    · exact Obeys.act fun s hs => D.read mine h₀ hs
  | delivering t batch =>
    obtain ⟨rfl, some_, mine⟩ := during
    refine Obeys.keeps_bind (D.handle t batch mine) (D.rests_holding batch) fun r => ?_
    cases r with
    | ok =>
      refine Obeys.bind (Obeys.act fun s hs => ⟨_, D.accepts hs some_, ?_⟩)
      exact ⟨batch, rfl, rfl⟩
    | error e => exact fun s hs => ⟨R.away, D.ends_holding hs, rfl⟩
  | deleting ids =>
    obtain ⟨batch, rfl, rfl⟩ := during
    refine Obeys.bind (Obeys.act fun s₀ h₀ => ⟨_, P.moves_quiet _ h₀ (P.quiet_refl _), ?_⟩)
    refine Obeys.bind (D.obeys_editStore (D.rests_removing batch) _ _ (fun s e hs refused => ?_)
      fun s hs => ?_)
    · exact ⟨_, D.refuses h₀ hs refused, D.ended_busy rfl⟩
    · refine ⟨_, D.removes h₀ hs, D.rests_busy, fun r => ?_⟩
      cases r <;> exact D.ended_busy rfl
  | ended r => exact during

theorem drain (D : Drains P R id queues) :
    Obeys P R.away (drain id) fun l r => l = R.afterDrain r := by
  refine Obeys.bind (Obeys.act fun s hs => ?_)
  cases taken : (s.queue id).claim? with
  | none =>
    rw [claim_of_none taken]
    exact ⟨R.away, P.moves_quiet _ hs (P.quiet_refl s), rfl⟩
  | some q =>
    rw [claim_of_some taken]
    refine ⟨R.busy, D.claims hs taken, ?_⟩
    have same : q.transport = (s.queue id).transport := by
      rw [(Queue.claim?_eq_some.1 taken).2]
    exact Obeys.ensuring (Obeys.iterate _ (fun l p during => D.phase p during) (D.opening hs same))

def Flushing (R : DrainRoles L) (l : L) : Flush.Next → Prop
  | .ended r => l = R.afterFlush r
  | _ => l = R.away

theorem flushing_next {l : L} {r : Except Error Drain.Outcome} (h : l = R.afterDrain r) (n : Nat) :
    Flushing R l (Flush.next n r) := by
  subst h
  rcases r with e | outcome
  · rfl
  · cases outcome <;> rfl

theorem flushRound (D : Drains P R id queues) {next : Flush.Next} {l : L}
    (flushing : Flushing R l next) :
    Obeys P l (flushRound id next) fun l =>
      Sum.elim (Flushing R l) fun r => l = R.afterFlush r := by
  cases next with
  | drain n =>
    obtain rfl := flushing
    exact Obeys.bind (D.drain.mono fun l r h => flushing_next h n)
  | pause n =>
    obtain rfl := flushing
    exact Obeys.keeps_bind (D.sleep _) D.rests_away fun _ => rfl
  | ended r => exact flushing

theorem flush (D : Drains P R id queues) :
    Obeys P R.away (flush id) fun l r => l = R.afterFlush r :=
  Obeys.iterate (Flushing R) (fun _ _ flushing => D.flushRound flushing) rfl

theorem drainRound (D : Drains P R id queues) (again : R.idle = R.away) (period due : Duration) :
    Obeys P R.away (drainRound id period due) fun l _ => l = R.away := by
  refine Obeys.keeps_bind (Keeps.get _) D.rests_away fun stopping => ?_
  cases stopping with
  | true => rfl
  | false =>
    refine Obeys.keeps_bind (D.sleepUntil _) D.rests_away fun _ => ?_
    refine Obeys.keeps_bind (Keeps.get _) D.rests_away fun next => ?_
    cases next with
    | none => rfl
    | some next =>
      refine Obeys.keeps_bind (Keeps.get _) D.rests_away fun stopping => ?_
      cases stopping with
      | true => rfl
      | false =>
        refine Obeys.bind (D.drain.mono fun l r h => ?_)
        exact h.trans (R.afterDrain_eq_away again r)

theorem drains (D : Drains P R id queues) (again : R.idle = R.away) :
    Obeys P R.away (drains id) fun l _ => l = R.away := by
  refine Obeys.keeps_bind (Keeps.get _) D.rests_away fun period => ?_
  split
  · rfl
  · refine Obeys.keeps_bind (Keeps.get _) D.rests_away fun start => ?_
    refine Obeys.iterate (fun l _ => l = R.away) (fun l due h => ?_) rfl
    subst h
    exact (D.drainRound again period due).mono fun l r h => by cases r <;> exact h

theorem isIdle (D : Drains P R id queues) :
    Obeys P R.away (isIdle id) fun l b => l = R.afterWait b := by
  refine Obeys.bind (Obeys.act fun s₀ h₀ => ⟨_, P.moves_quiet _ h₀ (P.quiet_refl _), ?_⟩)
  cases (s₀.queue id).processing with
  | true => rfl
  | false =>
    refine Obeys.bind (D.obeys_onStore D.rests_away _ _ (fun s e hs _ => ?_) ?_)
    · exact ⟨_, P.moves_quiet _ hs (P.quiet_refl _), rfl⟩
    · refine Obeys.act fun s hs => ?_
      cases found : (s.store (s₀.queue id).store).events with
      | nil =>
        refine ⟨R.idle, D.idles h₀ hs found, ?_⟩
        dsimp only
        rw [found]
        rfl
      | cons e rest =>
        refine ⟨R.away, P.moves_quiet _ hs (P.quiet_refl s), ?_⟩
        dsimp only
        rw [found]
        rfl

theorem idleRound (D : Drains P R id queues) (start timeout : Nat) :
    Obeys P R.away (idleRound id start timeout) fun l =>
      Sum.elim (fun _ => l = R.away) fun b => l = R.afterWait b := by
  refine Obeys.bind (D.isIdle.mono fun l holds h => ?_)
  subst h
  refine Obeys.bind (Obeys.act fun s hs => ⟨_, P.moves_quiet _ hs (P.quiet_refl s), ?_⟩)
  cases holds with
  | true => rfl
  | false =>
    unfold Waiting.judge
    split <;> rename_i verdict
    · simp only [Bool.false_eq_true, if_false] at verdict
      split at verdict <;> cases verdict
    · rfl
    · exact Obeys.keeps_bind (D.sleep _) D.rests_away fun _ => rfl

theorem waitUntilIdle (D : Drains P R id queues) (timeout : Nat) :
    Obeys P R.away (waitUntilIdle id timeout) fun l b => l = R.afterWait b := by
  refine Obeys.keeps_bind (Keeps.get _) D.rests_away fun start => ?_
  refine Obeys.iterate (fun l _ => l = R.away) (fun l _ h => ?_) rfl
  subst h
  exact D.idleRound start timeout

end Drains

structure AllowsDraining (F : Frame Session) (id : QueueId) (queues : QueueId → Prop) : Prop
    extends AllowsDelivery F queues where
  flags : ∀ {s : Session} (processing : Bool), F.always s →
    F.quiet s (setQueue id { s.queue id with processing } s).2
  accepts : ∀ {s : Session} (batch : List Event), F.always s →
    F.quiet s (note (.accepted id batch) s).2
  removes : ∀ {s : Session} (k : StoreId) (ids : List String), F.always s →
    F.quiet s (applyEdit k (.remove ids) s).2
  transports : ∀ {s : Session} {t : Transport}, F.always s → (s.queue id).transport = some t →
    ∀ inner ∈ queuesOf t, queues inner

namespace AllowsDraining

variable {id : QueueId} {l' : L}

theorem drains (allows : AllowsDraining P.toFrame id queues) (rests : P.rests l)
    (sees : ∀ {s₀ s : Session}, P.always s₀ → P.always s →
      (s.store (s₀.queue id).store).events = [] ∨
        Store.window (s₀.queue id).batchSize 0 (s.store (s₀.queue id).store).events = [] →
      P.moves l s l' s) :
    Drains P ⟨l, l, fun _ => l, fun _ => l, l', l'⟩ id queues where
  toAllowsDelivery := allows.toAllowsDelivery
  rests_away := rests
  rests_busy := rests
  rests_holding _ := rests
  rests_removing _ := rests
  transports := allows.transports
  claims hs taken := by
    obtain ⟨_, rfl⟩ := Queue.claim?_eq_some.1 taken
    exact P.moves_quiet l hs (allows.flags true hs)
  reads _ hs _ _ := P.moves_quiet l hs (P.quiet_refl _)
  readsNone h₀ hs none := sees h₀ hs (.inr none)
  accepts hs _ := P.moves_quiet l hs (allows.accepts _ hs)
  removes _ hs := P.moves_quiet l hs (allows.removes _ _ hs)
  refuses _ hs _ := P.moves_quiet l hs (P.quiet_refl _)
  ends_busy hs := P.moves_quiet l hs (allows.flags false hs)
  ends_holding hs := P.moves_quiet l hs (allows.flags false hs)
  ends_empty hs := P.moves_quiet l' hs (allows.flags false hs)
  idles h₀ hs none := sees h₀ hs (.inl none)

end AllowsDraining

end EventTracking.Session
