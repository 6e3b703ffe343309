import EventTracking.Proofs.Queue.Fleet

set_option autoImplicit false

namespace EventTracking

open Session Async Change
open Relation (ReflTransGen)

variable {F : Fleet} {R : Session → Session → Prop} {id : QueueId} {k : StoreId} {size : Nat}
  {t : Transport} {s u : Session} {α : Type}

def Session.Completes (R : Session → Session → Prop) (id : QueueId) (k : StoreId) (size : Nat)
    (t : Transport) : Prop :=
  ∀ batch steps b u, Passes (handle t batch) steps b → (∀ p ∈ steps, Ready id k size t p.1) →
    Ready id k size t u → ∃ rest r v, Trail R b u rest (.done r) v

theorem Session.Completes.returns (h : Completes R id k size t) (alone : Solitary id k R) :
    Returns R id k size t := by
  intro batch s steps b u ready trail
  have keeps : Keeps (elsewhereFrame id k size t) (handle t batch) :=
    elsewhereFrame_allows.handle t batch fun _ fed => fed
  have stays := trail.stays keeps alone.elsewhere ready
  exact h batch steps b u trail.passes stays.along stays.last

namespace Session

section Waits

variable {G : Frame Session} {queues : QueueId → Prop} (delivery : AllowsDelivery G queues)
  (outside : ∀ {s u}, R s u → G.quiet s u) (clock : ∀ s scheduler, R s { s with scheduler })

include outside clock

theorem finishes_wait {look : Session → Option α} {leave : Session → Session}
    (keeps : Keeps G (Async.await (whenAllowed fun s => (look s, s)) leave))
    (happens : ∀ s : Session, look { s with scheduler.timers := [], scheduler.left := 1 } ≠ none) :
    Finishable G.always R (Async.await (whenAllowed fun s => (look s, s)) leave) fun _ => True := by
  refine .await_of_keeps keeps outside fun s => ?_
  refine ⟨_, .single (clock s { s.scheduler with timers := [], left := 1 }), ?_⟩
  have seen := whenAllowed_replenished look { s with scheduler.timers := [] }
  rw [seen]
  exact happens s

include delivery

theorem finishes_proceed : Finishable G.always R proceed fun _ => True :=
  finishes_wait outside clock delivery.proceed fun _ => nofun

theorem finishes_sleepUntil (due : Nat) : Finishable G.always R (sleepUntil due) fun _ => True := by
  have breathes : Finishable G.always R breathe fun _ => True := by
    refine .await_of_keeps delivery.breathe outside fun s => ?_
    exact ⟨_, .single (clock s { s.scheduler with left := 1 }), by simp⟩
  refine Finishable.bind (breathes.mono fun _ _ => ?_)
  refine Finishable.bind (Finishable.act fun s hs => ⟨G.always_quiet hs (delivery.aside rfl), ?_⟩)
  dsimp only
  cases (s.scheduler.setTimer due).1 with
  | none => exact finishes_proceed delivery outside clock
  | some timer =>
    refine finishes_wait outside clock ?_ fun s => by simp [Scheduler.isSet]
    exact Keeps.await (delivery.look fun s _ => G.quiet_refl s) fun s _ => delivery.aside rfl

theorem finishes_sleep (d : Duration) : Finishable G.always R (sleep d) fun _ => True :=
  Finishable.bind (Finishable.get fun _ _ => finishes_sleepUntil delivery outside clock _)

end Waits

theorem completes_leaf (clock : ∀ s scheduler, R s { s with scheduler }) (i : LeafId) :
    Completes R id k size (.leaf i) := by
  have anything : AllowsDelivery (lax Session).toFrame fun _ => True :=
    ⟨fun _ => trivial, fun _ _ _ => trivial, fun _ _ => trivial, fun _ _ _ _ => trivial⟩
  intro batch steps b u passes _ _
  have finishes : Finishable (lax Session).always R (deliverToLeaf i batch) fun _ => True := by
    refine Finishable.bind (Finishable.get fun s _ => ?_)
    cases s.leaf i with
    | scripted x =>
      refine Finishable.bind (Finishable.act fun _ _ => ⟨trivial, ?_⟩)
      refine Finishable.bind ((finishes_sleep anything (fun _ => trivial) clock _).mono fun _ _ => ?_)
      exact Finishable.act fun _ _ => ⟨trivial, trivial⟩
    | debug | collector => exact Finishable.act fun _ _ => ⟨trivial, trivial⟩
  obtain ⟨rest, r, v, stays⟩ := finishes.ends passes (fun _ _ => trivial) trivial
  exact ⟨rest, r, v, stays.toTrail⟩

end Session

namespace Fleet

-- Whether the calls of all transports can be brought to their end.
def Responds (F : Fleet) (R : Session → Session → Prop) : Prop :=
  ∀ id ∈ F.queues, ∀ t, (F.start.queue id).transport = some t →
    Completes R id (F.store id) (F.start.queue id).batchSize t

theorem finishes_ended (r : Except Error Drain.Outcome) :
    Finishable F.Intact R (Async.iterate (drainPhase id) (.ended r)) fun _ => True :=
  Finishable.iterate (Finishable.pure (x := Sum.inr r) trivial)

theorem finishes_settled (sound : F.Sound) {h : HandoffId} (waited : h ∈ F.handoffs) :
    Finishable F.Intact R (settled h (pure ())) fun _ => True := by
  have signals (s : Session) (hs : F.Intact s) (x : Signal) :
      F.Intact (setHandoff h { s.handoff h with settled := x } s).2 :=
    ((F.settling sound h).signals x hs).intact hs
  have watches : Finishable F.Intact R (now (watchSettled h)) fun _ => True :=
    .act fun s hs => ⟨signals s hs _, trivial⟩
  refine Finishable.iterate (Finishable.bind (watches.mono fun ticket _ => ?_))
  have looks : Finishable F.Intact R (now (lookSettled h ticket (pure ()))) (· = some ()) := by
    refine .act fun s hs => ?_
    rw [lookSettled_of_nothing _ (hs.settled h waited)]
    exact ⟨signals s hs _, rfl⟩
  refine Finishable.bind (looks.mono fun r seen => ?_)
  subst seen
  exact .pure trivial

section Rounds

variable (sound : F.Sound) (alone : F.LeftAlone R)

include sound alone

theorem finishes_proceed : Finishable F.Intact R proceed fun _ => True :=
  Session.finishes_proceed (F.settling sound 0).toAllowsDelivery alone.beside alone.clock

theorem finishes_sleep (d : Duration) : Finishable F.Intact R (sleep d) fun _ => True :=
  Session.finishes_sleep (F.settling sound 0).toAllowsDelivery alone.beside alone.clock d

variable (mine : id ∈ F.queues)

include mine

theorem finishes_onStore {method : Store.Method} {run : Session.Task (Except Error α)}
    {Q : Except Error α → Prop} (inner : Finishable F.Intact R run Q) :
    Finishable F.Intact R (onStore (F.store id) method run) Q := by
  have kinds : Finishable F.Intact R (.get fun s => s.store (F.store id)) fun x =>
      x.kind = .memory := .get fun s hs => hs.inMemory sound mine
  refine Finishable.bind (kinds.mono fun x memory => ?_)
  have accepts : x.refusal? method = none := by simp [Store.refusal?, memory]
  simp only [accepts, memory]
  exact Finishable.bind ((finishes_proceed sound alone).mono fun _ _ => inner)

theorem finishes_remove (ids : List String) :
    Finishable F.Intact R (editStore (F.store id) (.remove ids)) fun _ => True := by
  refine finishes_onStore sound alone mine ?_
  have edits : Finishable F.Intact R (now (applyEdit (F.store id) (.remove ids))) fun x =>
      x.kind = .memory := .act fun s hs => ⟨hs.remove _ ids, hs.inMemory sound mine⟩
  refine Finishable.bind (edits.mono fun x memory => ?_)
  have unfiled : x.file? = none := by simp [Store.file?, memory]
  simp only [unfiled]
  exact .pure trivial

theorem finishes_deleting (ids : List String) :
    Finishable F.Intact R (Async.iterate (drainPhase id) (.deleting ids)) fun _ => True := by
  refine Finishable.iterate (Finishable.bind (Finishable.get fun s hs => ?_))
  rw [hs.store_eq id]
  exact Finishable.bind ((finishes_remove sound alone mine ids).mono fun _ _ => .pure trivial)

variable (responds : F.Responds R) (wired : (F.start.queue id).transport = some t)

include responds wired

theorem finishes_handle (batch : List Event) :
    Finishable F.Intact R (handle t batch) fun _ => True := by
  have keeps : Keeps F.frame (handle t batch) :=
    (F.settling sound 0).handle t batch fun inner fed => ⟨id, mine, t, wired, fed⟩
  refine .of_keeps keeps alone.beside fun passes along here => ?_
  exact responds id mine t wired batch _ _ _ passes
    (fun p hp => (along p hp).ready sound mine wired) (Intact.ready here sound mine wired)

theorem finishes_delivering (batch : List Event) :
    Finishable F.Intact R (Async.iterate (drainPhase id) (.delivering t batch)) fun _ => True := by
  have calls := finishes_handle sound alone mine responds wired batch
  refine Finishable.iterate (Finishable.bind (calls.mono fun r _ => ?_))
  cases r with
  | ok =>
    refine Finishable.bind (Finishable.act fun s hs => ⟨hs.note _, .pure ?_⟩)
    exact finishes_deleting sound alone mine _
  | error e => exact .pure (finishes_ended _)

theorem finishes_reading :
    Finishable F.Intact R (Async.iterate (drainPhase id) (.reading t)) fun _ => True := by
  refine Finishable.iterate (Finishable.bind (Finishable.get fun s hs => ?_))
  rw [hs.store_eq id]
  have reads : Finishable F.Intact R (readStore (F.store id) (s.queue id).batchSize 0) fun _ =>
      True := finishes_onStore sound alone mine (.get fun _ _ => trivial)
  refine Finishable.bind (reads.mono fun r _ => .pure ?_)
  rcases r with e | _ | ⟨e, batch⟩
  · exact finishes_ended _
  · exact finishes_ended _
  · exact finishes_delivering sound alone mine responds wired _

omit wired

theorem finishes_drain : Finishable F.Intact R (drain id) fun _ => True := by
  have claims : Finishable F.Intact R (now (claim id)) fun p => ∀ phase, p = some phase →
      (∃ t, phase = .reading t ∧ (F.start.queue id).transport = some t) ∨
        ∃ r, phase = .ended r := by
    refine .act fun s hs => ?_
    cases taken : (s.queue id).claim? with
    | none =>
      rw [claim_of_none taken]
      exact ⟨hs, nofun⟩
    | some q =>
      obtain ⟨_, rfl⟩ := Queue.claim?_eq_some.1 taken
      rw [claim_of_some taken]
      refine ⟨hs.setFlag id true, ?_⟩
      rintro _ ⟨⟩
      unfold Drain.opening
      split
      · exact .inr ⟨_, rfl⟩
      · next t wired =>
        split
        · exact .inl ⟨t, rfl, (hs.settings id).2.2.symm.trans wired⟩
        · exact .inr ⟨_, rfl⟩
  refine Finishable.bind (claims.mono fun p known => ?_)
  cases p with
  | none => exact .pure trivial
  | some phase =>
    refine Finishable.ensuring (fun s hs => hs.setFlag id false) ?_
    obtain ⟨t, rfl, wired⟩ | ⟨r, rfl⟩ := known phase rfl
    · exact finishes_reading sound alone mine responds wired
    · exact finishes_ended r

theorem finishes_round (next : Flush.Next) :
    Finishable F.Intact R (flushRound id next) fun _ => True := by
  cases next with
  | drain n =>
    exact Finishable.bind ((finishes_drain sound alone mine responds).mono fun _ _ => .pure trivial)
  | pause n => exact Finishable.bind ((finishes_sleep sound alone _).mono fun _ _ => .pure trivial)
  | ended r => exact .pure trivial

end Rounds

theorem drain_unwired (unwired : (u.queue id).transport = none)
    (free : (u.queue id).processing = false) :
    ∃ v, Async.Steps (drain id) u (.done (.error Queue.noTransport)) v := by
  have taken : (u.queue id).claim? = some { u.queue id with processing := true } :=
    Queue.claim?_eq_some.2 ⟨free, rfl⟩
  have opening : Drain.opening u.isUsable { u.queue id with processing := true } =
      .ended (.error Queue.noTransport) := by
    simp [Drain.opening, unwired]
  have claims := claim_of_some taken
  rw [opening] at claims
  have first : Async.Step (drain id) u _ _ := .work
  rw [claims] at first
  exact ⟨_, .head first (.head (.inside .final) (.head .release .refl))⟩

theorem flush_ended (r : Except Error Nat) (u : Session) :
    Async.Steps (Async.iterate (flushRound id) (.ended r)) u (.done r) u :=
  .head .final .refl

theorem flush_ends (sound : F.Sound) (alone : F.LeftAlone R) (responds : F.Responds R)
    (mine : id ∈ F.queues) (intact : F.Intact u) (free : (u.queue id).processing = false)
    (distinct : ((u.store (F.store id)).events.map Event.id).Nodup) (next : Flush.Next) :
    ∃ rest r v, Trail R (Async.iterate (flushRound id) next) u rest (.done r) v := by
  have drains {u : Session} (intact : F.Intact u) (free : (u.queue id).processing = false)
      (distinct : ((u.store (F.store id)).events.map Event.id).Nodup) (n : Nat) :
      ∃ rest r v, Trail R (Async.iterate (flushRound id) (.drain n)) u rest (.done r) v := by
    cases wired : (F.start.queue id).transport with
    | none =>
      have unwired := (intact.settings id).2.2.trans wired
      obtain ⟨v, drained⟩ := drain_unwired unwired free
      have round : Async.Steps (flushRound id (.drain n)) u
          (.done (.inl (.ended (.error Queue.noTransport)))) v := drained.bind .refl
      have around := round.within (f := (Async.loop (flushRound id) · .done)) .round
      obtain ⟨rest, trail⟩ := (around.trans (.head .again (flush_ended _ v))).trail (R := R)
      exact ⟨rest, _, v, trail⟩
    | some t =>
      have solitary := alone.solitary mine
      have filled : Filled id (F.store id) _ t false (u.store (F.store id)).events u :=
        ⟨intact.ready sound mine wired, free, rfl⟩
      have returns := (responds id mine t wired).returns solitary
      exact (settles_flushing solitary returns (sound.batchSize_pos id mine) n distinct
        filled).ends ⟨.stay, .last .refl⟩
  cases next with
  | drain n => exact drains intact free distinct n
  | pause n =>
    obtain ⟨slept, x, v, sleeps⟩ :=
      (finishes_sleep sound alone pollInterval).ends .stay (by simp) intact
    have keeps : Keeps F.frame (sleep pollInterval) := (F.settling sound 0).sleep _
    have beside : F.Beside u v := sleeps.toTrail.keeps keeps alone.beside intact
    have view := beside.views id mine
    have still : (v.queue id).processing = false :=
      (congrArg QueueView.processing view).trans free
    have same : (v.store (F.store id)).events = (u.store (F.store id)).events :=
      congrArg QueueView.events view
    obtain ⟨rest, r, w, goes⟩ := drains sleeps.last still (same ▸ distinct) n
    have round : Passes (flushRound id (.pause n)) (slept ++ []) (.done (.inl (.drain n))) :=
      sleeps.passes.bind .stay
    have around := round.within (f := (Async.loop (flushRound id) · .done)) .round
    refine ⟨slept ++ [] ++ (v, v) :: rest, r, w, around.trans (.step .again goes.passes), ?_⟩
    rw [List.append_nil]
    exact sleeps.linked.append (.step .refl goes.linked)
  | ended r =>
    have ended : Async.Steps (Async.iterate (flushRound id) (.ended r)) u (.done r) u :=
      flush_ended r u
    obtain ⟨rest, trail⟩ := ended.trail (R := R)
    exact ⟨rest, r, u, trail⟩

end Fleet

end EventTracking
