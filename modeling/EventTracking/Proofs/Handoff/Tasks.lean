import EventTracking.Proofs.Async.Passages
import EventTracking.Proofs.Async.Protocol
import EventTracking.Proofs.Session.Delivery

set_option autoImplicit false

namespace EventTracking.Session

open Async Change

variable {L : Type} {id : HandoffId} {s : Session}

theorem lookSettled_of_nothing {α : Type} {ticket : Nat} (m : Change α)
    (nothing : (s.handoff id).pending = 0) :
    lookSettled id ticket m s =
      (some (m (leaveSettled id ticket s).2).1, (m (leaveSettled id ticket s).2).2) := by
  unfold lookSettled
  rw [get_bind, if_pos nothing]
  rfl

theorem lookSettled_of_pending {α : Type} {ticket : Nat} (m : Change α)
    (pending : (s.handoff id).pending ≠ 0) : lookSettled id ticket m s = (none, s) := by
  unfold lookSettled
  rw [get_bind, if_neg pending]
  rfl

theorem forwardRound_composes {C : {α : Type} → Task α → Prop} (composes : Composes C)
    (receives : C (receive id)) (gathers : ∀ batch, C (gatherRound id batch))
    (calls : ∀ batch, C (now (callTransport id (.forwarded id batch))))
    (handles : ∀ t batch, C (handle t batch)) (comesBack : ∀ r, C (comeBack id r))
    (returns : ∀ batch, C (now (note (.returned id batch))))
    (settles : ∀ batch, C (settleBatch id batch)) : C (forwardRound id) := by
  apply composes.bind receives
  intro e
  cases e with
  | none => exact composes.pure _
  | some e =>
    apply composes.bind (composes.iterate gathers [e])
    intro batch
    apply composes.bind (calls batch)
    intro t
    apply composes.bind (handles t batch)
    intro r
    apply composes.bind (comesBack r)
    intro _
    apply composes.bind (returns batch)
    intro _
    exact composes.bind (settles batch) fun _ => composes.pure _

theorem not_passes_stall {steps : List (Session × Session)} : ¬ Passes stall steps (.done ()) := by
  intro go
  obtain same | ⟨_, _, _, seen⟩ := go.of_await
  · cases same
  · cases seen

theorem passes_comeBack {r : Except Error Unit} {steps : List (Session × Session)}
    (go : Passes (comeBack id r) steps (.done ())) : steps = [] := by
  unfold comeBack at go
  split at go
  · obtain ⟨_, _, _, _, _, stalls⟩ := go.of_bind_done
    exact absurd stalls not_passes_stall
  · exact (Passes.of_done go).1

-- A round calls the transport with the batch that it notes before and after the call, and counts
-- this batch.
theorem passes_forwardRound {steps : List (Session × Session)}
    (go : Passes (forwardRound id) steps (.done (.inl ()))) :
    ∃ batch r before s call u v after,
      Passes (handle (callTransport id (.forwarded id batch) s).1 batch) call (.done r) ∧
      steps = before ++ (s, (callTransport id (.forwarded id batch) s).2) :: (call ++
        (u, (note (.returned id batch) u).2) :: (v, (countBatch id batch v).2) :: after) := by
  obtain ⟨received, first, rest, rfl, _, goesOn⟩ := go.of_bind_done
  cases received with
  | none => cases (Passes.of_done goesOn).2
  | some e =>
    obtain ⟨batch, gathering, rest, rfl, _, goesOn⟩ := Passes.of_bind_done goesOn
    obtain ⟨t, calling, rest, rfl, calls, goesOn⟩ := Passes.of_bind_done goesOn
    obtain ⟨r, call, rest, rfl, called, goesOn⟩ := Passes.of_bind_done goesOn
    obtain ⟨_, back, rest, rfl, comes, goesOn⟩ := Passes.of_bind_done goesOn
    obtain ⟨_, noting, rest, rfl, notes, goesOn⟩ := Passes.of_bind_done goesOn
    obtain ⟨_, settling, last, rfl, settles, goesOn⟩ := Passes.of_bind_done goesOn
    obtain ⟨nothing, counting, after, rfl, counts, _⟩ := Passes.of_bind_done settles
    obtain rfl := passes_comeBack comes
    obtain ⟨_, same⟩ | ⟨s, rfl, same⟩ := calls.of_act
    · cases same
    cases same
    obtain ⟨_, same⟩ | ⟨u, rfl, _⟩ := notes.of_act
    · cases same
    obtain ⟨_, same⟩ | ⟨v, rfl, _⟩ := counts.of_act
    · cases same
    exact ⟨batch, r, first ++ gathering, s, call, u, v, after ++ last, called, by simp⟩
structure AllowsSettling (F : Frame Session) (id : HandoffId) (queues : QueueId → Prop) : Prop
    extends AllowsDelivery F queues where
  signals : ∀ {s : Session} (settled : Signal), F.always s →
    F.quiet s (setHandoff id { s.handoff id with settled } s).2

namespace AllowsSettling

variable {F : Frame Session} {queues : QueueId → Prop} {α : Type} {m : Change α}

theorem watches (allows : AllowsSettling F id queues) : Keeps F (now (watchSettled id)) :=
  Keeps.act fun _ hs => allows.signals _ hs

theorem parks (allows : AllowsSettling F id queues) (ticket : Nat) :
    Keeps F (parkSettled id ticket) :=
  Keeps.await (fun s _ => F.quiet_refl s) fun _ hs => allows.signals _ hs

theorem settled (allows : AllowsSettling F id queues)
    (quiet : ∀ s, F.always s → F.quiet s (m s).2) : Keeps F (settled id m) := by
  apply Confined.iterate
  intro _
  apply allows.watches.bind
  intro ticket
  refine Confined.bind (Keeps.act fun s hs => ?_) fun r => ?_
  · by_cases nothing : (s.handoff id).pending = 0
    · have leaves : F.quiet s (leaveSettled id ticket s).2 := allows.signals _ hs
      rw [lookSettled_of_nothing m nothing]
      exact F.quiet_trans leaves (quiet _ (F.always_quiet hs leaves))
    · rw [lookSettled_of_pending m nothing]
      exact F.quiet_refl s
  · cases r with
    | none => exact (allows.parks ticket).bind fun _ => Confined.pure _
    | some a => exact Confined.pure _

theorem settledWithin (allows : AllowsSettling F id queues) (timeout : Nat) :
    Keeps F (settledWithin id timeout) := by
  have settles : Keeps F (Session.settled id (pure ())) := allows.settled fun s _ => F.quiet_refl s
  refine (Confined.firstOf settles (allows.sleep _)).bind ?_
  rintro (_ | _) <;> exact Confined.pure _

variable {P : Protocol Session L} {asking : L}

theorem obeys_settled (allows : AllowsSettling P.toFrame id queues) (rests : P.rests asking)
    {Q : L → α → Prop}
    (sees : ∀ {s t}, P.always s → (s.handoff id).pending = 0 → P.quiet s t →
      ∃ l, P.moves asking s l (m t).2 ∧ Q l (m t).1) :
    Obeys P asking (Session.settled id m) Q := by
  refine Obeys.iterate (fun l _ => l = asking) (fun l _ h => ?_) rfl
  subst h
  refine Obeys.keeps_bind allows.watches rests fun ticket => ?_
  refine Obeys.bind (Obeys.act fun s hs => ?_)
  by_cases nothing : (s.handoff id).pending = 0
  · rw [lookSettled_of_nothing m nothing]
    exact sees hs nothing (allows.signals _ hs)
  · rw [lookSettled_of_pending m nothing]
    refine ⟨_, P.moves_quiet _ hs (P.quiet_refl s), ?_⟩
    exact Obeys.keeps_bind (allows.parks ticket) rests fun _ => rfl

theorem obeys_settledWithin (allows : AllowsSettling P.toFrame id queues) (rests : P.rests asking)
    {through : L}
    (sees : ∀ {s t}, P.always s → (s.handoff id).pending = 0 → P.quiet s t →
      P.moves asking s through t) (timeout : Nat) :
    Obeys P asking (Session.settledWithin id timeout) fun l inTime =>
      inTime = true → l = through := by
  have settles : Keeps P.toFrame (Session.settled id (pure ())) :=
    allows.settled fun s _ => P.quiet_refl s
  have sees' : Obeys P asking (Session.settled id (pure ())) fun l _ => l = through :=
    allows.obeys_settled rests fun hs nothing quiet => ⟨through, sees hs nothing quiet, rfl⟩
  refine Obeys.bind ⟨settles, allows.sleep _, .inr ⟨?_, fun l y => ?_⟩⟩
  · exact sees'.mono fun l _ h _ => h
  · exact fun inTime => absurd inTime Bool.false_ne_true

end AllowsSettling

structure AllowsReceiving (F : Frame Session) (id : HandoffId) (queues : QueueId → Prop) : Prop
    extends AllowsDelivery F queues where
  holds : ∀ {s : Session} {h : Handoff}, F.always s → h.transport = (s.handoff id).transport →
    h.pending = (s.handoff id).pending → h.settled = (s.handoff id).settled →
    F.quiet s (setHandoff id h s).2
  receives : ∀ {s : Session} (e : Event), F.always s → F.quiet s (note (.received id e) s).2

namespace AllowsReceiving

variable {F : Frame Session} {queues : QueueId → Prop}

theorem takes (allows : AllowsReceiving F id queues) {s : Session} (hs : F.always s) :
    F.quiet s (takeNext id s).2 := by
  cases found : (s.handoff id).channel with
  | nil =>
    rw [takeNext_of_nil found]
    exact F.quiet_refl s
  | cons e rest =>
    rw [takeNext_of_cons found]
    have set : F.quiet s (setHandoff id { s.handoff id with channel := rest } s).2 :=
      allows.holds hs rfl rfl rfl
    exact F.quiet_trans set (allows.receives e (F.always_quiet hs set))

theorem receive (allows : AllowsReceiving F id queues) : Keeps F (receive id) := by
  refine Keeps.await (allows.look fun s hs => ?_) fun s hs => allows.holds hs rfl rfl rfl
  have taken := allows.takes hs
  unfold lookForNext
  rcases found : takeNext id s with ⟨_ | e, t⟩ <;> rw [found] at taken
  · dsimp only
    split
    · exact taken
    · exact F.quiet_trans taken (allows.holds (F.always_quiet hs taken) rfl rfl rfl)
  · exact taken

theorem gatherRound (allows : AllowsReceiving F id queues) (batch : List Event) :
    Keeps F (gatherRound id batch) := by
  refine Confined.bind (Keeps.act fun _ => allows.takes) fun e => ?_
  cases e <;> exact Confined.pure _

theorem gather (allows : AllowsReceiving F id queues) (batch : List Event) :
    Keeps F (Async.iterate (Session.gatherRound id) batch) :=
  Confined.iterate (fun batch => allows.gatherRound batch) batch

theorem comeBack (allows : AllowsReceiving F id queues) (r : Except Error Unit) :
    Keeps F (comeBack id r) := by
  unfold Session.comeBack
  split
  · exact Confined.bind (Keeps.act fun s hs => allows.holds hs rfl rfl rfl) fun _ =>
      Keeps.await (fun s _ => F.quiet_refl s) fun s _ => F.quiet_refl s
  · exact Confined.pure _

theorem closeChannel (allows : AllowsReceiving F id queues)
    (closes : ∀ {s : Session}, F.always s → F.quiet s (note (.closed id) s).2) {s : Session}
    (hs : F.always s) : F.quiet s (closeChannel id s).2 :=
  have set : F.quiet s (setHandoff id (s.handoff id).closeChannel s).2 :=
    allows.holds hs rfl rfl rfl
  F.quiet_trans set (closes (F.always_quiet hs set))

end AllowsReceiving

structure AllowsForwarding (F : Frame Session) (id : HandoffId) (queues : QueueId → Prop) : Prop
    extends AllowsDelivery F queues where
  sets : ∀ {s : Session} {h : Handoff}, F.always s → h.transport = (s.handoff id).transport →
    F.quiet s (setHandoff id h s).2
  receives : ∀ {s : Session} (e : Event), F.always s → F.quiet s (note (.received id e) s).2
  counts : ∀ {s : Session} (batch : List Event), F.always s →
    F.quiet s (note (.counted id batch) s).2

namespace AllowsForwarding

variable {F : Frame Session} {queues : QueueId → Prop}

theorem settling (allows : AllowsForwarding F id queues) : AllowsSettling F id queues where
  toAllowsDelivery := allows.toAllowsDelivery
  signals _ hs := allows.sets hs rfl

theorem receiving (allows : AllowsForwarding F id queues) : AllowsReceiving F id queues where
  toAllowsDelivery := allows.toAllowsDelivery
  holds hs transport _ _ := allows.sets hs transport
  receives := allows.receives

theorem settleBatch (allows : AllowsForwarding F id queues) (batch : List Event) :
    Keeps F (settleBatch id batch) := by
  refine Confined.bind (Keeps.act fun s hs => ?_) fun nothing => ?_
  · have set : F.quiet s (setHandoff id ((s.handoff id).subtract batch.length).2 s).2 :=
      allows.sets hs rfl
    exact F.quiet_trans set (allows.counts batch (F.always_quiet hs set))
  · cases nothing with
    | false => exact Confined.pure _
    | true =>
      refine Keeps.act fun s hs => ?_
      have set : F.quiet s (setHandoff id (s.handoff id).announce.2 s).2 := allows.sets hs rfl
      exact F.quiet_trans set (allows.aside rfl)

theorem keeps_rounds (allows : AllowsForwarding F id queues)
    (calls : ∀ {s : Session} (batch : List Event), F.always s →
      F.quiet s (note (.forwarded id batch) s).2)
    (comesBack : ∀ {s : Session} (batch : List Event), F.always s →
      F.quiet s (note (.returned id batch) s).2)
    (transports : ∀ {s : Session}, F.always s → ∀ queue ∈ queuesOf (s.handoff id).transport,
      queues queue) :
    Keeps F (Async.iterate (fun () => forwardRound id) ()) := by
  apply Confined.iterate
  intro _
  apply allows.receiving.receive.bind
  intro e
  cases e with
  | none => exact Confined.pure _
  | some e =>
    apply (allows.receiving.gather [e]).bind
    intro batch s hs
    refine ⟨calls batch hs, (allows.handle _ batch (transports hs)).bind fun r => ?_⟩
    apply (allows.receiving.comeBack r).bind
    intro _
    apply Confined.bind (Keeps.act fun s hs => comesBack batch hs)
    intro _
    exact (allows.settleBatch batch).bind fun _ => Confined.pure _

theorem keeps_forwards (allows : AllowsForwarding F id queues)
    (calls : ∀ {s : Session} (batch : List Event), F.always s →
      F.quiet s (note (.forwarded id batch) s).2)
    (comesBack : ∀ {s : Session} (batch : List Event), F.always s →
      F.quiet s (note (.returned id batch) s).2)
    (closes : ∀ {s : Session}, F.always s → F.quiet s (note (.closed id) s).2)
    (transports : ∀ {s : Session}, F.always s → ∀ queue ∈ queuesOf (s.handoff id).transport,
      queues queue) :
    Keeps F (forwards id) :=
  Confined.ensuring (fun _ hs => allows.receiving.closeChannel closes hs)
    (allows.keeps_rounds calls comesBack transports)

end AllowsForwarding

structure Forwards (P : Protocol Session L) (idle : L) (called answered : List Event → L)
    (id : HandoffId) (queues : QueueId → Prop) : Prop
    extends AllowsForwarding P.toFrame id queues where
  rests : P.rests idle
  calls : ∀ {s : Session} (batch : List Event), P.always s →
    P.moves idle s (called batch) (note (.forwarded id batch) s).2
  handles : ∀ {s : Session} (batch : List Event), P.always s →
    Obeys P (called batch) (Session.handle (s.handoff id).transport batch) fun l _ =>
      l = answered batch
  -- The task may break down in the call.
  stays : ∀ batch, P.rests (answered batch)
  comesBack : ∀ {s : Session} (batch : List Event), P.always s →
    P.moves (answered batch) s idle (note (.returned id batch) s).2
  closes : ∀ {s : Session}, P.always s → P.quiet s (note (.closed id) s).2

namespace Forwards

variable {P : Protocol Session L} {idle : L} {called answered : List Event → L}
  {queues : QueueId → Prop}

theorem forwardRound (allows : Forwards P idle called answered id queues) :
    Obeys P idle (forwardRound id) fun l => Sum.elim (fun _ => l = idle) fun _ => l = idle := by
  refine Obeys.keeps_bind allows.receiving.receive allows.rests fun e => ?_
  cases e with
  | none => exact rfl
  | some e =>
    refine Obeys.keeps_bind (allows.receiving.gather [e]) allows.rests fun batch => ?_
    refine Obeys.bind (Obeys.act fun s hs => ⟨_, allows.calls batch hs, ?_⟩)
    -- The transport is the one that the hand-off had when the call was noted.
    refine Obeys.bind ((allows.handles batch hs).mono fun l r answered => ?_)
    subst answered
    refine Obeys.keeps_bind (allows.receiving.comeBack r) (allows.stays batch) fun _ => ?_
    refine Obeys.bind (Obeys.act fun s hs => ⟨_, allows.comesBack batch hs, ?_⟩)
    exact Obeys.keeps_bind (allows.settleBatch batch) allows.rests fun _ => rfl

theorem forwards (allows : Forwards P idle called answered id queues) :
    Obeys P idle (forwards id) fun l _ => l = idle := by
  have rounds : Obeys P idle (Async.iterate (fun () => Session.forwardRound id) ())
      fun l _ => l = idle :=
    Obeys.iterate (fun l _ => l = idle) (fun _ _ h => by subst h; exact allows.forwardRound) rfl
  refine Obeys.ensuring (rounds.mono fun l _ last s hs => ⟨l, ?_, last⟩)
  exact P.moves_quiet l hs (allows.receiving.closeChannel allows.closes hs)

end Forwards

theorem AllowsForwarding.forwards {P : Protocol Session L} {l : L} {queues : QueueId → Prop}
    (allows : AllowsForwarding P.toFrame id queues) (rests : P.rests l)
    (calls : ∀ {s : Session} (batch : List Event), P.always s →
      P.quiet s (note (.forwarded id batch) s).2)
    (comesBack : ∀ {s : Session} (batch : List Event), P.always s →
      P.quiet s (note (.returned id batch) s).2)
    (closes : ∀ {s : Session}, P.always s → P.quiet s (note (.closed id) s).2)
    (transports : ∀ {s : Session}, P.always s → ∀ queue ∈ queuesOf (s.handoff id).transport,
      queues queue) :
    Obeys P l (Session.forwards id) fun l' _ => l' = l :=
  have through : Forwards P l (fun _ => l) (fun _ => l) id queues :=
    { allows with
      rests
      calls := fun batch hs => P.moves_quiet l hs (calls batch hs)
      handles := fun batch hs =>
        Obeys.of_keeps (allows.handle _ batch (transports hs)) rests fun _ => rfl
      stays := fun _ => rests
      comesBack := fun batch hs => P.moves_quiet l hs (comesBack batch hs)
      closes }
  through.forwards

structure AllowsTracking (F : Frame Session) (id : HandoffId) (queues : QueueId → Prop) : Prop
    extends AllowsForwarding F id queues where
  begins : ∀ {s : Session}, F.always s → F.quiet s (spawn? (.forwards id) s).2
  stamps : ∀ {s : Session} (e : Event), F.always s → F.quiet s (note (.stamped e) s).2
  notesSent : ∀ {s : Session} (e : Event), F.always s → F.quiet s (note (.sent id e) s).2

namespace AllowsTracking

variable {F : Frame Session} {queues : QueueId → Prop}

theorem sends (allows : AllowsTracking F id queues) (e : Event) {s : Session} (hs : F.always s) :
    F.quiet s (send id e s).2 := by
  rcases send_cases e id s with same | ⟨u, h, begun, transport, sent⟩
  · rw [same]
    exact F.quiet_refl s
  · have jobs : F.quiet s u := by
      rcases begun with rfl | rfl
      · exact F.quiet_refl u
      · exact allows.begins hs
    have set := F.quiet_trans jobs (allows.sets (F.always_quiet hs jobs) transport)
    have noted := F.quiet_trans set (allows.notesSent e (F.always_quiet hs set))
    exact F.quiet_trans noted (allows.aside sent)

theorem tracks (allows : AllowsTracking F id queues) {t : SessionTracker}
    (mine : t.handoff = some id) (e : UntrackedEvent) (extra : List Contexts) {s : Session}
    (hs : F.always s) : F.quiet s (track t e extra s).2 := by
  have stamped : F.quiet s (finalize t e extra s).2 :=
    F.quiet_trans (allows.stamps (finalize t e extra s).1 hs)
      (allows.aside (stamps_finalize t e extra s))
  refine F.quiet_trans stamped ?_
  rcases handOver_cases (finalize t e extra s).1 t (finalize t e extra s).2 with
    same | ⟨id', found, sent⟩
  · exact allows.aside same
  · obtain rfl : id = id' := Option.some.inj (mine.symm.trans found)
    exact F.quiet_trans (allows.sends _ (F.always_quiet hs stamped)) (allows.aside sent)

end AllowsTracking

end EventTracking.Session
