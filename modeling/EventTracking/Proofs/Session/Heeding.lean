import EventTracking.Proofs.Session.Stock
import EventTracking.Proofs.Transport.Cancelling

set_option autoImplicit false

namespace EventTracking.Session

open Async

variable {α β : Type} {id : CancellationId} {s t : Session}

theorem look_put (c : Cancellation) (k : CancellationId) :
    (place id).look ((place k).put c s) =
      if k = id ∧ k < s.cancellations.size then c else (place id).look s :=
  getD_set s.cancellations k id c default

theorem size_put (c : Cancellation) (k : CancellationId) :
    ((place k).put c s).cancellations.size = s.cancellations.size := by
  change (s.cancellations.set! k c).size = _
  simp

theorem in_place_iff : (place id).In s ↔ id < s.cancellations.size := by
  constructor
  · intro here
    apply Nat.lt_of_not_le
    intro outside
    have up := here { cancelled := true }
    have down := here {}
    rw [look_put, if_neg fun h => Nat.not_lt_of_le outside h.2] at up down
    rw [up] at down
    cases down
  · intro inside c
    simp [look_put, inside]

theorem lawful_place : (place id).Lawful := by
  intro c s here
  rw [in_place_iff] at here ⊢
  rwa [size_put]

theorem respects_of_look (size : t.cancellations.size = s.cancellations.size)
    (same : (place id).look t = (place id).look s) : (place id).Respects s t := by
  refine ⟨fun here => ?_, ?_, ?_, fun k _ => ?_⟩
  · rw [in_place_iff] at here ⊢
    rwa [size]
  · simp [CancellationPlace.isCancelled, same]
  · simp [CancellationPlace.nextTicket, same]
  · simp [CancellationPlace.isWatching, CancellationPlace.isCancelled, same]

theorem respects_of_eq (same : t.cancellations = s.cancellations) : (place id).Respects s t :=
  respects_of_look (by rw [same]) (congrArg (·.getD id default) same)

def Respectful (id : CancellationId) (c : Change α) : Prop := ∀ s, (place id).Respects s (c s).2

namespace Respectful

theorem of_eq {c : Change α} (same : ∀ s, (c s).2.cancellations = s.cancellations) :
    Respectful id c := fun s => respects_of_eq (same s)

theorem pure (a : α) : Respectful id (Pure.pure a) := fun s => .refl _ s

theorem get : Respectful id (MonadState.get : Change Session) := fun s => .refl _ s

theorem bind {c : Change α} {k : α → Change β} (first : Respectful id c)
    (rest : ∀ a, Respectful id (k a)) : Respectful id (c >>= k) := fun s =>
  (first s).trans (rest _ _)

theorem forM {l : List α} {f : α → Change PUnit} (h : ∀ a, Respectful id (f a)) :
    Respectful id (l.forM f) := by
  induction l with
  | nil => exact pure _
  | cons a l ih => exact bind (h a) fun _ => ih

end Respectful

theorem respectful_cancel (k : CancellationId) : Respectful id (cancel k) := by
  intro s
  have size : (cancel k s).2.cancellations.size = s.cancellations.size :=
    size_put ((s.cancellation k).cancel.2) k
  have after : (place id).look (cancel k s).2 =
      if k = id ∧ k < s.cancellations.size then (s.cancellation k).cancel.2
      else (place id).look s := look_put ((s.cancellation k).cancel.2) k
  by_cases mine : k = id ∧ k < s.cancellations.size
  · obtain ⟨rfl, inside⟩ := mine
    rw [if_pos ⟨rfl, inside⟩] at after
    refine ⟨fun here => ?_, fun _ => ?_, ?_, fun n _ watching => ?_⟩
    · rwa [in_place_iff, size]
    · rw [CancellationPlace.isCancelled, after]
      rfl
    · rw [CancellationPlace.nextTicket, CancellationPlace.nextTicket, after]
      exact Nat.le_refl _
    · rw [CancellationPlace.isWatching, after] at watching
      exact absurd watching (Bool.eq_false_iff.1 (Signal.isWaiting_notify _ n))
  · rw [if_neg mine] at after
    exact respects_of_look size after

theorem respectful_cancelAt (n : Nat) (cancelOn : Option (CancelOn CancellationId)) :
    Respectful id (cancelAt n cancelOn) := by
  cases cancelOn with
  | none => exact .pure ()
  | some c =>
    by_cases now : c.n = n
    · simpa [cancelAt, now] using respectful_cancel c.cancellation
    · simpa [cancelAt, now] using Respectful.pure ()

theorem respectful_beginCall (leaf : LeafId) (x : ScriptedLeaf) (batch : List Event) :
    Respectful id (beginCall leaf x batch) :=
  Respectful.bind (.of_eq fun _ => rfl) fun _ => Respectful.bind (.of_eq fun _ => rfl) fun _ =>
    (respectful_cancelAt _ _).bind fun _ => .pure _

theorem respectful_endCall (leaf : LeafId) : Respectful id (endCall leaf) := by
  refine Respectful.get.bind fun s => ?_
  cases s.leaf leaf with
  | scripted x =>
    dsimp only
    split
    · exact Respectful.bind (.of_eq fun _ => rfl) fun _ => .pure _
    · exact Respectful.bind (.of_eq fun _ => rfl) fun _ =>
        Respectful.bind (.of_eq fun _ => rfl) fun _ => .pure _
  | debug | collector => exact .pure _

theorem respectful_spawn (job : Job) : Respectful id (spawn? job) := by
  apply Respectful.of_eq
  intro s
  change (ite (s.hasRuntime = true) _ _ : Option TaskId × Session).2.cancellations = _
  split <;> rfl

theorem respectful_startLoop (queue : QueueId)
    (start : Queue → Option TaskId → Except Error Unit × Queue) :
    Respectful id (startLoop queue start) := by
  refine Respectful.get.bind fun s => ?_
  dsimp only
  generalize start (s.queue queue) _ = next
  refine Respectful.bind (.of_eq fun _ => rfl) fun _ => ?_
  split
  · exact (respectful_spawn _).bind fun _ => .pure _
  · exact .pure _

section Waits

def Blind (id : CancellationId) (look : Session → Option α × Session) : Prop :=
  ∀ c s, (look ((place id).put c s)).1.isNone = (look s).1.isNone

theorem heeded_await {look : Session → Option α × Session} {leave : Session → Session}
    (looks : ∀ s, (place id).Respects s (look s).2) (leaves : ∀ s, (place id).Respects s (leave s))
    (blind : Blind id look) : (place id).regard.Heeded (Async.await look leave) := by
  let some_ : Session := { cancellations := Array.replicate (id + 1) {} }
  have here : (place id).In some_ := in_place_iff.2 (by simp [some_])
  exact .await looks leaves here fun c => blind c some_

theorem blind_whenAllowed {look : Session → Option α × Session} (blind : Blind id look) :
    Blind id (whenAllowed look) := by
  intro c s
  have same := blind c s
  have runtime : ((place id).put c s).hasRuntime = s.hasRuntime := rfl
  have scheduler : ((place id).put c s).scheduler = s.scheduler := rfl
  unfold whenAllowed
  rw [runtime, scheduler]
  split
  · exact same
  · cases s.scheduler.spend? with
    | none => rfl
    | some scheduler =>
      generalize look ((place id).put c s) = r at same ⊢
      generalize look s = r' at same ⊢
      obtain ⟨_ | a, t⟩ := r
      all_goals
        obtain ⟨_ | b, u⟩ := r'
        all_goals simp_all

theorem respects_whenAllowed {look : Session → Option α × Session}
    (looks : ∀ s, (place id).Respects s (look s).2) (s : Session) :
    (place id).Respects s (whenAllowed look s).2 := by
  have respects := looks s
  unfold whenAllowed
  split
  · exact respects
  · cases s.scheduler.spend? with
    | none => exact respects_of_eq rfl
    | some scheduler =>
      generalize look s = r at respects ⊢
      obtain ⟨_ | a, t⟩ := r
      · exact respects
      · exact respects.trans (respects_of_eq rfl)

theorem heeded_now {c : Change α} (h : Respectful id c) : (place id).regard.Heeded (now c) := .act h

theorem heeded_when {happened : Session → Bool} {leave : Session → Session}
    (leaves : ∀ s, (place id).Respects s (leave s))
    (blind : ∀ c s, happened ((place id).put c s) = happened s) :
    (place id).regard.Heeded (Async.await (when happened) leave) := by
  apply heeded_await (fun s => .refl _ s) leaves
  intro c s
  simp [when, blind c s]

theorem heeded_whenAllowed {look : Session → Option α × Session} {leave : Session → Session}
    (looks : ∀ s, (place id).Respects s (look s).2) (leaves : ∀ s, (place id).Respects s (leave s))
    (blind : Blind id look) : (place id).regard.Heeded (Async.await (whenAllowed look) leave) :=
  heeded_await (respects_whenAllowed looks) leaves (blind_whenAllowed blind)

end Waits

section Parts

theorem heeded_proceed : (place id).regard.Heeded proceed :=
  heeded_whenAllowed (fun s => .refl _ s) (fun s => .refl _ s) fun _ _ => rfl

theorem heeded_breathe : (place id).regard.Heeded breathe := by
  apply heeded_await _ (fun s => .refl _ s)
  · intro c s
    have runtime : ((place id).put c s).hasRuntime = s.hasRuntime := rfl
    have scheduler : ((place id).put c s).scheduler = s.scheduler := rfl
    dsimp only
    rw [runtime, scheduler]
    split <;> rfl
  · intro s
    split
    · exact respects_of_eq rfl
    · exact .refl _ s

theorem heeded_sleepUntil (due : Nat) : (place id).regard.Heeded (sleepUntil due) := by
  refine .bind heeded_breathe fun _ => .bind (.act fun s => respects_of_eq rfl) fun timer => ?_
  cases timer with
  | none => exact heeded_proceed
  | some timer =>
    refine heeded_whenAllowed (fun s => .refl _ s) (fun s => respects_of_eq rfl) fun _ _ => ?_
    rfl

theorem heeded_sleep (d : Duration) : (place id).regard.Heeded (sleep d) :=
  .bind (.act fun s => .refl _ s) heeded_sleepUntil

theorem heeded_pause (pauser : PauserId) (d : Duration) :
    (place id).regard.Heeded (pause pauser d) := by
  refine .bind heeded_breathe fun _ => .bind (.act fun s => .refl _ s) fun pauser => ?_
  cases pauser with
  | clock => exact heeded_sleep d
  | stalled => exact heeded_when (fun s => .refl _ s) fun _ _ => rfl
  | recording transport pauses cancelOn =>
    exact heeded_now <| Respectful.bind (.of_eq fun _ => rfl) fun _ =>
      Respectful.bind (.of_eq fun _ => rfl) fun _ => respectful_cancelAt _ _

theorem heeded_deliverToLeaf (leaf : LeafId) (batch : List Event) :
    (place id).regard.Heeded (deliverToLeaf leaf batch) := by
  refine .bind (.act fun s => .refl _ s) fun x => ?_
  cases x with
  | scripted x =>
    exact .bind (heeded_now (respectful_beginCall leaf x batch)) fun d =>
      .bind (heeded_sleep d) fun _ => heeded_now (respectful_endCall leaf)
  | debug console =>
    exact heeded_now <| (Respectful.forM fun e => Respectful.forM fun r => .of_eq fun _ => rfl).bind
      fun _ => .pure _
  | collector c => exact .act fun s => .refl _ s

theorem heeded_writeFile (file text : String) :
    (place id).regard.Heeded (writeFile file text) :=
  .bind (heeded_now (.of_eq fun _ => rfl)) fun _ =>
    heeded_whenAllowed (fun s => .refl _ s) (fun s => .refl _ s) fun _ _ => rfl

theorem heeded_locked (store : StoreId) {a : Task α} (h : (place id).regard.Heeded a) :
    (place id).regard.Heeded (locked store a) := by
  refine .bind (heeded_now (.of_eq fun _ => rfl)) fun ticket => ?_
  have releases (s : Session) : (place id).Respects s (leaving (releaseLock store) s) :=
    respects_of_eq rfl
  have held := h.ensuring releases
  cases ticket with
  | none => exact held
  | some ticket =>
    exact .bind (heeded_when (fun s => respects_of_eq rfl) fun _ _ => rfl) fun _ => held

theorem heeded_onStore (store : StoreId) (method : Store.Method) {run : Task (Except Error α)}
    (h : (place id).regard.Heeded run) : (place id).regard.Heeded (onStore store method run) := by
  refine .bind (.act fun s => .refl _ s) fun x => ?_
  cases x.refusal? method with
  | some e => exact .pure _
  | none =>
    refine .bind heeded_proceed fun _ => ?_
    cases x.kind with
    | file => exact heeded_locked store h
    | memory | flaky => exact h

theorem heeded_editStore (store : StoreId) (e : Store.Edit) :
    (place id).regard.Heeded (editStore store e) := by
  apply heeded_onStore
  refine .bind (heeded_now (.of_eq fun _ => rfl)) fun x => ?_
  cases x.file? with
  | none => exact .pure _
  | some file =>
    refine .bind (heeded_writeFile file.1 file.2) fun r => ?_
    cases r <;> exact .pure _

theorem heeded_enqueue (queue : QueueId) (batch : List Event) :
    (place id).regard.Heeded (enqueue queue batch) := by
  have pushes : (place id).regard.Heeded (push queue batch) :=
    .bind (.act fun s => .refl _ s) fun store => heeded_editStore store _
  refine .bind pushes fun r => ?_
  cases r with
  | ok => exact heeded_now (respectful_startLoop queue _)
  | error => exact .pure _

theorem heeded_cancelled_ne {k : CancellationId} (other : k ≠ id) :
    (place id).regard.Heeded (cancelled k) := by
  have puts (c : Cancellation) (s : Session) : (place id).Respects s ((place k).put c s) :=
    respects_of_look (size_put c k) (by simp [look_put, other])
  have blind (c : Cancellation) (s : Session) :
      (place k).look ((place id).put c s) = (place k).look s := by simp [look_put, other.symm]
  refine .bind (.act fun s => puts _ s) fun ticket => .ensuring (fun s => puts _ s) ?_
  refine .bind (.act fun s => .refl _ s) fun stop => ?_
  cases stop with
  | true => exact .pure ()
  | false =>
    apply heeded_await (fun s => .refl _ s) fun s => .refl _ s
    intro c s
    simp [CancellationPlace.notified, blind]

end Parts

theorem heeds (id : CancellationId) : surroundings.Heeds (place id) id where
  lawful := lawful_place
  isCancelled _ := rfl
  cancelled := rfl
  others _ other := heeded_cancelled_ne other
  deliver := heeded_deliverToLeaf
  enqueue := heeded_enqueue
  pause := heeded_pause
  warn _ _ _ := respects_of_eq rfl
  elapsed s := .refl _ s
  attempts _ s := .refl _ s
  refuses _ s := .refl _ s

end EventTracking.Session
