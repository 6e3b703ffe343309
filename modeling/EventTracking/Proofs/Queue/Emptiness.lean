import EventTracking.Proofs.Async.Settling
import EventTracking.Proofs.Family.Wiring
import EventTracking.Proofs.Queue.View

set_option autoImplicit false

namespace EventTracking.Session

open Async Change

variable {id : QueueId} {k : StoreId} {α : Type} {steps : List (Session × Session)}

theorem passes_locked {a : Task α} {x : α} (go : Passes (Session.locked k a) steps (.done x)) :
    ∃ inner, Passes a inner (.done x) ∧ inner ⊆ steps := by
  have held {steps : List (Session × Session)}
      (go : Passes (Async.ensuring (leaving (releaseLock k)) a) steps (.done x)) :
      ∃ inner, Passes a inner (.done x) ∧ inner ⊆ steps := by
    obtain ⟨inner, s, passes, rfl⟩ := go.of_guarded
    exact ⟨inner, passes, List.subset_append_left _ _⟩
  obtain ⟨ticket, before, after, rfl, _, goesOn⟩ := go.of_bind_done
  cases ticket with
  | none =>
    obtain ⟨inner, passes, sub⟩ := held goesOn
    exact ⟨inner, passes, List.Subset.trans sub (List.subset_append_right _ _)⟩
  | some ticket =>
    obtain ⟨_, waits, last, rfl, _, goesOn⟩ := goesOn.of_bind_done
    obtain ⟨inner, passes, sub⟩ := held goesOn
    exact ⟨inner, passes, fun p hp => by simp [sub hp]⟩

theorem passes_onStore {method : Store.Method} {run : Task (Except Error α)} {x : α}
    (go : Passes (onStore k method run) steps (.done (.ok x))) :
    ∃ inner, Passes run inner (.done (.ok x)) ∧ inner ⊆ steps := by
  obtain ⟨y, before, after, rfl, _, goesOn⟩ := go.of_bind_done
  cases refused : y.refusal? method with
  | some e =>
    rw [refused] at goesOn
    cases (Passes.of_done goesOn).2
  | none =>
    rw [refused] at goesOn
    obtain ⟨_, waits, rest, rfl, _, goesOn⟩ := Passes.of_bind_done goesOn
    cases kind : y.kind with
    | file =>
      rw [kind] at goesOn
      obtain ⟨inner, passes, sub⟩ := passes_locked goesOn
      exact ⟨inner, passes, fun p hp => by simp [sub hp]⟩
    | memory | flaky =>
      rw [kind] at goesOn
      exact ⟨rest, goesOn, fun p hp => by simp [hp]⟩

theorem passes_readStore {count position : Nat} {l : List Event}
    (go : Passes (readStore k count position) steps (.done (.ok l))) :
    ∃ v, (v, v) ∈ steps ∧ l = Store.window count position (v.store k).events := by
  obtain ⟨inner, passes, sub⟩ := passes_onStore go
  obtain ⟨_, same⟩ | ⟨v, rfl, same⟩ := passes.of_act
  · cases same
  · cases same
    exact ⟨v, sub (by simp), rfl⟩

-- A batch was read and was empty: nothing was in the store, or nothing was asked for. What was
-- done later is `after`.
inductive ReadNothing (id : QueueId) (after : List (Session × Session)) :
    List (Session × Session) → Prop where
  | intro {before reading : List (Session × Session)} (s v : Session) (asked : (s, s) ∈ before)
      (reads : Passes (readStore (s.queue id).store (s.queue id).batchSize 0) reading
        (.done (.ok [])))
      (found : (v, v) ∈ reading)
      (none : (v.store (s.queue id).store).events = [] ∨ (s.queue id).batchSize = 0) :
      ReadNothing id after (before ++ (reading ++ after))

namespace ReadNothing

variable {after : List (Session × Session)}

theorem prepend (h : ReadNothing id after steps) (first : List (Session × Session)) :
    ReadNothing id after (first ++ steps) := by
  obtain ⟨s, v, asked, reads, found, none⟩ := h
  rw [← List.append_assoc]
  exact .intro s v (List.mem_append_right _ asked) reads found none

theorem append (h : ReadNothing id after steps) (last : List (Session × Session)) :
    ReadNothing id (after ++ last) (steps ++ last) := by
  obtain ⟨s, v, asked, reads, found, none⟩ := h
  rw [List.append_assoc, List.append_assoc]
  exact .intro s v asked reads found none

end ReadNothing

theorem not_empty_of_deleting {ids : List String} :
    ¬ Passes (Async.iterate (drainPhase id) (.deleting ids)) steps (.done (.ok .empty)) := by
  intro go
  obtain ⟨y, before, s, after, rfl, passes, goesOn⟩ := go.of_iterate_done
  obtain ⟨q, _, rest, rfl, _, passes⟩ := passes.of_bind_done
  obtain ⟨r, _, last, rfl, _, passes⟩ := passes.of_bind_done
  obtain ⟨rfl, same⟩ := Passes.of_done passes
  cases same
  obtain ⟨rfl, same⟩ := goesOn
  cases r <;> cases same

theorem not_empty_of_delivering {t : Transport} {batch : List Event} :
    ¬ Passes (Async.iterate (drainPhase id) (.delivering t batch)) steps (.done (.ok .empty)) := by
  intro go
  obtain ⟨y, before, s, after, rfl, passes, goesOn⟩ := go.of_iterate_done
  obtain ⟨r, _, _, rfl, _⟩ := passes_delivering.1 passes
  cases r with
  | ok => exact not_empty_of_deleting goesOn
  | error e => cases (goesOn.of_iterate_final rfl).1

theorem readNothing_of_reading {t : Transport}
    (go : Passes (Async.iterate (drainPhase id) (.reading t)) steps (.done (.ok .empty))) :
    ∃ a b, ReadNothing id [(a, a), (b, b)] steps := by
  obtain ⟨y, before, a, after, rfl, passes, goesOn⟩ := go.of_iterate_done
  obtain ⟨q, looks, rest, rfl, look, passes⟩ := passes.of_bind_done
  obtain ⟨_, same⟩ | ⟨s, rfl, same⟩ := look.of_act
  · cases same
  cases same
  obtain ⟨r, reading, last, rfl, reads, passes⟩ := Passes.of_bind_done passes
  obtain ⟨rfl, same⟩ := Passes.of_done passes
  cases same
  rcases r with e | _ | ⟨e, batch⟩
  · cases (goesOn.of_iterate_final rfl).1
  · obtain ⟨_, b, rfl⟩ := goesOn.of_iterate_final rfl
    obtain ⟨v, found, none⟩ := passes_readStore reads
    have none : (v.store (s.queue id).store).events = [] ∨ (s.queue id).batchSize = 0 := by
      simpa [Store.window, or_comm] using none.symm
    have asked : (s, s) ∈ [(s, s)] := by simp
    exact ⟨a, b, by simpa using ReadNothing.intro s v asked reads found none⟩
  · exact absurd goesOn not_empty_of_delivering

theorem passes_claim {phase : Drain.Phase}
    (go : Passes (now (claim id)) steps (.done (some phase))) :
    (∃ t, phase = .reading t) ∨ phase = .ended (.error Queue.noTransport) ∨
      phase = .ended (.ok .transportUnusable) := by
  obtain ⟨_, same⟩ | ⟨s, rfl, same⟩ := go.of_act
  · cases same
  cases free : (s.queue id).claim? with
  | none =>
    rw [claim_of_none free] at same
    cases same
  | some q =>
    rw [claim_of_some free] at same
    cases same
    unfold Drain.opening
    split
    · exact .inr (.inl rfl)
    · next t _ =>
      split
      · exact .inl ⟨t, rfl⟩
      · exact .inr (.inr rfl)

theorem readNothing_of_drain (go : Passes (drain id) steps (.done (.ok .empty))) :
    ∃ a b c, ReadNothing id [(a, a), (b, b), (c, (unclaim id c).2)] steps := by
  obtain ⟨claimed, before, after, rfl, claims, goesOn⟩ := go.of_bind_done
  cases claimed with
  | none => cases (Passes.of_done goesOn).2
  | some phase =>
    obtain ⟨inner, c, passes, rfl⟩ := Passes.of_guarded goesOn
    obtain ⟨t, rfl⟩ | rfl | rfl := passes_claim claims
    · obtain ⟨a, b, nothing⟩ := readNothing_of_reading passes
      exact ⟨a, b, c, (nothing.append [(c, (unclaim id c).2)]).prepend before⟩
    · cases (passes.of_iterate_final rfl).1
    · cases (passes.of_iterate_final rfl).1

theorem readNothing_of_flushing {next : Flush.Next} {n : Nat} (other : ∀ r, next ≠ .ended r)
    (go : Passes (Async.iterate (flushRound id) next) steps (.done (.ok n))) :
    ∃ a b c d e, ReadNothing id [(a, a), (b, b), (c, (unclaim id c).2), (d, d), (e, e)] steps := by
  -- The later rounds have fewer steps than all of them.
  induction size : steps.length using Nat.strongRecOn generalizing next steps with
  | ind m ih =>
    obtain ⟨r, before, s, after, rfl, passes, goesOn⟩ := go.of_iterate_done
    have shorter : after.length < m := by
      rw [← size]
      simp
      omega
    have later (next : Flush.Next) (other : ∀ r, next ≠ .ended r)
        (go : Passes (Async.iterate (flushRound id) next) after (.done (.ok n))) :
        ∃ a b c d e, ReadNothing id [(a, a), (b, b), (c, (unclaim id c).2), (d, d), (e, e)]
          (before ++ (s, s) :: after) := by
      obtain ⟨a, b, c, d, e, nothing⟩ := ih _ shorter other go rfl
      exact ⟨a, b, c, d, e, by simpa using nothing.prepend (before ++ [(s, s)])⟩
    cases next with
    | ended r => exact absurd rfl (other r)
    | pause d =>
      obtain ⟨_, _, _, rfl, _, passes⟩ := passes.of_bind_done
      cases (Passes.of_done passes).2
      exact later (.drain d) nofun goesOn
    | drain d =>
      obtain ⟨r, drains, last, rfl, drain, passes⟩ := passes.of_bind_done
      obtain ⟨rfl, same⟩ := Passes.of_done passes
      cases same
      obtain e | outcome := r
      · cases (goesOn.of_iterate_final rfl).1
      cases outcome with
      | delivered c => exact later (.drain (d + c)) nofun goesOn
      | skipped => exact later (.pause d) nofun goesOn
      | empty =>
        obtain ⟨_, e, rfl⟩ := goesOn.of_iterate_final rfl
        obtain ⟨a, b, c, nothing⟩ := readNothing_of_drain drain
        exact ⟨a, b, c, s, e, by simpa using nothing.append [(s, s), (e, e)]⟩
      | transportUnusable => cases (goesOn.of_iterate_final rfl).1
      | rejected => cases (goesOn.of_iterate_final rfl).1

structure Untouched (id : QueueId) (s t : Session) : Prop where
  batchSize : (t.queue id).batchSize = (s.queue id).batchSize
  events : ∀ k, (t.store k).events = (s.store k).events

namespace Untouched

variable {s t u : Session}

theorem refl (s : Session) : Untouched id s s := ⟨rfl, fun _ => rfl⟩

theorem trans (first : Untouched id s t) (second : Untouched id t u) : Untouched id s u :=
  ⟨second.batchSize.trans first.batchSize, fun k => (second.events k).trans (first.events k)⟩

theorem of_view (same : ∀ k, queueView id k t = queueView id k s) (wires : SameWires s t) :
    Untouched id s t where
  batchSize := congrArg (fun x : StoreId × Nat × Option Transport => x.2.1) (wires.queues id)
  events k := congrArg QueueView.events (same k)

theorem setFlag (processing : Bool) (s : Session) :
    Untouched id s (setQueue id { s.queue id with processing } s).2 := by
  have wires : SameWires s (setQueue id { s.queue id with processing } s).2 := .setQueue rfl
  refine ⟨?_, fun _ => rfl⟩
  exact congrArg (fun x : StoreId × Nat × Option Transport => x.2.1) (wires.queues id)

end Untouched

def idling (id : QueueId) : Protocol Session Unit where
  always s := (s.queue id).batchSize = 0
  quiet := Untouched id
  quiet_refl := .refl
  quiet_trans := .trans
  always_quiet none same := same.batchSize.trans none
  moves _ s _ t := Untouched id s t
  rests _ := True
  moves_quiet _ _ _ _ same := same

theorem idling_allows : AllowsDelivery (idling id).toFrame fun _ => False where
  aside same := .of_view (fun _ => queueView_of_stock (stock_of_setup same))
    (.of_stock (stock_of_setup same))
  locks k lock _ := .of_view (fun k' => queueView_setLock id k' k lock _) (.setStore rfl)
  starts id' _ := .of_view (fun k => queueView_ensureRunning id k id' _) (.ensureRunning id' _)
  appends _ _ none := none.elim

def Idle : Drain.Phase → Prop
  | .reading _ => True
  | .delivering _ _ | .deleting _ => False
  | .ended r => ∀ n, r ≠ .ok (.delivered n)

theorem idle_opening (usable : Transport → Bool) (q : Queue) : Idle (Drain.opening usable q) := by
  unfold Drain.opening
  split
  · exact nofun
  · split
    · trivial
    · exact nofun

theorem obeys_idle {phase : Drain.Phase} (idle : Idle phase) :
    Obeys (idling id) () (drainPhase id phase) fun _ =>
      Sum.elim Idle fun r => ∀ n, r ≠ .ok (.delivered n) := by
  cases phase with
  | reading t =>
    refine Obeys.bind (Obeys.get fun s none => ?_)
    refine Obeys.bind (idling_allows.obeys_onStore trivial _ _ (fun u e _ _ => ?_) ?_)
    · exact ⟨(), .refl u, nofun⟩
    · refine Obeys.get fun u _ => ?_
      have size : (s.queue id).batchSize = 0 := none
      simp only [size, Store.window, List.take_zero]
      exact nofun
  | delivering | deleting => exact idle.elim
  | ended r => exact idle

theorem obeys_idle_drain :
    Obeys (idling id) () (drain id) fun _ r => ∀ n, r ≠ .ok (.delivered n) := by
  refine Obeys.bind (Obeys.act fun s _ => ?_)
  cases taken : (s.queue id).claim? with
  | none =>
    rw [claim_of_none taken]
    exact ⟨(), .refl s, nofun⟩
  | some q =>
    rw [claim_of_some taken]
    obtain ⟨_, rfl⟩ := Queue.claim?_eq_some.1 taken
    refine ⟨(), .setFlag true s, Obeys.ensuring ?_⟩
    refine Obeys.iterate (fun _ => Idle) (fun _ phase idle => ?_) (idle_opening _ _)
    refine (obeys_idle idle).mono fun _ r ends => ?_
    obtain next | r := r
    · exact ends
    · exact fun u _ => ⟨(), .setFlag false u, ends⟩

def Undelivered : Flush.Next → Prop
  | .drain n | .pause n => n = 0
  | .ended r => ∀ n, r = .ok n → n = 0

theorem obeys_idle_flush : Obeys (idling id) () (flush id) fun _ r => ∀ n, r = .ok n → n = 0 := by
  refine Obeys.iterate (fun _ => Undelivered) (fun _ next undelivered => ?_) rfl
  cases next with
  | drain n =>
    obtain rfl : n = 0 := undelivered
    refine Obeys.bind (obeys_idle_drain.mono fun _ r none => ?_)
    obtain e | outcome := r
    · exact nofun
    cases outcome with
    | delivered c => exact absurd rfl (none c)
    | skipped => exact rfl
    | empty =>
      rintro n ⟨⟩
      rfl
    | transportUnusable | rejected => exact nofun
  | pause n =>
    obtain rfl : n = 0 := undelivered
    exact Obeys.keeps_bind (idling_allows.sleep _) trivial fun _ => rfl
  | ended r => exact undelivered

/-- A flush that does not fail has read a batch and found it empty, and did nothing later but end
and give back the flag; the same goes for a drain that says that the store is empty. For all sizes
of batches but zero the store held nothing then, whatever others do. With batches of no events a
flush that does not fail has delivered nothing, whatever is in the store. -/
theorem flush_saw_nothing (id : QueueId) :
    (∀ steps, Passes (drain id) steps (.done (.ok .empty)) →
      ∃ a b c, ReadNothing id [(a, a), (b, b), (c, (unclaim id c).2)] steps) ∧
    (∀ steps n, Passes (flush id) steps (.done (.ok n)) → ∃ a b c d e,
      ReadNothing id [(a, a), (b, b), (c, (unclaim id c).2), (d, d), (e, e)] steps) ∧
    ∀ R : Session → Session → Prop,
      (∀ s u, R s u → (u.queue id).batchSize = (s.queue id).batchSize) →
      ∀ s steps r u, (s.queue id).batchSize = 0 → Trail R (flush id) s steps (.done r) u →
        (∀ n, r = .ok n → n = 0) ∧
        ∀ p ∈ steps, ∀ k, (p.2.store k).events = (p.1.store k).events := by
  refine ⟨fun _ => readNothing_of_drain, fun _ _ => readNothing_of_flushing nofun, ?_⟩
  intro R others s steps r u none trail
  have outside {s u : Session} (none : (s.queue id).batchSize = 0) (change : R s u) :
      (u.queue id).batchSize = 0 := (others s u change).trans none
  have own {s u : Session} (none : (s.queue id).batchSize = 0) (same : Untouched id s u) :
      (u.queue id).batchSize = 0 := same.batchSize.trans none
  obtain ⟨moves, _, delivered⟩ := trail.moved obeys_idle_flush outside own none
  refine ⟨delivered, fun p hp => ?_⟩
  obtain ⟨_, _, same⟩ := moves p hp
  exact same.events

def sampleBatchless : Session where
  leaves := #[.collector { endpoint := "e" }]
  stores := #[{ events := [.stamp { type := "Kept" } "a" 0] }]
  queues := #[{ batchSize := 0, store := 0, transport := some (.leaf 0) }]

theorem flush_saw_nothing_sample :
    sampleBatchless.isUsable (.leaf 0) = true ∧ ∃ steps u,
      Trail (fun _ _ => False) (flush 0) sampleBatchless steps (.done (.ok 0)) u ∧
      (u.store 0).events.map Event.id = ["a"] ∧
      (∃ a b c d e,
        ReadNothing 0 [(a, a), (b, b), (c, (unclaim 0 c).2), (d, d), (e, e)] steps) ∧
      ∀ p ∈ steps, ∀ k, (p.2.store k).events = (p.1.store k).events := by
  obtain ⟨_, flushed, idle⟩ := flush_saw_nothing 0
  have run : Async.Steps (flush 0) sampleBatchless (.done (.ok 0))
      ((flush 0).poll 20 sampleBatchless).2 := Async.poll_steps 20 _ _
  obtain ⟨steps, trail⟩ := run.trail (R := fun _ _ => False)
  exact ⟨rfl, steps, _, trail, by decide, flushed _ _ trail.passes,
    (idle _ (fun _ _ => False.elim) _ _ _ _ rfl trail).2⟩

end EventTracking.Session
