import EventTracking.Proofs.Retry.Heeding
import EventTracking.Proofs.Transport.Deliveries
import EventTracking.Proofs.Transport.Record

set_option autoImplicit false

namespace EventTracking

open Async (Passes Records Rounds Step Steps record Parked Heeds)
open Crowd (Move Run)

variable {σ : Type}

namespace CancellationPlace

def notifying (p : CancellationPlace σ) : Async σ (Except Error Unit) :=
  .act fun s => (.ok (), p.edit (fun c => c.notify.2) s)

-- A cancellation, others getting their turn between its two steps.
def cancelling (p : CancellationPlace σ) : Async σ (Except Error Unit) :=
  .step (fun s => ((), p.edit Cancellation.raise s)) fun _ => p.notifying

variable {p : CancellationPlace σ} {id : CancellationId} {s : σ} {k : Nat}

theorem look_cancelling (lawful : p.Lawful) (here : p.In s) :
    p.look (p.edit (fun c => c.notify.2) (p.edit Cancellation.raise s)) =
      (p.look s).cancel.2 := by
  simp [edit, here _, lawful _ _ here _, Cancellation.cancel]

theorem isCancelled_raise (here : p.In s) :
    p.isCancelled (p.edit Cancellation.raise s) = true := by
  simp [isCancelled, edit, here _, Cancellation.raise]

theorem nextTicket_raise (here : p.In s) :
    p.nextTicket (p.edit Cancellation.raise s) = p.nextTicket s := by
  simp [nextTicket, edit, here _, Cancellation.raise]

theorem isCancelled_notify (here : p.In s) :
    p.isCancelled (p.edit (fun c => c.notify.2) s) = p.isCancelled s := by
  simp [isCancelled, edit, here _, Cancellation.notify]

theorem nextTicket_notify (here : p.In s) :
    p.nextTicket (p.edit (fun c => c.notify.2) s) = p.nextTicket s := by
  simp [nextTicket, edit, here _, Cancellation.notify, Signal.notify]

theorem isWatching_notify (here : p.In s) :
    p.isWatching k (p.edit (fun c => c.notify.2) s) = false := by
  rw [isWatching, edit, here]
  exact Signal.isWaiting_notify _ _

theorem isCancelled_reset (here : p.In s) :
    p.isCancelled (p.edit Cancellation.reset s) = false := by
  simp [isCancelled, edit, here _, Cancellation.reset]

theorem nextTicket_reset (here : p.In s) :
    p.nextTicket (p.edit Cancellation.reset s) = p.nextTicket s := by
  simp [nextTicket, edit, here _, Cancellation.reset]

def attempts (p : CancellationPlace σ) (id : CancellationId) : Regard (σ × List Deed) where
  place := p.widened
  quiet s t := p.Respects s.1 t.1 ∧
    ∃ l, t.2 = s.2 ++ l ∧ (p.isCancelled s.1 = true → .began id ∉ l)
  quiet_refl s := ⟨.refl p s.1, [], by simp⟩
  quiet_trans := by
    rintro s t u ⟨first, l, puts, none⟩ ⟨second, m, puts', none'⟩
    refine ⟨first.trans second, l ++ m, by rw [puts', puts, List.append_assoc], fun up => ?_⟩
    simpa using ⟨none up, none' (first.stays up)⟩
  respects quiet := ⟨quiet.1.here, quiet.1.stays, quiet.1.later, quiet.1.old⟩

theorem widens_attempts : p.regard.Widens (p.attempts id) :=
  ⟨rfl, fun _ quiet => ⟨quiet, [], by simp⟩⟩

end CancellationPlace

-- Surroundings in which the retries find a cancellation in a place, and nothing else resets it.
structure Surroundings.Heeds (env : Surroundings σ) (p : CancellationPlace σ)
    (id : CancellationId) : Prop where
  lawful : p.Lawful
  isCancelled : ∀ s, env.isCancelled id s = p.isCancelled s
  cancelled : env.cancelled id = p.awaited
  others : ∀ c, c ≠ id → p.regard.Heeded (env.cancelled c)
  deliver : ∀ leaf batch, p.regard.Heeded (env.deliver leaf batch)
  enqueue : ∀ queue batch, p.regard.Heeded (env.enqueue queue batch)
  pause : ∀ pauser d, p.regard.Heeded (env.pause pauser d)
  warn : ∀ console m s, p.Respects s (env.warn console m s)
  elapsed : ∀ s, p.Respects s (env.elapsed s).2
  attempts : ∀ c s, p.Respects s (env.attempts c s)
  refuses : ∀ e s, p.Respects s (env.refuses e s)

namespace Surroundings.Heeds

variable {env : Surroundings σ} {p : CancellationPlace σ} {id : CancellationId}

theorem note {x : Deed} (other : x ≠ .began id) : (p.attempts id).Heeded (Async.note x) :=
  .act fun s => ⟨.refl p s.1, [x], rfl, fun _ => by simpa using other.symm⟩

theorem widen {α : Type} {a : Async σ α} (h : p.regard.Heeded a) :
    (p.attempts id).Heeded (a.widen : Async (σ × List Deed) α) :=
  h.widen CancellationPlace.widens_attempts []

theorem calling {x : Endpoint} {batch : List Event} {a : Async σ (Except Error Unit)}
    (h : p.regard.Heeded a) : (p.attempts id).Heeded (calling x batch a) := by
  apply Regard.Heeded.bind (note (by simp))
  intro _
  apply Regard.Heeded.bind (widen h)
  intro r
  exact Regard.Heeded.bind (note (by simp)) fun _ => .pure r

theorem heeded_cancelled (h : env.Heeds p id) (c : CancellationId) :
    p.regard.Heeded (env.cancelled c) := by
  by_cases mine : c = id
  · rw [mine, h.cancelled]
    exact CancellationPlace.heeded_awaited h.lawful
  · exact h.others c mine

theorem beginAttempt (h : env.Heeds p id) (c : CancellationId) :
    (p.attempts id).Heeded (Transport.beginAttempt env.recorded c) := by
  apply Regard.Heeded.act
  intro s
  by_cases stop : env.isCancelled c s.1
  · simpa [recorded, stop] using (p.attempts id).quiet_refl s
  · refine ⟨by simpa [recorded, stop] using h.attempts c s.1, [.began c], ?_, ?_⟩
    · simp [recorded, stop]
    · intro up
      have other : c ≠ id := by
        rintro rfl
        exact stop ((h.isCancelled s.1).trans up)
      simpa using other.symm

theorem deliveries (h : env.Heeds p id) :
    Deliveries (p.attempts id).Heeded env.recorded fun _ => True where
  toComposes := Regard.Heeded.composes
  gather := .gather
  deliver leaf batch := calling (h.deliver leaf batch)
  enqueue batch _ := calling (h.enqueue _ batch)
  warns console f events := by
    refine .act fun s => ⟨?_, events.map fun e => .warned console (f e),
      recorded_warns console f events s, fun _ => by simp⟩
    change p.Respects s.1 (events.foldl (fun s e => env.recorded.warn console (f e) s) s).1
    induction events generalizing s with
    | nil => exact .refl p s.1
    | cons e events ih =>
      have rest := ih (env.recorded.warn console (f e) s)
      exact (h.warn console (f e) s.1).trans rest
  begins := h.beginAttempt
  reads := .act fun s => ⟨h.elapsed s.1, [_], rfl, fun _ => by simp⟩
  backoff pauser c d := by
    apply Regard.Heeded.firstOf
    · apply Regard.Heeded.bind (note (by simp))
      exact fun _ => Regard.Heeded.bind (widen (h.pause pauser d)) fun _ => note (by simp)
    · exact Regard.Heeded.bind (widen (h.heeded_cancelled c)) fun _ => note (by simp)
  refuses e := .act fun s => ⟨h.refuses e s.1, [.refused e], rfl, fun _ => by simp⟩

end Surroundings.Heeds

-- A crowd in which deliveries come, and those who cancel. From outside, the cancellation may be
-- reset.
def Surroundings.sharing (env : Surroundings σ) (p : CancellationPlace σ) (resets : Prop) :
    Setting (σ × List Deed) (Except Error Unit) where
  comes s a t := t = s ∧
    (a = p.widened.cancelling ∨ ∃ (x : Transport) (batch : List Event),
      a = x.handle env.recorded batch)
  outside s t := t.2 = s.2 ∧
    (p.Respects s.1 t.1 ∨ resets ∧ t.1 = p.edit Cancellation.reset s.1)

structure Hushed (p : CancellationPlace σ) (id : CancellationId) (s t : σ × List Deed) : Prop where
  stays : p.isCancelled s.1 = true → p.isCancelled t.1 = true
  none : ∃ l, t.2 = s.2 ++ l ∧ (p.isCancelled s.1 = true → .began id ∉ l)

namespace Hushed

variable {p : CancellationPlace σ} {id : CancellationId} {s t u : σ × List Deed}

theorem of_eq (stays : p.isCancelled s.1 = true → p.isCancelled t.1 = true) (same : t.2 = s.2) :
    Hushed p id s t :=
  ⟨stays, [], by simp [same]⟩

theorem of_quiet (quiet : (p.attempts id).quiet s t) : Hushed p id s t := ⟨quiet.1.stays, quiet.2⟩

theorem trans (first : Hushed p id s t) (second : Hushed p id t u) : Hushed p id s u := by
  obtain ⟨l, puts, none⟩ := first.none
  obtain ⟨m, puts', none'⟩ := second.none
  refine ⟨second.stays ∘ first.stays, l ++ m, by rw [puts', puts, List.append_assoc], fun up => ?_⟩
  simpa using ⟨none up, none' (first.stays up)⟩

end Hushed

structure Shares (p : CancellationPlace σ) (id : CancellationId) (n : Nat)
    (a : Async (σ × List Deed) (Except Error Unit)) : Prop where
  heeds : a = p.widened.cancelling ∨ a = p.widened.notifying ∨ Heeds (p.attempts id) n a
  drawn : ∀ k, Parked p.widened k a → k < n

theorem Shares.mono {p : CancellationPlace σ} {id : CancellationId} {m n : Nat}
    {a : Async (σ × List Deed) (Except Error Unit)} (h : Shares p id n a) (more : n ≤ m) :
    Shares p id m a :=
  ⟨h.heeds.imp_right fun h => h.imp_right (·.mono more), fun k parked =>
    Nat.lt_of_lt_of_le (h.drawn k parked) more⟩

structure Sharing (p : CancellationPlace σ) (id : CancellationId)
    (c : Crowd (σ × List Deed) (Except Error Unit)) : Prop where
  here : p.In c.state.1
  shares : ∀ a ∈ c.tasks, Shares p id (p.nextTicket c.state.1) a
  woken : p.isCancelled c.state.1 = true → p.widened.notifying ∉ c.tasks →
    ∀ a ∈ c.tasks, ∀ k, Parked p.widened k a → p.isWatching k c.state.1 = false

namespace Sharing

variable {env : Surroundings σ} {p : CancellationPlace σ} {id : CancellationId} {resets : Prop}
  {s t : σ × List Deed} {tasks : List (Async (σ × List Deed) (Except Error Unit))} {i : Nat}
  {a b : Async (σ × List Deed) (Except Error Unit)}
  {c c' : Crowd (σ × List Deed) (Except Error Unit)}

theorem set (inv : Sharing p id ⟨s, tasks⟩) (here : p.In t.1)
    (later : p.nextTicket s.1 ≤ p.nextTicket t.1) (new : Shares p id (p.nextTicket t.1) b)
    (woken : p.isCancelled t.1 = true → p.widened.notifying ∉ tasks.set i b →
      ∀ a ∈ tasks.set i b, ∀ k, Parked p.widened k a → p.isWatching k t.1 = false) :
    Sharing p id ⟨t, tasks.set i b⟩ := by
  refine ⟨here, fun a ha => ?_, woken⟩
  obtain old | rfl := List.mem_or_eq_of_mem_set ha
  · exact (inv.shares a old).mono later
  · exact new

theorem unwatched (inv : Sharing p id ⟨s, tasks⟩) (respects : p.Respects s.1 t.1)
    (up : p.isCancelled t.1 = true) (none : p.widened.notifying ∉ tasks) (ha : a ∈ tasks) {k : Nat}
    (parked : Parked p.widened k a) : p.isWatching k t.1 = false := by
  apply Bool.eq_false_iff.2
  intro watching
  obtain ⟨watching, before⟩ := respects.old k ((inv.shares a ha).drawn k parked) watching
  simp [inv.woken (before up) none a ha k parked] at watching

theorem step (inv : Sharing p id ⟨s, tasks⟩) (lawful : p.Lawful) (found : tasks[i]? = some a)
    (go : Step a s b t) : Sharing p id ⟨t, tasks.set i b⟩ ∧ Hushed p id s t := by
  have here : p.In s.1 := inv.here
  have inside := (List.getElem?_eq_some_iff.1 found).1
  have present := List.mem_of_getElem? found
  -- The step is the notification, raises the flag, or is taken by one who heeds the place.
  by_cases notifies : a = p.widened.notifying
  · subst notifies
    cases go
    have tickets := CancellationPlace.nextTicket_notify here
    refine ⟨inv.set (lawful _ _ here) (Nat.le_of_eq tickets.symm) ?_ ?_, ?_⟩
    · exact ⟨.inr (.inr trivial), fun _ => False.elim⟩
    · exact fun _ _ _ _ _ _ => CancellationPlace.isWatching_notify here
    · exact .of_eq (CancellationPlace.isCancelled_notify here).trans rfl
  obtain rfl | rfl | heeds := (inv.shares a present).heeds
  · cases go
    have tickets := CancellationPlace.nextTicket_raise here
    refine ⟨inv.set (lawful _ _ here) (Nat.le_of_eq tickets.symm) ?_ ?_, ?_⟩
    · exact ⟨.inr (.inl rfl), fun _ => False.elim⟩
    · exact fun _ none => absurd (List.mem_set inside _) none
    · exact .of_eq (fun _ => CancellationPlace.isCancelled_raise here) rfl
  · exact absurd rfl notifies
  · obtain ⟨quiet, rest, parks⟩ := heeds.step ⟨here, Nat.le_refl _⟩ go
    refine ⟨inv.set (quiet.1.here here) quiet.1.later ⟨.inr (.inr rest), fun k parked => ?_⟩ ?_,
      .of_quiet quiet⟩
    · obtain old | ⟨_, drawn⟩ := parks k parked
      · exact Nat.lt_of_lt_of_le ((inv.shares a present).drawn k old) quiet.1.later
      · exact drawn
    · intro up nobody a' ha' k parked
      -- Nobody was about to notify before the step either.
      have before : p.widened.notifying ∉ tasks := by
        intro there
        obtain ⟨j, hj⟩ := List.mem_iff_getElem?.1 there
        have other : i ≠ j := by
          rintro rfl
          exact notifies (Option.some.inj (found.symm.trans hj))
        exact nobody (List.mem_of_getElem? ((List.getElem?_set_ne other).trans hj))
      obtain old | rfl := List.mem_or_eq_of_mem_set ha'
      · exact inv.unwatched quiet.1 up before old parked
      · obtain old | ⟨down, _⟩ := parks k parked
        · exact inv.unwatched quiet.1 up before present old
        · exact absurd up (Bool.eq_false_iff.1 down)

theorem come (h : env.Heeds p id) (inv : Sharing p id ⟨s, tasks⟩)
    (comes : (env.sharing p resets).comes s a t) :
    Sharing p id ⟨t, tasks ++ [a]⟩ ∧ Hushed p id s t := by
  obtain ⟨rfl, comes⟩ := comes
  have new : Shares p id (p.nextTicket t.1) a ∧ ∀ k, ¬ Parked p.widened k a := by
    obtain rfl | ⟨x, batch, rfl⟩ := comes
    · exact ⟨⟨.inl rfl, fun _ => False.elim⟩, fun _ => False.elim⟩
    · have heeded := h.deliveries.handle x batch fun _ _ => trivial
      have heeds := heeded.heeds.mono (Nat.zero_le (p.nextTicket t.1))
      exact ⟨⟨.inr (.inr heeds), fun k parked => absurd parked (heeded.unparked k)⟩,
        heeded.unparked⟩
  refine ⟨⟨inv.here, List.forall_mem_append.2 ⟨inv.shares, by simpa using new.1⟩, ?_⟩,
    .of_eq (fun up => up) rfl⟩
  intro up nobody
  have woken := inv.woken up fun there => nobody (List.mem_append_left _ there)
  refine List.forall_mem_append.2 ⟨woken, fun a' ha' k parked => ?_⟩
  obtain rfl := List.mem_singleton.1 ha'
  exact absurd parked (new.2 k)

theorem outside (inv : Sharing p id ⟨s, tasks⟩) (lawful : p.Lawful)
    (changes : (env.sharing p resets).outside s t) :
    Sharing p id ⟨t, tasks⟩ ∧ (¬ resets → Hushed p id s t) := by
  have here : p.In s.1 := inv.here
  obtain ⟨same, respects | ⟨resets, reset⟩⟩ := changes
  · refine ⟨⟨respects.here here, fun a ha => (inv.shares a ha).mono respects.later, ?_⟩,
      fun _ => .of_eq respects.stays same⟩
    exact fun up none a ha k parked => inv.unwatched respects up none ha parked
  · have tickets := CancellationPlace.nextTicket_reset here
    refine ⟨⟨reset ▸ lawful _ _ here, fun a ha => ?_, fun up => ?_⟩, absurd resets⟩
    · exact (inv.shares a ha).mono (Nat.le_of_eq (reset ▸ tickets.symm))
    · simp [reset, CancellationPlace.isCancelled_reset here] at up

theorem move (h : env.Heeds p id) (inv : Sharing p id c) (move : Move (env.sharing p resets) c c') :
    Sharing p id c' ∧ (¬ resets → Hushed p id c.state c'.state) := by
  cases move with
  | step found go =>
    obtain ⟨inv, hushed⟩ := inv.step h.lawful found go
    exact ⟨inv, fun _ => hushed⟩
  | come comes =>
    obtain ⟨inv, hushed⟩ := inv.come h comes
    exact ⟨inv, fun _ => hushed⟩
  | outside changes => exact inv.outside h.lawful changes

theorem run (h : env.Heeds p id) {w : σ × List Deed} (here : p.In w.1)
    (run : Run (env.sharing p resets) ⟨w, []⟩ c) : Sharing p id c := by
  induction run with
  | refl => exact ⟨here, by simp, by simp⟩
  | tail _ move ih => exact (ih.move h move).1

theorem hushed (h : env.Heeds p id) (inv : Sharing p id c)
    (run : Run (env.sharing p False) c c') : Sharing p id c' ∧ Hushed p id c.state c'.state := by
  induction run with
  | refl => exact ⟨inv, .of_eq (fun up => up) rfl⟩
  | tail _ move ih =>
    obtain ⟨inv', hushed⟩ := ih.1.move h move
    exact ⟨inv', ih.2.trans (hushed not_false)⟩

theorem raised (h : env.Heeds p id) (inv : Sharing p id c) (run : Run (env.sharing p False) c c')
    (found : c.tasks[i]? = some p.widened.cancelling) :
    c'.tasks[i]? = some p.widened.cancelling ∨ p.isCancelled c'.state.1 = true := by
  induction run with
  | refl => exact .inl found
  | tail before move ih =>
    obtain here | up := ih
    · obtain ⟨inside, _⟩ := List.getElem?_eq_some_iff.1 here
      cases move with
      | @step s _ tasks j _ _ there go =>
        by_cases mine : j = i
        · subst mine
          cases there.symm.trans here
          cases go
          exact .inr (CancellationPlace.isCancelled_raise (inv.hushed h before).1.here)
        · exact .inl ((List.getElem?_set_ne mine).trans here)
      | come => exact .inl ((List.getElem?_append_left inside).trans here)
      | outside => exact .inl here
    · have inv' := (inv.hushed h before).1
      exact .inr (((inv'.move h move).2 not_false).stays up)

end Sharing

end EventTracking
