import EventTracking.Proofs.Async.Recording
import EventTracking.Retry.Cancelling

set_option autoImplicit false

namespace EventTracking

variable {σ τ α β γ : Type}

namespace CancellationPlace

def isCancelled (p : CancellationPlace σ) (s : σ) : Bool := (p.look s).cancelled

def nextTicket (p : CancellationPlace σ) (s : σ) : Nat := (p.look s).signal.nextTicket

def isWatching (p : CancellationPlace σ) (ticket : Nat) (s : σ) : Bool :=
  (p.look s).isWatching ticket

-- Whether the state has the place: what is put there is found there.
def In (p : CancellationPlace σ) (s : σ) : Prop := ∀ c, p.look (p.put c s) = c

def Lawful (p : CancellationPlace σ) : Prop := ∀ c s, p.In s → p.In (p.put c s)

structure Drawn (p : CancellationPlace σ) (n : Nat) (s : σ) : Prop where
  here : p.In s
  tickets : n ≤ p.nextTicket s

theorem Drawn.mono {p : CancellationPlace σ} {m n : Nat} {s : σ} (h : p.Drawn m s) (less : n ≤ m) :
    p.Drawn n s := ⟨h.here, Nat.le_trans less h.tickets⟩

structure Respects (p : CancellationPlace σ) (s t : σ) : Prop where
  here : p.In s → p.In t
  stays : p.isCancelled s = true → p.isCancelled t = true
  later : p.nextTicket s ≤ p.nextTicket t
  old : ∀ k < p.nextTicket s, p.isWatching k t = true →
    p.isWatching k s = true ∧ (p.isCancelled t = true → p.isCancelled s = true)

theorem Respects.refl (p : CancellationPlace σ) (s : σ) : p.Respects s s :=
  ⟨id, id, Nat.le_refl _, fun _ _ watching => ⟨watching, id⟩⟩

theorem Respects.trans {p : CancellationPlace σ} {s t u : σ} (first : p.Respects s t)
    (second : p.Respects t u) : p.Respects s u := by
  refine ⟨second.here ∘ first.here, second.stays ∘ first.stays,
    Nat.le_trans first.later second.later, ?_⟩
  intro k drawn watching
  obtain ⟨watching, up⟩ := second.old k (Nat.lt_of_lt_of_le drawn first.later) watching
  obtain ⟨watching, up'⟩ := first.old k drawn watching
  exact ⟨watching, up' ∘ up⟩

def widened (p : CancellationPlace σ) : CancellationPlace (σ × τ) where
  look s := p.look s.1
  put c s := (p.put c s.1, s.2)
  running s := p.running s.1

theorem Drawn.of_widened {p : CancellationPlace σ} {n : Nat} {s : σ × τ}
    (h : p.widened.Drawn n s) : p.Drawn n s.1 := ⟨h.here, h.tickets⟩

end CancellationPlace

structure Regard (σ : Type) where
  place : CancellationPlace σ
  quiet : σ → σ → Prop
  quiet_refl : ∀ s, quiet s s
  quiet_trans : ∀ {s t u}, quiet s t → quiet t u → quiet s u
  respects : ∀ {s t}, quiet s t → place.Respects s t

def CancellationPlace.regard (p : CancellationPlace σ) : Regard σ where
  place := p
  quiet := p.Respects
  quiet_refl := .refl p
  quiet_trans := .trans
  respects := id

theorem Regard.later (R : Regard σ) {s t : σ} {n : Nat} (hs : R.place.Drawn n s)
    (quiet : R.quiet s t) : R.place.Drawn n t :=
  ⟨(R.respects quiet).here hs.here, Nat.le_trans hs.tickets (R.respects quiet).later⟩

def Regard.frame (R : Regard σ) (n : Nat) : Frame σ where
  always := R.place.Drawn n
  quiet := R.quiet
  quiet_refl := R.quiet_refl
  quiet_trans := R.quiet_trans
  always_quiet := R.later

namespace Async

-- Whether a computation stands where it waits for the notification of a ticket, and for nothing
-- else.
def Parked (p : CancellationPlace σ) (ticket : Nat) : {α : Type} → Async σ α → Prop
  | _, done _ => False
  | _, step _ _ => False
  | _, wait look _ _ => ∀ s, (look s).1.isNone = p.isWatching ticket s
  | _, guarded _ a _ => Parked p ticket a
  | _, both a b _ => Parked p ticket a ∨ Parked p ticket b
  | _, race a b _ => Parked p ticket a ∨ Parked p ticket b
  | _, loop _ a _ => Parked p ticket a

def Unparked (p : CancellationPlace σ) (a : Async σ α) : Prop := ∀ ticket, ¬ Parked p ticket a

-- Whether a computation parks only with a ticket that it has drawn and only where the flag is not
-- up, when all tickets below `n` are drawn.
def Heeds (R : Regard σ) : {α : Type} → Nat → Async σ α → Prop
  | _, _, done _ => True
  | _, n, step f next => ∀ s, R.place.Drawn n s →
    R.quiet s (f s).2 ∧ Heeds R (R.place.nextTicket (f s).2) (next (f s).1) ∧
      ∀ k, Parked R.place k (next (f s).1) →
        R.place.isCancelled (f s).2 = false ∧ k < R.place.nextTicket (f s).2
  | _, n, wait look leave next => ∀ s, R.place.Drawn n s →
    R.quiet s (look s).2 ∧ R.quiet s (leave s) ∧
      ∀ b, (look s).1 = some b → Heeds R n (next b) ∧ Unparked R.place (next b)
  | _, n, guarded release a next =>
    (∀ s, R.place.Drawn n s → R.quiet s (release s)) ∧ Heeds R n a ∧
      ∀ b, Heeds R n (next b) ∧ Unparked R.place (next b)
  | _, n, both a b next =>
    Heeds R n a ∧ Heeds R n b ∧ ∀ x y, Heeds R n (next x y) ∧ Unparked R.place (next x y)
  | _, n, race a b next =>
    Heeds R n a ∧ Heeds R n b ∧ ∀ r, Heeds R n (next r) ∧ Unparked R.place (next r)
  | _, n, loop body a next =>
    (∀ b, Heeds R n (body b) ∧ Unparked R.place (body b)) ∧ Heeds R n a ∧
      ∀ c, Heeds R n (next c) ∧ Unparked R.place (next c)

variable {p : CancellationPlace σ} {R : Regard σ} {m n : Nat}

theorem Heeds.mono {a : Async σ α} (h : Heeds R n a) (more : n ≤ m) : Heeds R m a := by
  induction a with
  | done => trivial
  | step f next ih => exact fun s hs => h s (hs.mono more)
  | wait look leave next ih =>
    intro s hs
    obtain ⟨looks, leaves, goesOn⟩ := h s (hs.mono more)
    exact ⟨looks, leaves, fun b hb => ⟨ih b (goesOn b hb).1, (goesOn b hb).2⟩⟩
  | guarded release a next iha ih =>
    exact ⟨fun s hs => h.1 s (hs.mono more), iha h.2.1,
      fun b => ⟨ih b (h.2.2 b).1, (h.2.2 b).2⟩⟩
  | both a b next iha ihb ih =>
    exact ⟨iha h.1, ihb h.2.1, fun x y => ⟨ih x y (h.2.2 x y).1, (h.2.2 x y).2⟩⟩
  | race a b next iha ihb ih =>
    exact ⟨iha h.1, ihb h.2.1, fun r => ⟨ih r (h.2.2 r).1, (h.2.2 r).2⟩⟩
  | loop body a next ihb iha ih =>
    exact ⟨fun b => ⟨ihb b (h.1 b).1, (h.1 b).2⟩, iha h.2.1,
      fun c => ⟨ih c (h.2.2 c).1, (h.2.2 c).2⟩⟩

theorem Heeds.leaves : Leaves (R.frame n) (Heeds R n) where
  wait h s hs := (h s hs).2.1
  guarded h := ⟨h.1, h.2.1⟩
  both h := ⟨h.1, h.2.1⟩
  race h := ⟨h.1, h.2.1⟩
  loop h := h.2.1

theorem Heeds.abandon {a : Async σ α} (h : Heeds R n a) {s : σ} (hs : R.place.Drawn n s) :
    R.quiet s (a.abandon s) := Heeds.leaves.abandon h hs

theorem Heeds.step {a a' : Async σ α} {s s' : σ} (h : Heeds R n a) (hs : R.place.Drawn n s)
    (go : Step a s a' s') :
    R.quiet s s' ∧ Heeds R (R.place.nextTicket s') a' ∧ ∀ k, Parked R.place k a' →
      Parked R.place k a ∨ R.place.isCancelled s' = false ∧ k < R.place.nextTicket s' := by
  -- A part that does not step still heeds the place, since no ticket is drawn twice.
  induction go generalizing n with
  | work =>
    obtain ⟨quiet, rest, parks⟩ := h _ hs
    exact ⟨quiet, rest, fun k parked => .inr (parks k parked)⟩
  | ready leave next now =>
    obtain ⟨looks, _, goesOn⟩ := h _ hs
    obtain ⟨rest, unparked⟩ := goesOn _ now
    exact ⟨looks, rest.mono (R.later hs looks).tickets, fun k parked => absurd parked (unparked k)⟩
  | early =>
    have looks := (h _ hs).1
    exact ⟨looks, Heeds.mono h (R.later hs looks).tickets, fun _ => .inl⟩
  | inside _ ih =>
    obtain ⟨quiet, inner, parks⟩ := ih h.2.1 hs
    have later := Heeds.mono h (R.later hs quiet).tickets
    exact ⟨quiet, ⟨later.1, inner, later.2.2⟩, parks⟩
  | @release _ _ _ b =>
    have releases := h.1 _ hs
    obtain ⟨rest, unparked⟩ := h.2.2 b
    exact ⟨releases, rest.mono (R.later hs releases).tickets,
      fun k parked => absurd parked (unparked k)⟩
  | left _ ih | leftLeg _ ih =>
    obtain ⟨quiet, inner, parks⟩ := ih h.1 hs
    have later := Heeds.mono h (R.later hs quiet).tickets
    refine ⟨quiet, ⟨inner, later.2⟩, ?_⟩
    rintro k (parked | parked)
    · exact (parks k parked).imp_left .inl
    · exact .inl (.inr parked)
  | right _ ih | rightLeg _ ih =>
    obtain ⟨quiet, inner, parks⟩ := ih h.2.1 hs
    have later := Heeds.mono h (R.later hs quiet).tickets
    refine ⟨quiet, ⟨later.1, inner, later.2.2⟩, ?_⟩
    rintro k (parked | parked)
    · exact .inl (.inl parked)
    · exact (parks k parked).imp_left .inr
  | join =>
    obtain ⟨rest, unparked⟩ := h.2.2 _ _
    exact ⟨R.quiet_refl _, rest.mono hs.tickets, fun k parked => absurd parked (unparked k)⟩
  | leftWins =>
    have quiet := h.2.1.abandon hs
    obtain ⟨rest, unparked⟩ := h.2.2 (.inl _)
    exact ⟨quiet, rest.mono (R.later hs quiet).tickets,
      fun k parked => absurd parked (unparked k)⟩
  | rightWins =>
    have quiet := h.1.abandon hs
    obtain ⟨rest, unparked⟩ := h.2.2 (.inr _)
    exact ⟨quiet, rest.mono (R.later hs quiet).tickets,
      fun k parked => absurd parked (unparked k)⟩
  | round _ ih =>
    obtain ⟨quiet, inner, parks⟩ := ih h.2.1 hs
    have later := Heeds.mono h (R.later hs quiet).tickets
    exact ⟨quiet, ⟨later.1, inner, later.2.2⟩, parks⟩
  | again =>
    obtain ⟨rest, unparked⟩ := h.1 _
    exact ⟨R.quiet_refl _, Heeds.mono ⟨h.1, rest, h.2.2⟩ hs.tickets,
      fun k parked => absurd parked (unparked k)⟩
  | final =>
    obtain ⟨rest, unparked⟩ := h.2.2 _
    exact ⟨R.quiet_refl _, rest.mono hs.tickets, fun k parked => absurd parked (unparked k)⟩

theorem Parked.of_bind {k : Nat} {a : Async σ α} {f : α → Async σ β}
    (h : Parked p k (a.bind f)) : Parked p k a ∨ ∃ x, Parked p k (f x) := by
  cases a with
  | done x => exact .inr ⟨x, h⟩
  | step => exact h.elim
  | wait | guarded | both | race | loop => exact .inl h

theorem Parked.bind {k : Nat} {a : Async σ α} (f : α → Async σ β) (h : Parked p k a) :
    Parked p k (a.bind f) := by
  cases a with
  | done | step => exact h.elim
  | wait | guarded | both | race | loop => exact h

theorem Heeds.bind {a : Async σ α} {f : α → Async σ β} (first : Heeds R n a)
    (rest : ∀ x, Heeds R n (f x) ∧ Unparked R.place (f x)) : Heeds R n (a.bind f) := by
  have unparked {b : Async σ α} (h : Unparked R.place b) : Unparked R.place (b.bind f) := by
    intro k parked
    obtain parked | ⟨x, parked⟩ := parked.of_bind
    · exact h k parked
    · exact (rest x).2 k parked
  induction a generalizing n with
  | done x => exact (rest x).1
  | step g next ih =>
    intro s hs
    obtain ⟨quiet, goesOn, parks⟩ := first s hs
    have later := fun x => (rest x).1.mono (R.later hs quiet).tickets
    refine ⟨quiet, ih _ goesOn (fun x => ⟨later x, (rest x).2⟩) unparked, fun k parked => ?_⟩
    obtain parked | ⟨x, parked⟩ := parked.of_bind
    · exact parks k parked
    · exact absurd parked ((rest x).2 k)
  | wait look leave next ih =>
    intro s hs
    obtain ⟨looks, leaves, goesOn⟩ := first s hs
    exact ⟨looks, leaves, fun b hb =>
      ⟨ih b (goesOn b hb).1 rest unparked, unparked (goesOn b hb).2⟩⟩
  | guarded release a next _ ih =>
    exact ⟨first.1, first.2.1, fun b =>
      ⟨ih b (first.2.2 b).1 rest unparked, unparked (first.2.2 b).2⟩⟩
  | both a b next _ _ ih =>
    exact ⟨first.1, first.2.1, fun x y =>
      ⟨ih x y (first.2.2 x y).1 rest unparked, unparked (first.2.2 x y).2⟩⟩
  | race a b next _ _ ih | loop body a next _ _ ih =>
    exact ⟨first.1, first.2.1, fun r =>
      ⟨ih r (first.2.2 r).1 rest unparked, unparked (first.2.2 r).2⟩⟩

theorem Parked.of_widen {k : Nat} (u : τ) {a : Async σ α}
    (h : Parked p.widened k (a.widen : Async (σ × τ) α)) : Parked p k a := by
  induction a with
  | done | step => exact h
  | wait => exact fun s => h (s, u)
  | guarded _ _ _ ih => exact ih h
  | both _ _ _ iha ihb | race _ _ _ iha ihb => exact h.imp iha ihb
  | loop _ _ _ _ ih => exact ih h

theorem Parked.widen {k : Nat} {a : Async σ α} (h : Parked p k a) :
    Parked p.widened k (a.widen : Async (σ × τ) α) := by
  induction a with
  | done | step => exact h
  | wait => exact fun s => h s.1
  | guarded _ _ _ ih => exact ih h
  | both _ _ _ iha ihb | race _ _ _ iha ihb => exact h.imp iha ihb
  | loop _ _ _ _ ih => exact ih h

end Async

namespace Regard

open Async

structure Widens (R : Regard σ) (R' : Regard (σ × τ)) : Prop where
  place : R'.place = R.place.widened
  quiet : ∀ {s t} (u : τ), R.quiet s t → R'.quiet (s, u) (t, u)

structure Heeded (R : Regard σ) (a : Async σ α) : Prop where
  heeds : Heeds R 0 a
  unparked : Unparked R.place a

variable {R : Regard σ}

theorem Widens.unparked {R' : Regard (σ × τ)} (widens : R.Widens R') (u : τ) {a : Async σ α}
    (h : Unparked R.place a) : Unparked R'.place (a.widen : Async (σ × τ) α) := by
  rw [widens.place]
  exact fun k parked => h k (parked.of_widen u)

theorem Widens.heeds {R' : Regard (σ × τ)} (widens : R.Widens R') (u : τ) {n : Nat} {a : Async σ α}
    (h : Heeds R n a) : Heeds R' n (a.widen : Async (σ × τ) α) := by
  have unparked {β : Type} {b : Async σ β} (h : Unparked R.place b) :
      Unparked R'.place (b.widen : Async (σ × τ) β) := widens.unparked u h
  induction a generalizing n with
  | done => trivial
  | step f next ih =>
    intro s hs
    rw [widens.place] at hs
    obtain ⟨quiet, rest, parks⟩ := h s.1 hs.of_widened
    refine ⟨widens.quiet s.2 quiet, by rw [widens.place]; exact ih _ rest, fun k parked => ?_⟩
    rw [widens.place] at parked ⊢
    exact parks k (parked.of_widen s.2)
  | wait look leave next ih =>
    intro s hs
    rw [widens.place] at hs
    obtain ⟨looks, leaves, goesOn⟩ := h s.1 hs.of_widened
    exact ⟨widens.quiet s.2 looks, widens.quiet s.2 leaves,
      fun b hb => ⟨ih b (goesOn b hb).1, unparked (goesOn b hb).2⟩⟩
  | guarded release a next iha ih =>
    refine ⟨fun s hs => ?_, iha h.2.1, fun b => ⟨ih b (h.2.2 b).1, unparked (h.2.2 b).2⟩⟩
    rw [widens.place] at hs
    exact widens.quiet s.2 (h.1 s.1 hs.of_widened)
  | both a b next iha ihb ih =>
    exact ⟨iha h.1, ihb h.2.1, fun x y => ⟨ih x y (h.2.2 x y).1, unparked (h.2.2 x y).2⟩⟩
  | race a b next iha ihb ih =>
    exact ⟨iha h.1, ihb h.2.1, fun r => ⟨ih r (h.2.2 r).1, unparked (h.2.2 r).2⟩⟩
  | loop body a next ihb iha ih =>
    exact ⟨fun b => ⟨ihb b (h.1 b).1, unparked (h.1 b).2⟩, iha h.2.1,
      fun c => ⟨ih c (h.2.2 c).1, unparked (h.2.2 c).2⟩⟩

namespace Heeded

theorem pure (x : α) : R.Heeded (Pure.pure x : Async σ α) := ⟨trivial, fun _ => id⟩

theorem act {f : σ → α × σ} (h : ∀ s, R.quiet s (f s).2) : R.Heeded (Async.act f) :=
  ⟨fun s _ => ⟨h s, trivial, fun _ => False.elim⟩, fun _ => id⟩

theorem bind {a : Async σ α} {f : α → Async σ β} (first : R.Heeded a)
    (rest : ∀ x, R.Heeded (f x)) : R.Heeded (a >>= f) := by
  refine ⟨first.heeds.bind fun x => ⟨(rest x).heeds, (rest x).unparked⟩, fun k parked => ?_⟩
  obtain parked | ⟨x, parked⟩ := Parked.of_bind parked
  · exact first.unparked k parked
  · exact (rest x).unparked k parked

theorem iterate {body : β → Async σ (β ⊕ γ)} (h : ∀ b, R.Heeded (body b)) (start : β) :
    R.Heeded (Async.iterate body start) :=
  ⟨⟨fun b => ⟨(h b).heeds, (h b).unparked⟩, (h start).heeds, fun _ => ⟨trivial, fun _ => id⟩⟩,
    (h start).unparked⟩

theorem composes : Composes R.Heeded where
  pure := pure
  get _ := act fun s => R.quiet_refl s
  bind := bind
  iterate := iterate

theorem gather {l : List (Async σ α)} (h : ∀ a ∈ l, R.Heeded a) : R.Heeded (.gather l) := by
  induction l with
  | nil => exact ⟨trivial, fun _ => id⟩
  | cons a l ih =>
    have first := h a (by simp)
    have others := ih fun b hb => h b (by simp [hb])
    refine ⟨⟨first.heeds, others.heeds, fun _ _ => ⟨trivial, fun _ => id⟩⟩, ?_⟩
    rintro k (parked | parked)
    · exact first.unparked k parked
    · exact others.unparked k parked

theorem firstOf {a : Async σ α} {b : Async σ β} (ha : R.Heeded a) (hb : R.Heeded b) :
    R.Heeded (.firstOf a b) := by
  refine ⟨⟨ha.heeds, hb.heeds, fun _ => ⟨trivial, fun _ => id⟩⟩, ?_⟩
  rintro k (parked | parked)
  · exact ha.unparked k parked
  · exact hb.unparked k parked

theorem await {look : σ → Option α × σ} {leave : σ → σ} (looks : ∀ s, R.quiet s (look s).2)
    (leaves : ∀ s, R.quiet s (leave s)) {s : σ} (here : R.place.In s)
    (blind : ∀ c, (look (R.place.put c s)).1.isNone = (look s).1.isNone) :
    R.Heeded (Async.await look leave) := by
  refine ⟨fun s _ => ⟨looks s, leaves s, fun _ _ => ⟨trivial, fun _ => id⟩⟩, fun k parked => ?_⟩
  have absent := parked (R.place.put {} s)
  have present := parked (R.place.put { signal := { waiters := [(k, 0)] } } s)
  rw [blind, CancellationPlace.isWatching, here] at absent present
  rw [absent] at present
  simp [Cancellation.isWatching, Signal.isWaiting] at present

theorem ensuring {release : σ → σ} {a : Async σ α} (releases : ∀ s, R.quiet s (release s))
    (h : R.Heeded a) : R.Heeded (Async.ensuring release a) :=
  ⟨⟨fun s _ => releases s, h.heeds, fun _ => ⟨trivial, fun _ => id⟩⟩, h.unparked⟩

theorem widen {R' : Regard (σ × τ)} {a : Async σ α} (h : R.Heeded a) (widens : R.Widens R')
    (u : τ) : R'.Heeded (a.widen : Async (σ × τ) α) :=
  ⟨widens.heeds u h.heeds, widens.unparked u h.unparked⟩

end Heeded

end Regard

namespace CancellationPlace

open Async

variable {p : CancellationPlace σ} {s : σ} {k ticket : Nat}

@[simp]
theorem isCancelled_register (here : p.In s) :
    p.isCancelled (p.register s).2 = p.isCancelled s := by
  simp [isCancelled, register, here _, Cancellation.register]

@[simp]
theorem nextTicket_register (here : p.In s) :
    p.nextTicket (p.register s).2 = p.nextTicket s + 1 := by
  simp [nextTicket, register, here _, Cancellation.register, Signal.register]

@[simp]
theorem isWatching_register (here : p.In s) :
    p.isWatching k (p.register s).2 = (p.isWatching k s || p.nextTicket s == k) := by
  simp [isWatching, nextTicket, register, here _, Cancellation.register, Signal.register,
    Cancellation.isWatching, Signal.isWaiting]

theorem respects_register (lawful : p.Lawful) (here : p.In s) : p.Respects s (p.register s).2 := by
  refine ⟨lawful _ s, by simp [here], by simp [here], fun k drawn watching => ?_⟩
  have other : p.nextTicket s ≠ k := Nat.ne_of_gt drawn
  simpa [here, other] using watching

theorem isWatching_of_leave (here : p.In s)
    (h : p.isWatching k (p.edit (fun c => c.leave ticket) s) = true) : p.isWatching k s = true := by
  rw [isWatching, edit, here] at h
  obtain ⟨w, inside, same⟩ := List.any_eq_true.1 h
  exact List.any_eq_true.2 ⟨w, (List.mem_filter.1 inside).1, same⟩

theorem respects_leave (lawful : p.Lawful) (here : p.In s) (ticket : Nat) :
    p.Respects s (p.edit (fun c => c.leave ticket) s) := by
  refine ⟨lawful _ s, ?_, ?_, fun k _ watching => ⟨isWatching_of_leave here watching, ?_⟩⟩
  · simp [isCancelled, edit, here _, Cancellation.leave]
  · simp [nextTicket, edit, here _, Cancellation.leave, Signal.leave]
  · simp [isCancelled, edit, here _, Cancellation.leave]

theorem isNone_notified (ticket : Nat) (s : σ) :
    (p.notified ticket s).1.isNone = p.isWatching ticket s := by
  simp only [notified, isWatching]
  split <;> simp_all

theorem eq_of_parked (here : p.In s) (h : Parked p k (Async.await (p.notified ticket))) :
    k = ticket := by
  -- The two differ where one of them alone is in line.
  have apart := h (p.put { signal := { waiters := [(k, 0)] } } s)
  rw [isNone_notified, isWatching, isWatching, here] at apart
  simpa [Cancellation.isWatching, Signal.isWaiting] using apart

theorem heeded_awaited (lawful : p.Lawful) : p.regard.Heeded p.awaited := by
  refine ⟨fun s hs => ⟨respects_register lawful hs.here, ?_, fun _ parked => False.elim parked⟩,
    fun _ => id⟩
  refine ⟨fun t ht => respects_leave lawful ht.here _, fun t ht => ?_,
    fun _ => ⟨trivial, fun _ => id⟩⟩
  have drawn : p.nextTicket s < p.nextTicket t := by
    have tickets : p.nextTicket (p.register s).2 ≤ p.nextTicket t := ht.tickets
    rwa [nextTicket_register (p := p) hs.here] at tickets
  refine ⟨.refl p t, ?_⟩
  let rest : Async σ Unit :=
    if p.isCancelled t then pure () else Async.await (p.notified (p.nextTicket s))
  change Heeds p.regard (p.nextTicket t) rest ∧
    ∀ k, Parked p k rest → p.isCancelled t = false ∧ k < p.nextTicket t
  cases up : p.isCancelled t with
  | true => simp only [rest, up]; exact ⟨trivial, fun _ => False.elim⟩
  | false =>
    simp only [rest, up]
    refine ⟨fun u _ => ⟨.refl p u, .refl p u, fun _ _ => ⟨trivial, fun _ => id⟩⟩, ?_⟩
    intro k parked
    rw [eq_of_parked hs.here parked]
    exact ⟨trivial, drawn⟩

section Ending

variable {steps : List (σ × σ)} {a : Async σ Unit}

theorem steps_park (up : p.isCancelled s = true) (go : Passes (p.park ticket) steps a)
    (notified : ∀ k, Parked p k a → p.isWatching k s = false) : ∃ t, Steps a s (.done ()) t := by
  have looked {b : Bool} {after : List (σ × σ)}
      (go : Passes (if b then pure () else Async.await (p.notified ticket)) after a) :
      ∃ t, Steps a s (.done ()) t := by
    cases b with
    | true =>
      obtain ⟨_, rfl⟩ := Passes.of_done go
      exact ⟨s, .refl⟩
    | false =>
      obtain rfl | ⟨⟨⟩, rfl, _⟩ := Passes.of_await go
      · have free : (p.look s).isWatching ticket = false :=
          notified ticket (isNone_notified ticket)
        exact ⟨_, .head (.ready _ _ (b := ()) (by simp [CancellationPlace.notified, free])) .refl⟩
      · exact ⟨s, .refl⟩
  obtain ⟨a', first, rfl⟩ | ⟨b, _, after, _, _, goesOn⟩ := Passes.of_bind go
  · obtain ⟨_, rfl⟩ | ⟨t, _, rfl⟩ := first.of_act
    · have up : (p.look s).cancelled = true := up
      refine ⟨s, .head .work ?_⟩
      simp only [up]
      exact .refl
    · exact looked .stay
  · exact looked goesOn

theorem steps_awaited (here : p.In s) (up : p.isCancelled s = true)
    (go : Passes p.awaited steps a) (notified : ∀ k, Parked p k a → p.isWatching k s = false) :
    ∃ t, Steps a s (.done ()) t := by
  have registered {ticket : Nat} {after : List (σ × σ)}
      (go : Passes (Async.ensuring (p.edit fun c => c.leave ticket) (p.park ticket)) after a) :
      ∃ t, Steps a s (.done ()) t := by
    obtain ⟨a', inner, rfl⟩ | ⟨⟨⟩, _, _, _, _, rfl⟩ := go.of_ensuring
    · obtain ⟨t, ends⟩ := steps_park up inner notified
      exact ⟨_, (ends.within .inside).tail .release⟩
    · exact ⟨s, .refl⟩
  obtain ⟨a', first, rfl⟩ | ⟨ticket, _, after, _, _, goesOn⟩ := Passes.of_bind go
  · obtain ⟨_, rfl⟩ | ⟨t, _, rfl⟩ := first.of_act
    · have up : p.isCancelled (p.register s).2 = true := by rwa [isCancelled_register here]
      have here : Passes (p.park (p.register s).1) [] (p.park (p.register s).1) := .stay
      obtain ⟨t, ends⟩ := steps_park up here fun _ => False.elim
      exact ⟨_, .head .work ((ends.within .inside).tail .release)⟩
    · exact registered .stay
  · exact registered goesOn

end Ending

end CancellationPlace

end EventTracking
