import EventTracking.Proofs.Async.Frame

set_option autoImplicit false

namespace EventTracking

structure Protocol (σ L : Type) extends Frame σ where
  moves : L → σ → L → σ → Prop
  -- The roles in which a computation may wait.
  rests : L → Prop
  moves_quiet : ∀ l {s t}, always s → quiet s t → moves l s l t

namespace Async

variable {σ L α β γ : Type}

def Obeys (P : Protocol σ L) : {α : Type} → L → Async σ α → (L → α → Prop) → Prop
  | _, l, done a, Q => Q l a
  | _, l, step f next, Q => ∀ s, P.always s →
    ∃ l', P.moves l s l' (f s).2 ∧ Obeys P l' (next (f s).1) Q
  | _, l, wait look _ next, Q => P.rests l ∧ ∀ s, P.always s →
    ((look s).1 = none → P.moves l s l (look s).2) ∧
      ∀ b, (look s).1 = some b → ∃ l', P.moves l s l' (look s).2 ∧ Obeys P l' (next b) Q
  | _, l, guarded release a next, Q => Obeys P l a fun l b => ∀ s, P.always s →
    ∃ l', P.moves l s l' (release s) ∧ Obeys P l' (next b) Q
  | _, l, both a b next, Q =>
    P.rests l ∧ Keeps P.toFrame a ∧ Keeps P.toFrame b ∧ ∀ x y, Obeys P l (next x y) Q
  | _, l, race a b next, Q =>
    Keeps P.toFrame a ∧ Keeps P.toFrame b ∧
      (P.rests l ∧ (∀ r, Obeys P l (next r) Q) ∨
        Obeys P l a (fun l x => Obeys P l (next (.inl x)) Q) ∧ ∀ l y, Obeys P l (next (.inr y)) Q)
  | _, l, @loop _ _ β _ body a next, Q =>
    ∃ I : L → β → Prop,
      (∀ l b, I l b → Obeys P l (body b) fun l => Sum.elim (I l) fun c => Obeys P l (next c) Q) ∧
        Obeys P l a fun l => Sum.elim (I l) fun c => Obeys P l (next c) Q

namespace Obeys

variable {P : Protocol σ L} {l : L}

theorem mono {a : Async σ α} {Q R : L → α → Prop} (h : Obeys P l a Q)
    (weaker : ∀ l x, Q l x → R l x) : Obeys P l a R := by
  induction a generalizing l with
  | done x => exact weaker l x h
  | step f next ih =>
    intro s hs
    obtain ⟨l', moves, rest⟩ := h s hs
    exact ⟨l', moves, ih _ rest weaker⟩
  | wait look leave next ih =>
    refine ⟨h.1, fun s hs => ⟨(h.2 s hs).1, fun b hb => ?_⟩⟩
    obtain ⟨l', moves, rest⟩ := (h.2 s hs).2 b hb
    exact ⟨l', moves, ih b rest weaker⟩
  | guarded release a next iha ih =>
    refine iha h fun l b released s hs => ?_
    obtain ⟨l', moves, rest⟩ := released s hs
    exact ⟨l', moves, ih b rest weaker⟩
  | both a b next _ _ ih =>
    exact ⟨h.1, h.2.1, h.2.2.1, fun x y => ih x y (h.2.2.2 x y) weaker⟩
  | race a b next iha _ ih =>
    obtain ⟨ha, hb, ⟨rests, still⟩ | ⟨first, second⟩⟩ := h
    · exact ⟨ha, hb, .inl ⟨rests, fun r => ih r (still r) weaker⟩⟩
    · exact ⟨ha, hb, .inr ⟨iha first fun l x rest => ih _ rest weaker,
        fun l y => ih _ (second l y) weaker⟩⟩
  | loop body a next ihb iha ih =>
    -- The invariant of the rounds stays; only what follows the last one is weakened.
    obtain ⟨I, rounds, now⟩ := h
    have ending : ∀ l r, Sum.elim (I l) (fun c => Obeys P l (next c) Q) r →
        Sum.elim (I l) (fun c => Obeys P l (next c) R) r := by
      rintro l (b | c) hr
      · exact hr
      · exact ih c hr weaker
    exact ⟨I, fun l b hb => ihb b (rounds l b hb) ending, iha now ending⟩

theorem bind {a : Async σ α} {k : α → Async σ β} {Q : L → β → Prop}
    (h : Obeys P l a fun l x => Obeys P l (k x) Q) : Obeys P l (a >>= k) Q := by
  change Obeys P l (a.bind k) Q
  induction a generalizing l with
  | done x => exact h
  | step f next ih =>
    intro s hs
    obtain ⟨l', moves, rest⟩ := h s hs
    exact ⟨l', moves, ih _ rest⟩
  | wait look leave next ih =>
    refine ⟨h.1, fun s hs => ⟨(h.2 s hs).1, fun b hb => ?_⟩⟩
    obtain ⟨l', moves, rest⟩ := (h.2 s hs).2 b hb
    exact ⟨l', moves, ih b rest⟩
  | guarded release a next _ ih =>
    have ending : Obeys P l a fun l b => ∀ s, P.always s →
        ∃ l', P.moves l s l' (release s) ∧ Obeys P l' (next b) fun l x => Obeys P l (k x) Q := h
    refine ending.mono fun l b released s hs => ?_
    obtain ⟨l', moves, rest⟩ := released s hs
    exact ⟨l', moves, ih b rest⟩
  | both a b next _ _ ih => exact ⟨h.1, h.2.1, h.2.2.1, fun x y => ih x y (h.2.2.2 x y)⟩
  | race a b next _ _ ih =>
    obtain ⟨ha, hb, ⟨rests, still⟩ | ⟨first, second⟩⟩ := h
    · exact ⟨ha, hb, .inl ⟨rests, fun r => ih r (still r)⟩⟩
    · exact ⟨ha, hb, .inr ⟨first.mono fun l x rest => ih _ rest, fun l y => ih _ (second l y)⟩⟩
  | loop body a next _ _ ih =>
    obtain ⟨I, rounds, now⟩ := h
    have ending : ∀ l r,
        Sum.elim (I l) (fun c => Obeys P l (next c) fun l x => Obeys P l (k x) Q) r →
        Sum.elim (I l) (fun c => Obeys P l ((next c).bind k) Q) r := by
      rintro l (b | c) hr
      · exact hr
      · exact ih c hr
    exact ⟨I, fun l b hb => mono (rounds l b hb) ending, mono now ending⟩

theorem widen {P' : Protocol σ L} {a : Async σ α} {Q : L → α → Prop} (h : Obeys P l a Q)
    (always : ∀ {s}, P'.always s → P.always s) (quiet : ∀ {s t}, P.quiet s t → P'.quiet s t)
    (rests : ∀ {l}, P.rests l → P'.rests l)
    (moves : ∀ {l s l' t}, P.moves l s l' t → P'.moves l s l' t) : Obeys P' l a Q := by
  have keeps {β : Type} {b : Async σ β} (h : Keeps P.toFrame b) : Keeps P'.toFrame b :=
    h.widen always quiet
  induction a generalizing l with
  | done x => exact h
  | step f next ih =>
    intro s hs
    obtain ⟨l', move, rest⟩ := h s (always hs)
    exact ⟨l', moves move, ih _ rest⟩
  | wait look leave next ih =>
    refine ⟨rests h.1, fun s hs => ⟨fun later => moves ((h.2 s (always hs)).1 later), ?_⟩⟩
    intro b hb
    obtain ⟨l', move, rest⟩ := (h.2 s (always hs)).2 b hb
    exact ⟨l', moves move, ih b rest⟩
  | guarded release a next iha ih =>
    refine (iha h).mono fun l b released s hs => ?_
    obtain ⟨l', move, rest⟩ := released s (always hs)
    exact ⟨l', moves move, ih b rest⟩
  | both a b next _ _ ih =>
    exact ⟨rests h.1, keeps h.2.1, keeps h.2.2.1, fun x y => ih x y (h.2.2.2 x y)⟩
  | race a b next iha _ ih =>
    obtain ⟨ha, hb, ⟨still, all⟩ | ⟨first, second⟩⟩ := h
    · exact ⟨keeps ha, keeps hb, .inl ⟨rests still, fun r => ih r (all r)⟩⟩
    · exact ⟨keeps ha, keeps hb, .inr ⟨(iha first).mono fun l x rest => ih _ rest,
        fun l y => ih _ (second l y)⟩⟩
  | loop body a next ihb iha ih =>
    obtain ⟨I, rounds, now⟩ := h
    have ending : ∀ l r, Sum.elim (I l) (fun c => Obeys P l (next c) Q) r →
        Sum.elim (I l) (fun c => Obeys P' l (next c) Q) r := by
      rintro l (b | c) hr
      · exact hr
      · exact ih c hr
    exact ⟨I, fun l b hb => (ihb b (rounds l b hb)).mono ending, (iha now).mono ending⟩

theorem act {f : σ → α × σ} {Q : L → α → Prop}
    (h : ∀ s, P.always s → ∃ l', P.moves l s l' (f s).2 ∧ Q l' (f s).1) :
    Obeys P l (Async.act f) Q := h

theorem get {f : σ → α} {Q : L → α → Prop} (h : ∀ s, P.always s → Q l (f s)) :
    Obeys P l (Async.get f) Q :=
  fun s hs => ⟨l, P.moves_quiet l hs (P.quiet_refl s), h s hs⟩

theorem ensuring {release : σ → σ} {a : Async σ α} {Q : L → α → Prop}
    (h : Obeys P l a fun l x => ∀ s, P.always s → ∃ l', P.moves l s l' (release s) ∧ Q l' x) :
    Obeys P l (Async.ensuring release a) Q := h

theorem iterate {body : β → Async σ (β ⊕ γ)} {start : β} {Q : L → γ → Prop} (I : L → β → Prop)
    (rounds : ∀ l b, I l b → Obeys P l (body b) fun l => Sum.elim (I l) (Q l)) (first : I l start) :
    Obeys P l (Async.iterate body start) Q :=
  ⟨I, rounds, rounds l start first⟩

theorem of_keeps {a : Async σ α} {Q : L → α → Prop} (h : Keeps P.toFrame a) (rests : P.rests l)
    (any : ∀ x, Q l x) : Obeys P l a Q := by
  induction a with
  | done x => exact any x
  | step f next ih =>
    intro s hs
    exact ⟨l, P.moves_quiet l hs (h s hs).1, ih _ (h s hs).2 any⟩
  | wait look leave next ih =>
    refine ⟨rests, fun s hs => ?_⟩
    obtain ⟨looks, _, goesOn⟩ := h s hs
    have quiet := P.moves_quiet l hs looks
    exact ⟨fun _ => quiet, fun b hb => ⟨l, quiet, ih b (goesOn b hb) any⟩⟩
  | guarded release a next iha ih =>
    refine iha h.2.1 fun b s hs => ?_
    exact ⟨l, P.moves_quiet l hs (h.1 s hs), ih b (h.2.2 b) any⟩
  | both a b next _ _ ih => exact ⟨rests, h.1, h.2.1, fun x y => ih x y (h.2.2 x y) any⟩
  | race a b next _ _ ih => exact ⟨h.1, h.2.1, .inl ⟨rests, fun r => ih r (h.2.2 r) any⟩⟩
  | @loop α β γ body a next ihb iha ih =>
    -- What is quiet leaves the role alone, so the role itself is the invariant of the rounds.
    have ending : ∀ r, Sum.elim (fun _ : β => l = l) (fun c => Obeys P l (next c) Q) r := by
      rintro (b | c)
      · rfl
      · exact ih c (h.2.2 c) any
    refine ⟨fun l' _ => l' = l, ?_, iha h.2.1 ending⟩
    rintro _ b rfl
    exact ihb b (h.1 b) ending

theorem keeps_bind {a : Async σ α} {k : α → Async σ β} {Q : L → β → Prop}
    (first : Keeps P.toFrame a) (rests : P.rests l) (rest : ∀ x, Obeys P l (k x) Q) :
    Obeys P l (a >>= k) Q := bind (of_keeps first rests rest)

theorem step {a a' : Async σ α} {s s' : σ} {Q : L → α → Prop} (h : Obeys P l a Q)
    (hs : P.always s) (go : Step a s a' s') : ∃ l', P.moves l s l' s' ∧ Obeys P l' a' Q := by
  -- By induction on where the step is taken: outside of parts that run beside each other, the role
  -- is handed inwards, and the role that comes back is that of the whole.
  induction go generalizing l with
  | work => exact h _ hs
  | ready leave next now => exact (h.2 _ hs).2 _ now
  | early leave next later => exact ⟨l, (h.2 _ hs).1 later, h⟩
  | inside _ ih =>
    obtain ⟨l', moves, rest⟩ := ih h hs
    exact ⟨l', moves, rest⟩
  | release => exact h _ hs
  | left step _ =>
    obtain ⟨quiet, keeps⟩ := h.2.1.step hs step
    exact ⟨l, P.moves_quiet l hs quiet, h.1, keeps, h.2.2⟩
  | right step _ =>
    obtain ⟨quiet, keeps⟩ := h.2.2.1.step hs step
    exact ⟨l, P.moves_quiet l hs quiet, h.1, h.2.1, keeps, h.2.2.2⟩
  | join => exact ⟨l, P.moves_quiet l hs (P.quiet_refl _), h.2.2.2 _ _⟩
  | leftLeg step ih =>
    obtain ⟨ha, hb, still | ⟨first, second⟩⟩ := h
    · obtain ⟨quiet, keeps⟩ := ha.step hs step
      exact ⟨l, P.moves_quiet l hs quiet, keeps, hb, .inl still⟩
    · obtain ⟨l', moves, rest⟩ := ih first hs
      exact ⟨l', moves, (ha.step hs step).2, hb, .inr ⟨rest, second⟩⟩
  | rightLeg step _ =>
    obtain ⟨quiet, keeps⟩ := h.2.1.step hs step
    exact ⟨l, P.moves_quiet l hs quiet, h.1, keeps, h.2.2⟩
  | leftWins =>
    obtain ⟨_, hb, ⟨_, still⟩ | ⟨first, _⟩⟩ := h
    · exact ⟨l, P.moves_quiet l hs (hb.abandon hs), still _⟩
    · exact ⟨l, P.moves_quiet l hs (hb.abandon hs), first⟩
  | rightWins =>
    obtain ⟨ha, _, ⟨_, still⟩ | ⟨_, second⟩⟩ := h
    · exact ⟨l, P.moves_quiet l hs (ha.abandon hs), still _⟩
    · exact ⟨l, P.moves_quiet l hs (ha.abandon hs), second l _⟩
  | round _ ih =>
    obtain ⟨I, rounds, now⟩ := h
    obtain ⟨l', moves, rest⟩ := ih now hs
    exact ⟨l', moves, I, rounds, rest⟩
  | again =>
    obtain ⟨I, rounds, now⟩ := h
    exact ⟨l, P.moves_quiet l hs (P.quiet_refl _), I, rounds, rounds l _ now⟩
  | final =>
    obtain ⟨_, _, now⟩ := h
    exact ⟨l, P.moves_quiet l hs (P.quiet_refl _), now⟩

theorem passes {a b : Async σ α} {steps : List (σ × σ)} {Q : L → α → Prop} (h : Obeys P l a Q)
    (always : ∀ s, P.always s) (go : Passes a steps b) : ∃ l', Obeys P l' b Q := by
  induction go generalizing l with
  | stay => exact ⟨l, h⟩
  | step step _ ih =>
    obtain ⟨_, _, rest⟩ := h.step (always _) step
    exact ih rest

end Obeys

def lax (σ : Type) : Protocol σ Unit where
  always _ := True
  quiet _ _ := True
  quiet_refl _ := trivial
  quiet_trans _ _ := trivial
  always_quiet _ _ := trivial
  moves _ _ _ _ := True
  rests _ := True
  moves_quiet _ _ _ _ _ := trivial

theorem keeps_lax (a : Async σ α) : Keeps (lax σ).toFrame a := by
  induction a with
  | done => trivial
  | step f next ih => exact fun s _ => ⟨trivial, ih _⟩
  | wait look leave next ih => exact fun s _ => ⟨trivial, trivial, fun b _ => ih b⟩
  | guarded release a next iha ih => exact ⟨fun _ _ => trivial, iha, ih⟩
  | both a b next iha ihb ih => exact ⟨iha, ihb, ih⟩
  | race a b next iha ihb ih => exact ⟨iha, ihb, ih⟩
  | loop body a next ihb iha ih => exact ⟨ihb, iha, ih⟩

end Async

end EventTracking
