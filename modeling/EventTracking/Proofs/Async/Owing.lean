import EventTracking.Proofs.Async.Frame

set_option autoImplicit false

namespace EventTracking

structure Upkeep (σ : Type) extends Frame σ where
  good : σ → Prop
  -- What else is known of all states.
  known : σ → Prop

def Upkeep.calm {σ : Type} (U : Upkeep σ) : Frame σ where
  always := U.always
  quiet s t := U.quiet s t ∧ (U.good s → U.good t)
  quiet_refl s := ⟨U.quiet_refl s, id⟩
  quiet_trans first second := ⟨U.quiet_trans first.1 second.1, second.2 ∘ first.2⟩
  always_quiet hs quiet := U.always_quiet hs quiet.1

namespace Async

variable {σ α β γ : Type} {U : Upkeep σ} {repair : σ → Unit × σ}

-- Whether the next step of a computation is `repair`.
inductive Owes (repair : σ → Unit × σ) : {α : Type} → Async σ α → Prop
  | now {α : Type} (next : Unit → Async σ α) : Owes repair (.step repair next)
  | inside {α β : Type} (release : σ → σ) {a : Async σ β} (next : β → Async σ α)
      (owes : Owes repair a) : Owes repair (.guarded release a next)
  | round {α β γ : Type} (body : β → Async σ (β ⊕ γ)) {a : Async σ (β ⊕ γ)}
      (next : γ → Async σ α) (owes : Owes repair a) : Owes repair (.loop body a next)

namespace Owes

theorem not_done {x : α} (owes : Owes repair (.done x : Async σ α)) : False := by
  cases owes

theorem bind {a : Async σ α} (owes : Owes repair a) (k : α → Async σ β) :
    Owes repair (a.bind k) := by
  cases owes with
  | now next => exact .now _
  | inside release next owes => exact .inside release _ owes
  | round body next owes => exact .round body _ owes

theorem step {a a' : Async σ α} {s t : σ} (owes : Owes repair a) (go : Step a s a' t) :
    t = (repair s).2 := by
  induction go with
  | work =>
    cases owes
    rfl
  | inside _ ih =>
    cases owes with
    | inside _ _ owes => exact ih owes
  | release =>
    cases owes with
    | inside _ _ owes => exact owes.not_done.elim
  | round _ ih =>
    cases owes with
    | round _ _ owes => exact ih owes
  | again | final =>
    cases owes with
    | round _ _ owes => exact owes.not_done.elim
  | ready | early | left | right | join | leftLeg | rightLeg | leftWins | rightWins => cases owes

end Owes

def Amends (U : Upkeep σ) (repair : σ → Unit × σ) : {α : Type} → Async σ α → Prop
  | _, done _ => True
  | _, step f next => ∀ s, U.always s → U.quiet s (f s).2 ∧
    ((U.known s → U.known (f s).2 → U.good s → U.good (f s).2) ∨ Owes repair (next (f s).1)) ∧
      Amends U repair (next (f s).1)
  | _, wait look _ next => ∀ s, U.always s →
    U.calm.quiet s (look s).2 ∧ ∀ b, (look s).1 = some b → Amends U repair (next b)
  | _, guarded release a next =>
    (∀ s, U.always s → U.calm.quiet s (release s)) ∧ Amends U repair a ∧
      ∀ b, Amends U repair (next b)
  | _, both a b next => Keeps U.calm a ∧ Keeps U.calm b ∧ ∀ x y, Amends U repair (next x y)
  | _, race a b next => Keeps U.calm a ∧ Keeps U.calm b ∧ ∀ r, Amends U repair (next r)
  | _, loop body a next =>
    (∀ b, Amends U repair (body b)) ∧ Amends U repair a ∧ ∀ c, Amends U repair (next c)

namespace Amends

theorem of_keeps {a : Async σ α} (h : Keeps U.calm a) : Amends U repair a := by
  induction a with
  | done => trivial
  | step f next ih =>
    intro s hs
    obtain ⟨⟨quiet, good⟩, goesOn⟩ := h s hs
    exact ⟨quiet, .inl fun _ _ => good, ih _ goesOn⟩
  | wait look leave next ih =>
    intro s hs
    obtain ⟨looks, _, goesOn⟩ := h s hs
    exact ⟨looks, fun b hb => ih b (goesOn b hb)⟩
  | guarded release a next iha ih => exact ⟨h.1, iha h.2.1, fun b => ih b (h.2.2 b)⟩
  | both a b next _ _ ih => exact ⟨h.1, h.2.1, fun x y => ih x y (h.2.2 x y)⟩
  | race a b next _ _ ih => exact ⟨h.1, h.2.1, fun r => ih r (h.2.2 r)⟩
  | loop body a next ihb iha ih =>
    exact ⟨fun b => ihb b (h.1 b), iha h.2.1, fun c => ih c (h.2.2 c)⟩

theorem bind {a : Async σ α} {k : α → Async σ β} (first : Amends U repair a)
    (rest : ∀ x, Amends U repair (k x)) : Amends U repair (a >>= k) := by
  change Amends U repair (a.bind k)
  induction a with
  | done x => exact rest x
  | step f next ih =>
    intro s hs
    obtain ⟨quiet, kept, goesOn⟩ := first s hs
    exact ⟨quiet, kept.imp_right fun owes => owes.bind k, ih _ goesOn rest⟩
  | wait look leave next ih =>
    intro s hs
    obtain ⟨looks, goesOn⟩ := first s hs
    exact ⟨looks, fun b hb => ih b (goesOn b hb) rest⟩
  | guarded release a next _ ih => exact ⟨first.1, first.2.1, fun b => ih b (first.2.2 b) rest⟩
  | both a b next _ _ ih => exact ⟨first.1, first.2.1, fun x y => ih x y (first.2.2 x y) rest⟩
  | race a b next _ _ ih => exact ⟨first.1, first.2.1, fun r => ih r (first.2.2 r) rest⟩
  | loop body a next _ _ ih => exact ⟨first.1, first.2.1, fun c => ih c (first.2.2 c) rest⟩

theorem iterate {body : β → Async σ (β ⊕ γ)} (h : ∀ b, Amends U repair (body b)) (start : β) :
    Amends U repair (Async.iterate body start) := ⟨h, h start, fun _ => trivial⟩

theorem composes : Composes (Amends U repair) where
  pure _ := trivial
  get _ := of_keeps (Keeps.get _)
  bind := bind
  iterate := iterate

structure Stepped (U : Upkeep σ) (repair : σ → Unit × σ) (s t : σ) (a : Async σ α) : Prop where
  quiet : U.quiet s t
  kept : (U.known s → U.known t → U.good s → U.good t) ∨ Owes repair a
  rest : Amends U repair a

theorem Stepped.of_calm {s t : σ} {a : Async σ α} (calm : U.calm.quiet s t)
    (rest : Amends U repair a) : Stepped U repair s t a :=
  ⟨calm.1, .inl fun _ _ => calm.2, rest⟩

theorem step {a a' : Async σ α} {s t : σ} (h : Amends U repair a) (hs : U.always s)
    (go : Step a s a' t) : Stepped U repair s t a' := by
  have still : U.calm.quiet s s := U.calm.quiet_refl s
  induction go with
  | work =>
    obtain ⟨quiet, kept, rest⟩ := h _ hs
    exact ⟨quiet, kept, rest⟩
  | ready leave next now =>
    obtain ⟨looks, goesOn⟩ := h _ hs
    exact .of_calm looks (goesOn _ now)
  | early => exact .of_calm (h _ hs).1 h
  | @inside _ _ release _ _ next _ _ _ ih =>
    obtain ⟨quiet, kept, rest⟩ := ih h.2.1 hs still
    exact ⟨quiet, kept.imp_right (.inside release next), h.1, rest, h.2.2⟩
  | release => exact .of_calm (h.1 _ hs) (h.2.2 _)
  | left step =>
    obtain ⟨calm, keeps⟩ := h.1.step hs step
    exact .of_calm calm ⟨keeps, h.2⟩
  | right step =>
    obtain ⟨calm, keeps⟩ := h.2.1.step hs step
    exact .of_calm calm ⟨h.1, keeps, h.2.2⟩
  | join => exact .of_calm still (h.2.2 _ _)
  | leftLeg step =>
    obtain ⟨calm, keeps⟩ := h.1.step hs step
    exact .of_calm calm ⟨keeps, h.2⟩
  | rightLeg step =>
    obtain ⟨calm, keeps⟩ := h.2.1.step hs step
    exact .of_calm calm ⟨h.1, keeps, h.2.2⟩
  | leftWins => exact .of_calm (h.2.1.abandon hs) (h.2.2 _)
  | rightWins => exact .of_calm (h.1.abandon hs) (h.2.2 _)
  | @round _ _ _ body _ _ next _ _ _ ih =>
    obtain ⟨quiet, kept, rest⟩ := ih h.2.1 hs still
    exact ⟨quiet, kept.imp_right (.round body next), h.1, rest, h.2.2⟩
  | again => exact .of_calm still ⟨h.1, h.1 _, h.2.2⟩
  | final => exact .of_calm still (h.2.2 _)

end Amends

end Async

end EventTracking
