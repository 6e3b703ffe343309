import EventTracking.Async
import Mathlib.Logic.Relation

set_option autoImplicit false

namespace EventTracking.Async

variable {σ α β γ : Type}

inductive Step : {α : Type} → Async σ α → σ → Async σ α → σ → Prop where
  | work {α β : Type} {f : σ → β × σ} {next : β → Async σ α} {s : σ} :
      Step (.step f next) s (next (f s).1) (f s).2
  | ready {α β : Type} {look : σ → Option β × σ} (leave : σ → σ) (next : β → Async σ α) {s : σ}
      {b : β} (now : (look s).1 = some b) : Step (.wait look leave next) s (next b) (look s).2
  -- A wait that is looked at too early goes on.
  | early {α β : Type} {look : σ → Option β × σ} (leave : σ → σ) (next : β → Async σ α) {s : σ}
      (later : (look s).1 = none) :
      Step (.wait look leave next) s (.wait look leave next) (look s).2
  | inside {α β : Type} {release : σ → σ} {a a' : Async σ β} {next : β → Async σ α} {s s' : σ}
      (step : Step a s a' s') : Step (.guarded release a next) s (.guarded release a' next) s'
  | release {α β : Type} {release : σ → σ} {b : β} {next : β → Async σ α} {s : σ} :
      Step (.guarded release (.done b) next) s (next b) (release s)
  | left {α β γ : Type} {a a' : Async σ β} {b : Async σ γ} {next : β → γ → Async σ α} {s s' : σ}
      (step : Step a s a' s') : Step (.both a b next) s (.both a' b next) s'
  | right {α β γ : Type} {a : Async σ β} {b b' : Async σ γ} {next : β → γ → Async σ α} {s s' : σ}
      (step : Step b s b' s') : Step (.both a b next) s (.both a b' next) s'
  | join {α β γ : Type} {x : β} {y : γ} {next : β → γ → Async σ α} {s : σ} :
      Step (.both (.done x) (.done y) next) s (next x y) s
  | leftLeg {α β γ : Type} {a a' : Async σ β} {b : Async σ γ} {next : β ⊕ γ → Async σ α} {s s' : σ}
      (step : Step a s a' s') : Step (.race a b next) s (.race a' b next) s'
  | rightLeg {α β γ : Type} {a : Async σ β} {b b' : Async σ γ} {next : β ⊕ γ → Async σ α}
      {s s' : σ} (step : Step b s b' s') : Step (.race a b next) s (.race a b' next) s'
  | leftWins {α β γ : Type} {x : β} {b : Async σ γ} {next : β ⊕ γ → Async σ α} {s : σ} :
      Step (.race (.done x) b next) s (next (.inl x)) (b.abandon s)
  | rightWins {α β γ : Type} {a : Async σ β} {y : γ} {next : β ⊕ γ → Async σ α} {s : σ} :
      Step (.race a (.done y) next) s (next (.inr y)) (a.abandon s)
  | round {α β γ : Type} {body : β → Async σ (β ⊕ γ)} {a a' : Async σ (β ⊕ γ)}
      {next : γ → Async σ α} {s s' : σ} (step : Step a s a' s') :
      Step (.loop body a next) s (.loop body a' next) s'
  | again {α β γ : Type} {body : β → Async σ (β ⊕ γ)} {b : β} {next : γ → Async σ α} {s : σ} :
      Step (.loop body (.done (.inl b)) next) s (.loop body (body b) next) s
  | final {α β γ : Type} {body : β → Async σ (β ⊕ γ)} {c : γ} {next : γ → Async σ α} {s : σ} :
      Step (.loop body (.done (.inr c)) next) s (next c) s

inductive Steps : Async σ α → σ → Async σ α → σ → Prop where
  | refl {a : Async σ α} {s : σ} : Steps a s a s
  | head {a b c : Async σ α} {s t u : σ} (step : Step a s b t) (rest : Steps b t c u) :
      Steps a s c u

namespace Steps

theorem trans {a b c : Async σ α} {s t u : σ} (first : Steps a s b t) (second : Steps b t c u) :
    Steps a s c u := by
  induction first with
  | refl => exact second
  | head step _ ih => exact .head step (ih second)

theorem tail {a b c : Async σ α} {s t u : σ} (run : Steps a s b t) (step : Step b t c u) :
    Steps a s c u := run.trans (.head step .refl)

theorem within {f : Async σ β → Async σ α}
    (lift : ∀ {a a' s s'}, Step a s a' s' → Step (f a) s (f a') s') {a b : Async σ β} {s t : σ}
    (run : Steps a s b t) : Steps (f a) s (f b) t := by
  induction run with
  | refl => exact .refl
  | head step _ ih => exact .head (lift step) ih

end Steps

-- The steps that a computation takes itself, each from one state to another. Others may change the
-- state in between.
inductive Passes : Async σ α → List (σ × σ) → Async σ α → Prop where
  | stay {a : Async σ α} : Passes a [] a
  | step {a b c : Async σ α} {s t : σ} {rest : List (σ × σ)} (step : Step a s b t)
      (goesOn : Passes b rest c) : Passes a ((s, t) :: rest) c

namespace Passes

theorem of_done {x : α} {b : Async σ α} {steps : List (σ × σ)} (h : Passes (.done x) steps b) :
    steps = [] ∧ b = .done x := by
  cases h with
  | stay => exact ⟨rfl, rfl⟩
  | step step => cases step

theorem of_guarded {release : σ → σ} {a : Async σ α} {r : α} {steps : List (σ × σ)}
    (h : Passes (ensuring release a) steps (.done r)) :
    ∃ inner s, Passes a inner (.done r) ∧ steps = inner ++ [(s, release s)] := by
  generalize begun : ensuring release a = whole at h
  generalize ended : Async.done r = last at h
  induction h generalizing a with
  | stay => subst ended; cases begun
  | @step _ _ _ s _ _ step goesOn ih =>
    subst begun
    cases step with
    | inside step =>
      obtain ⟨inner, t, passes, rfl⟩ := ih rfl ended
      exact ⟨_, t, .step step passes, rfl⟩
    | release =>
      subst ended
      obtain ⟨rfl, same⟩ := goesOn.of_done
      cases same
      exact ⟨[], s, .stay, rfl⟩

end Passes

@[simp]
def Polled.rest : Polled σ α → Async σ α
  | ready a => .done a
  | pending a => a

def Polled.answer? : Polled σ α → Option α
  | ready a => some a
  | pending _ => none

theorem Polled.rest_of_answer? {p : Polled σ α} {a : α} (h : p.answer? = some a) :
    p.rest = .done a := by
  cases p with
  | ready b => exact congrArg Async.done (Option.some.inj h)
  | pending => cases h

theorem poll_steps (fuel : Nat) (a : Async σ α) (s : σ) :
    Steps a s (a.poll fuel s).1.rest (a.poll fuel s).2 := by
  -- A poll takes one unit of fuel from part to part, so the fuel carries the induction.
  induction fuel generalizing α a s with
  | zero => exact .refl
  | succ fuel ih =>
    cases a with
    | done a => exact .refl
    | step f next => exact .head .work (ih _ _)
    | wait look leave next =>
      rcases h : look s with ⟨_ | b, s'⟩
      · have waits := Step.early leave next (congrArg Prod.fst h)
        simpa [poll, h] using Steps.refl.tail waits
      · have goesOn := Step.ready leave next (congrArg Prod.fst h)
        simpa [poll, h] using Steps.head goesOn (ih (next b) (look s).2)
    | guarded release a next =>
      have inner := Steps.within (f := (.guarded release · next)) .inside (ih a s)
      rcases h : a.poll fuel s with ⟨b | a', s'⟩ <;> rw [h] at inner
      · simpa [poll, h] using inner.trans (.head .release (ih (next b) (release s')))
      · simpa [poll, h] using inner
    | both a b next =>
      have first := Steps.within (f := (.both · b next)) .left (ih a s)
      rcases ha : a.poll fuel s with ⟨x | a', s'⟩ <;> rw [ha] at first
      · have second := Steps.within (f := (.both (.done x) · next)) .right (ih b s')
        rcases hb : b.poll fuel s' with ⟨y | b', s''⟩ <;> rw [hb] at second
        · simpa [poll, ha, hb] using (first.trans second).trans (.head .join (ih (next x y) s''))
        · simpa [poll, ha, hb] using first.trans second
      · have second := Steps.within (f := (.both a' · next)) .right (ih b s')
        rcases hb : b.poll fuel s' with ⟨y | b', s''⟩ <;> rw [hb] at second
        · simpa [poll, ha, hb] using first.trans second
        · simpa [poll, ha, hb] using first.trans second
    | race a b next =>
      have first := Steps.within (f := (.race · b next)) .leftLeg (ih a s)
      rcases ha : a.poll fuel s with ⟨x | a', s'⟩ <;> rw [ha] at first
      · simpa [poll, ha] using first.trans (.head .leftWins (ih (next (.inl x)) (b.abandon s')))
      · have second := Steps.within (f := (.race a' · next)) .rightLeg (ih b s')
        rcases hb : b.poll fuel s' with ⟨y | b', s''⟩ <;> rw [hb] at second
        · simpa [poll, ha, hb] using
            (first.trans second).trans (.head .rightWins (ih (next (.inr y)) (a'.abandon s'')))
        · simpa [poll, ha, hb] using first.trans second
    | loop body a next =>
      have inner := Steps.within (f := (.loop body · next)) .round (ih a s)
      rcases h : a.poll fuel s with ⟨(b | c) | a', s'⟩ <;> rw [h] at inner
      · simpa [poll, h] using inner.trans (.head .again (ih (.loop body (body b) next) s'))
      · simpa [poll, h] using inner.trans (.head .final (ih (next c) s'))
      · simpa [poll, h] using inner

end EventTracking.Async
