import EventTracking.Proofs.Async.Step

set_option autoImplicit false

namespace EventTracking.Async

open Relation (ReflTransGen)

variable {σ α β : Type} {R : σ → σ → Prop}

inductive Goes (R : σ → σ → Prop) : Async σ α → σ → Async σ α → σ → Prop where
  | refl {a : Async σ α} {s : σ} : Goes R a s a s
  | step {a b c : Async σ α} {s t u : σ} (step : Step a s b t) (rest : Goes R b t c u) :
      Goes R a s c u
  | outside {a c : Async σ α} {s t u : σ} (change : R s t) (rest : Goes R a t c u) :
      Goes R a s c u

namespace Goes

theorem trans {a b c : Async σ α} {s t u : σ} (first : Goes R a s b t) (second : Goes R b t c u) :
    Goes R a s c u := by
  induction first with
  | refl => exact second
  | step step _ ih => exact .step step (ih second)
  | outside change _ ih => exact .outside change (ih second)

theorem of_outside {a : Async σ α} {s t : σ} (changes : ReflTransGen R s t) : Goes R a s a t := by
  induction changes with
  | refl => exact .refl
  | tail _ change ih => exact ih.trans (.outside change .refl)

theorem of_steps {a b : Async σ α} {s t : σ} (steps : Steps a s b t) : Goes R a s b t := by
  induction steps with
  | refl => exact .refl
  | head step _ ih => exact .step step ih

theorem within {f : Async σ β → Async σ α}
    (lift : ∀ {a a' s s'}, Step a s a' s' → Step (f a) s (f a') s') {a b : Async σ β} {s t : σ}
    (run : Goes R a s b t) : Goes R (f a) s (f b) t := by
  induction run with
  | refl => exact .refl
  | step step _ ih => exact .step (lift step) ih
  | outside change _ ih => exact .outside change ih

end Goes

def Achieves (R : σ → σ → Prop) : {α : Type} → Async σ α → (α → σ → Prop) → σ → Prop
  | _, done x, Q, s => ∀ t, ReflTransGen R s t → Q x t
  | _, step f next, Q, s => ∀ t, ReflTransGen R s t → Achieves R (next (f t).1) Q (f t).2
  | _, wait look _ next, Q, s => ∀ t, ReflTransGen R s t →
    (∃ u, ReflTransGen R t u ∧ (look u).1 ≠ none) ∧
      ((look t).1 = none → ReflTransGen R t (look t).2) ∧
      ∀ b, (look t).1 = some b → Achieves R (next b) Q (look t).2
  | _, guarded release a next, Q, s =>
    Achieves R a (fun b t => Achieves R (next b) Q (release t)) s
  | _, both _ _ _, _, _ | _, race _ _ _, _, _ | _, loop _ _ _, _, _ => False

namespace Achieves

variable {Q : α → σ → Prop} {s t : σ}

theorem later {a : Async σ α} (h : Achieves R a Q s) (changes : ReflTransGen R s t) :
    Achieves R a Q t := by
  induction a generalizing s t with
  | done | step | wait => exact fun u more => h u (changes.trans more)
  | guarded release a next ih _ => exact ih h changes
  | both | race | loop => exact h

theorem mono {a : Async σ α} {Q' : α → σ → Prop} (h : Achieves R a Q s)
    (weaker : ∀ x t, Q x t → Q' x t) : Achieves R a Q' s := by
  induction a generalizing s with
  | done x => exact fun t changes => weaker x t (h t changes)
  | step f next ih => exact fun t changes => ih _ (h t changes) weaker
  | wait look leave next ih =>
    intro t changes
    obtain ⟨ends, early, goesOn⟩ := h t changes
    exact ⟨ends, early, fun b hb => ih b (goesOn b hb) weaker⟩
  | guarded release a next iha ih => exact iha h fun b t rest => ih b rest weaker
  | both | race | loop => exact h

theorem bind {a : Async σ α} {k : α → Async σ β} {Q : β → σ → Prop}
    (h : Achieves R a (fun x t => Achieves R (k x) Q t) s) : Achieves R (a >>= k) Q s := by
  change Achieves R (a.bind k) Q s
  induction a generalizing s with
  | done x => exact h s .refl
  | step f next ih => exact fun t changes => ih _ (h t changes)
  | wait look leave next ih =>
    intro t changes
    obtain ⟨ends, early, goesOn⟩ := h t changes
    exact ⟨ends, early, fun b hb => ih b (goesOn b hb)⟩
  | guarded release a next _ ih =>
    have inner : Achieves R a (fun b t => Achieves R (next b) _ (release t)) s := h
    exact inner.mono fun b t rest => ih b rest
  | both | race | loop => exact h

theorem ensuring {release : σ → σ} {a : Async σ α}
    (h : Achieves R a (fun x t => ∀ u, ReflTransGen R (release t) u → Q x u) s) :
    Achieves R (Async.ensuring release a) Q s := h

theorem step {a b : Async σ α} (h : Achieves R a Q s) (go : Step a s b t) : Achieves R b Q t := by
  induction go with
  | work => exact h _ .refl
  | ready leave next now => exact (h _ .refl).2.2 _ now
  | early leave next later => exact Achieves.later h ((h _ .refl).2.1 later)
  | inside _ ih => exact ih h
  | release => exact h _ .refl
  | left | right | join | leftLeg | rightLeg | leftWins | rightWins | round | again | final =>
    exact h.elim

theorem goes {a b : Async σ α} (h : Achieves R a Q s) (run : Goes R a s b t) :
    Achieves R b Q t := by
  induction run with
  | refl => exact h
  | step step _ ih => exact ih (h.step step)
  | outside change _ ih => exact ih (h.later (.single change))

theorem result {a : Async σ α} {x : α} (h : Achieves R a Q s) (run : Goes R a s (.done x) t) :
    Q x t := h.goes run t .refl

theorem ends {a : Async σ α} (h : Achieves R a Q s) : ∃ x t, Goes R a s (.done x) t := by
  induction a generalizing s with
  | done x => exact ⟨x, s, .refl⟩
  | step f next ih =>
    obtain ⟨x, t, rest⟩ := ih _ (h s .refl)
    exact ⟨x, t, .step .work rest⟩
  | wait look leave next ih =>
    obtain ⟨u, changes, happened⟩ := (h s .refl).1
    obtain ⟨b, found⟩ := Option.ne_none_iff_exists'.1 happened
    obtain ⟨x, t, rest⟩ := ih b ((h u changes).2.2 b found)
    exact ⟨x, t, (Goes.of_outside changes).trans (.step (.ready leave next found) rest)⟩
  | guarded release a next iha ih =>
    have whole : Achieves R a (fun b t => Achieves R (next b) Q (release t)) s := h
    obtain ⟨b, t, inner⟩ := iha whole
    obtain ⟨x, u, rest⟩ := ih b (whole.result inner)
    have around : Goes R (.guarded release a next) s (.guarded release (.done b) next) t :=
      inner.within .inside
    exact ⟨x, u, around.trans (.step .release rest)⟩
  | both | race | loop => exact h.elim

end Achieves

end EventTracking.Async
