import EventTracking.Proofs.Async.Passages
import EventTracking.Proofs.Async.Protocol

set_option autoImplicit false

namespace EventTracking.Async

open Relation (ReflTransGen)

variable {σ α β γ : Type} {R : σ → σ → Prop} {s t u : σ} {steps rest : List (σ × σ)}

inductive Linked (R : σ → σ → Prop) : σ → List (σ × σ) → σ → Prop where
  | last {s t : σ} (changes : ReflTransGen R s t) : Linked R s [] t
  | step {s t u v : σ} {steps : List (σ × σ)} (changes : ReflTransGen R s t)
      (rest : Linked R u steps v) : Linked R s ((t, u) :: steps) v

namespace Linked

theorem before (changes : ReflTransGen R s t) (h : Linked R t steps u) : Linked R s steps u := by
  cases h with
  | last more => exact .last (changes.trans more)
  | step more rest => exact .step (changes.trans more) rest

theorem append (h : Linked R s steps t) (h' : Linked R t rest u) :
    Linked R s (steps ++ rest) u := by
  induction h with
  | last changes => exact h'.before changes
  | step changes _ ih => exact .step changes (ih h')

theorem after (h : Linked R s steps t) (changes : ReflTransGen R t u) : Linked R s steps u := by
  simpa using h.append (.last changes)

theorem split (h : Linked R s (steps ++ rest) u) :
    ∃ t, Linked R s steps t ∧ Linked R t rest u := by
  induction steps generalizing s with
  | nil => exact ⟨s, .last .refl, h⟩
  | cons p steps ih =>
    cases h with
    | step changes goesOn =>
      obtain ⟨t, first, second⟩ := ih goesOn
      exact ⟨t, .step changes first, second⟩

theorem of_cons {v : σ} (h : Linked R s ((t, u) :: steps) v) :
    ReflTransGen R s t ∧ Linked R u steps v := by
  cases h with
  | step changes rest => exact ⟨changes, rest⟩

theorem of_nil (h : Linked R s [] t) : ReflTransGen R s t := by
  cases h with
  | last changes => exact changes

theorem keeps {I : σ → Prop} (outside : ∀ {s t}, I s → R s t → I t)
    (own : ∀ p ∈ steps, I p.1 → I p.2) (h : Linked R s steps t) (hs : I s) : I t := by
  have all {s t : σ} (hs : I s) (changes : ReflTransGen R s t) : I t := by
    induction changes with
    | refl => exact hs
    | tail _ change ih => exact outside ih change
  induction h with
  | last changes => exact all hs changes
  | step changes _ ih =>
    exact ih (fun p hp => own p (by simp [hp])) (own (_, _) (by simp) (all hs changes))

end Linked

structure Trail (R : σ → σ → Prop) (a : Async σ α) (s : σ) (steps : List (σ × σ)) (b : Async σ α)
    (t : σ) : Prop where
  passes : Passes a steps b
  linked : Linked R s steps t

theorem Steps.trail {a b : Async σ α} (h : Steps a s b t) : ∃ steps, Trail R a s steps b t := by
  induction h with
  | refl => exact ⟨[], .stay, .last .refl⟩
  | head step _ ih =>
    obtain ⟨steps, passes, linked⟩ := ih
    exact ⟨_, .step step passes, .step .refl linked⟩

namespace Trail

theorem keeps {F : Frame σ} {a b : Async σ α} (trail : Trail R a s steps b t) (h : Keeps F a)
    (outside : ∀ {s t}, R s t → F.quiet s t) (hs : F.always s) : F.quiet s t := by
  obtain ⟨passes, linked⟩ := trail
  have quiet {s t : σ} (changes : ReflTransGen R s t) : F.quiet s t := by
    induction changes with
    | refl => exact F.quiet_refl s
    | tail _ change ih => exact F.quiet_trans ih (outside change)
  induction passes generalizing s with
  | stay => exact quiet linked.of_nil
  | step step _ ih =>
    obtain ⟨changes, rest⟩ := linked.of_cons
    have here := F.always_quiet hs (quiet changes)
    obtain ⟨own, goesOn⟩ := h.step here step
    exact F.quiet_trans (quiet changes)
      (F.quiet_trans own (ih goesOn (F.always_quiet here own) rest))

theorem moved {L : Type} {P : Protocol σ L} {l : L} {a b : Async σ α} {Q : L → α → Prop}
    (trail : Trail R a s steps b t) (h : Obeys P l a Q)
    (outside : ∀ {s t}, P.always s → R s t → P.always t)
    (own : ∀ {l s l' t}, P.always s → P.moves l s l' t → P.always t) (hs : P.always s) :
    (∀ p ∈ steps, ∃ l l', P.moves l p.1 l' p.2) ∧ ∃ l', Obeys P l' b Q := by
  obtain ⟨passes, linked⟩ := trail
  induction passes generalizing s l with
  | stay => exact ⟨by simp, l, h⟩
  | step step _ ih =>
    obtain ⟨changes, rest⟩ := linked.of_cons
    have here : P.always _ := (Linked.last changes).keeps outside (by simp) hs
    obtain ⟨l', move, goesOn⟩ := h.step here step
    obtain ⟨moves, result⟩ := ih goesOn (own here move) rest
    exact ⟨List.forall_mem_cons.2 ⟨⟨l, l', move⟩, moves⟩, result⟩

end Trail

structure Settles (R : σ → σ → Prop) (a : Async σ α) (s : σ)
    (Q : List (σ × σ) → α → σ → Prop) : Prop where
  ends : ∀ {steps b t}, Trail R a s steps b t → ∃ rest x u, Trail R b t rest (.done x) u
  result : ∀ {steps x t}, Trail R a s steps (.done x) t → Q steps x t

theorem Passes.look {look : σ → Option α × σ} {leave : σ → σ} {b : Async σ α}
    (h : Passes (await look leave) steps b) : ∀ p ∈ steps, p.2 = (look p.1).2 := by
  generalize begun : await look leave = whole at h
  induction h with
  | stay => simp
  | step step goesOn ih =>
    subst begun
    cases step with
    | ready _ _ now =>
      obtain ⟨rfl, _⟩ := Passes.of_done goesOn
      simp
    | early => exact List.forall_mem_cons.2 ⟨rfl, ih rfl⟩

namespace Settles

variable {Q : List (σ × σ) → α → σ → Prop}

theorem mono {Q' : List (σ × σ) → α → σ → Prop} {a : Async σ α} (h : Settles R a s Q)
    (weaker : ∀ steps x t, Q steps x t → Q' steps x t) : Settles R a s Q' :=
  ⟨h.ends, fun trail => weaker _ _ _ (h.result trail)⟩

theorem pure {x : α} (h : ∀ t, ReflTransGen R s t → Q [] x t) :
    Settles R (Pure.pure x : Async σ α) s Q where
  ends {steps b t} trail := by
    obtain ⟨rfl, rfl⟩ := Passes.of_done trail.passes
    exact ⟨[], x, t, .stay, .last .refl⟩
  result {steps y t} trail := by
    obtain ⟨rfl, same⟩ := Passes.of_done trail.passes
    cases same
    exact h t trail.linked.of_nil

theorem act {f : σ → α × σ} (h : ∀ t, ReflTransGen R s t → ∀ u, ReflTransGen R (f t).2 u →
    Q [(t, (f t).2)] (f t).1 u) : Settles R (Async.act f) s Q where
  ends {steps b t} trail := by
    obtain ⟨rfl, rfl⟩ | ⟨v, rfl, rfl⟩ := trail.passes.of_act
    · exact ⟨[(t, (f t).2)], (f t).1, (f t).2, .step .work .stay, .step .refl (.last .refl)⟩
    · exact ⟨[], (f v).1, t, .stay, .last .refl⟩
  result {steps x t} trail := by
    obtain ⟨_, same⟩ | ⟨v, rfl, same⟩ := trail.passes.of_act
    · cases same
    · cases same
      obtain ⟨changes, rest⟩ := trail.linked.of_cons
      exact h v changes t rest.of_nil

theorem await {look : σ → Option α × σ} {leave : σ → σ}
    (happens : ∀ t, ∃ u, ReflTransGen R t u ∧ (look u).1 ≠ none)
    (gives : ∀ steps x t, (∀ p ∈ steps, p.2 = (look p.1).2) → Linked R s steps t → Q steps x t) :
    Settles R (Async.await look leave) s Q where
  ends {steps b t} trail := by
    obtain rfl | ⟨x, rfl, _⟩ := trail.passes.of_await
    · obtain ⟨u, changes, happened⟩ := happens t
      obtain ⟨x, found⟩ := Option.ne_none_iff_exists'.1 happened
      exact ⟨[(u, (look u).2)], x, _, .step (.ready _ _ found) .stay, .step changes (.last .refl)⟩
    · exact ⟨[], x, t, .stay, .last .refl⟩
  result trail := gives _ _ _ trail.passes.look trail.linked

theorem bind {a : Async σ α} {k : α → Async σ β} {Q : List (σ × σ) → β → σ → Prop}
    (h : Settles R a s fun steps x t => Settles R (k x) t fun rest => Q (steps ++ rest)) :
    Settles R (a >>= k) s Q where
  ends {steps b t} trail := by
    obtain ⟨a', passes, rfl⟩ | ⟨x, before, after, rfl, first, second⟩ := trail.passes.of_bind
    · obtain ⟨more, x, u, goes⟩ := h.ends ⟨passes, trail.linked⟩
      obtain ⟨last, y, v, ends⟩ :=
        (h.result ⟨passes.trans goes.passes, trail.linked.append goes.linked⟩).ends
          ⟨.stay, .last .refl⟩
      exact ⟨more ++ last, y, v, goes.passes.bind ends.passes, goes.linked.append ends.linked⟩
    · obtain ⟨u, linked, goesOn⟩ := trail.linked.split
      exact (h.result ⟨first, linked⟩).ends ⟨second, goesOn⟩
  result trail := by
    obtain ⟨x, before, after, rfl, first, second⟩ := trail.passes.of_bind_done
    obtain ⟨u, linked, goesOn⟩ := trail.linked.split
    exact (h.result ⟨first, linked⟩).result ⟨second, goesOn⟩

theorem ensuring {release : σ → σ} {a : Async σ α}
    (h : Settles R a s fun steps x t =>
      ∀ u, ReflTransGen R (release t) u → Q (steps ++ [(t, release t)]) x u) :
    Settles R (Async.ensuring release a) s Q where
  ends {steps b t} trail := by
    obtain ⟨a', passes, rfl⟩ | ⟨x, before, v, rfl, passes, rfl⟩ := trail.passes.of_ensuring
    · obtain ⟨more, x, u, goes⟩ := h.ends ⟨passes, trail.linked⟩
      have inner := goes.passes.within (f := Async.ensuring release) .inside
      exact ⟨more ++ [(u, release u)], x, _, inner.trans (.step .release .stay),
        goes.linked.append (.step .refl (.last .refl))⟩
    · exact ⟨[], x, t, .stay, .last .refl⟩
  result trail := by
    obtain ⟨before, v, passes, rfl⟩ := trail.passes.of_guarded
    obtain ⟨u, linked, last⟩ := trail.linked.split
    obtain ⟨changes, rest⟩ := last.of_cons
    exact h.result ⟨passes, linked.after changes⟩ _ rest.of_nil

theorem iterate {body : β → Async σ (β ⊕ γ)} {b : β} {Q : List (σ × σ) → γ → σ → Prop}
    (h : Settles R (body b) s fun steps r t => Sum.elim
      (fun b' => Settles R (Async.iterate body b') t fun rest => Q (steps ++ (t, t) :: rest))
      (fun y => ∀ u, ReflTransGen R t u → Q (steps ++ [(t, t)]) y u) r) :
    Settles R (Async.iterate body b) s Q where
  ends {steps c t} trail := by
    obtain ⟨a, passes, rfl⟩ | ⟨r, before, v, after, rfl, passes, goesOn⟩ := trail.passes.of_loop
    · obtain ⟨more, r, u, goes⟩ := h.ends ⟨passes, trail.linked⟩
      have next := h.result ⟨passes.trans goes.passes, trail.linked.append goes.linked⟩
      have inner := goes.passes.within (f := (Async.loop body · .done)) .round
      obtain b' | y := r
      · obtain ⟨rest, y, v, ends⟩ := next.ends ⟨.stay, .last .refl⟩
        exact ⟨more ++ (u, u) :: rest, y, v, inner.trans (.step .again ends.passes),
          goes.linked.append (.step .refl ends.linked)⟩
      · exact ⟨more ++ [(u, u)], y, u, inner.trans (.step .final .stay),
          goes.linked.append (.step .refl (.last .refl))⟩
    · obtain ⟨u, linked, last⟩ := trail.linked.split
      obtain ⟨changes, rest⟩ := last.of_cons
      obtain b' | y := r
      · exact (h.result ⟨passes, linked.after changes⟩).ends ⟨goesOn, rest⟩
      · obtain ⟨rfl, rfl⟩ := Passes.of_done goesOn
        exact ⟨[], y, t, .stay, .last .refl⟩
  result trail := by
    obtain ⟨r, before, v, after, rfl, passes, goesOn⟩ := trail.passes.of_iterate_done
    obtain ⟨u, linked, last⟩ := trail.linked.split
    obtain ⟨changes, rest⟩ := last.of_cons
    have next := h.result ⟨passes, linked.after changes⟩
    obtain b' | y := r
    · exact next.result ⟨goesOn, rest⟩
    · obtain ⟨rfl, rfl⟩ := goesOn
      exact next _ rest.of_nil

end Settles

end EventTracking.Async
