import EventTracking.Proofs.Async.Crowd

set_option autoImplicit false

namespace EventTracking

inductive Merge {τ : Type} : List τ → List τ → List τ → Prop where
  | nil : Merge [] [] []
  | left {x : τ} {l r w : List τ} (rest : Merge l r w) : Merge (x :: l) r (x :: w)
  | right {x : τ} {l r w : List τ} (rest : Merge l r w) : Merge l (x :: r) (x :: w)

namespace Merge

variable {τ υ : Type} {l r w : List τ}

theorem swap (h : Merge l r w) : Merge r l w := by
  induction h with
  | nil => exact .nil
  | left _ ih => exact .right ih
  | right _ ih => exact .left ih

theorem append_left (l' : List τ) (h : Merge l r w) : Merge (l' ++ l) r (l' ++ w) := by
  induction l' with
  | nil => simpa using h
  | cons x l' ih => exact .left ih

theorem append_right (r' : List τ) (h : Merge l r w) : Merge l (r' ++ r) (r' ++ w) :=
  (h.swap.append_left r').swap

theorem perm (h : Merge l r w) : w.Perm (l ++ r) := by
  induction h with
  | nil => simp
  | left _ ih => simpa using ih
  | right _ ih => exact (ih.cons _).trans List.perm_middle.symm

theorem mem (h : Merge l r w) {x : τ} : x ∈ w ↔ x ∈ l ∨ x ∈ r := by
  rw [h.perm.mem_iff, List.mem_append]

theorem eq_left (h : Merge l [] w) : w = l := by
  generalize none : ([] : List τ) = r at h
  induction h with
  | nil => rfl
  | left _ ih => rw [ih none]
  | right => cases none

theorem flatMap (f : τ → List υ) (h : Merge l r w) :
    Merge (l.flatMap f) (r.flatMap f) (w.flatMap f) := by
  induction h with
  | nil => exact .nil
  | left _ ih => simpa using ih.append_left (f _)
  | right _ ih => simpa using ih.append_right (f _)

end Merge

namespace Async

variable {σ α β γ : Type}

theorem Step.of_bind {a : Async σ α} {k : α → Async σ β} {b : Async σ β} {s t : σ}
    (h : Step (a.bind k) s b t) :
    (∃ x, a = .done x ∧ Step (k x) s b t) ∨ ∃ a', Step a s a' t ∧ b = a'.bind k := by
  cases a with
  | done x => exact .inl ⟨x, rfl, h⟩
  | step => cases h; exact .inr ⟨_, .work, rfl⟩
  | wait =>
    cases h with
    | ready _ _ now => exact .inr ⟨_, .ready _ _ now, rfl⟩
    | early _ _ later => exact .inr ⟨_, .early _ _ later, rfl⟩
  | guarded =>
    cases h with
    | inside step => exact .inr ⟨_, .inside step, rfl⟩
    | release => exact .inr ⟨_, .release, rfl⟩
  | both =>
    cases h with
    | left step => exact .inr ⟨_, .left step, rfl⟩
    | right step => exact .inr ⟨_, .right step, rfl⟩
    | join => exact .inr ⟨_, .join, rfl⟩
  | race =>
    cases h with
    | leftLeg step => exact .inr ⟨_, .leftLeg step, rfl⟩
    | rightLeg step => exact .inr ⟨_, .rightLeg step, rfl⟩
    | leftWins => exact .inr ⟨_, .leftWins, rfl⟩
    | rightWins => exact .inr ⟨_, .rightWins, rfl⟩
  | loop =>
    cases h with
    | round step => exact .inr ⟨_, .round step, rfl⟩
    | again => exact .inr ⟨_, .again, rfl⟩
    | final => exact .inr ⟨_, .final, rfl⟩

theorem Step.bind {a a' : Async σ α} {s t : σ} (h : Step a s a' t) (k : α → Async σ β) :
    Step (a.bind k) s (a'.bind k) t := by
  cases h with
  | work => exact .work
  | ready _ _ now => exact .ready _ _ now
  | early _ _ later => exact .early _ _ later
  | inside step => exact .inside step
  | release => exact .release
  | left step => exact .left step
  | right step => exact .right step
  | join => exact .join
  | leftLeg step => exact .leftLeg step
  | rightLeg step => exact .rightLeg step
  | leftWins => exact .leftWins
  | rightWins => exact .rightWins
  | round step => exact .round step
  | again => exact .again
  | final => exact .final

theorem Steps.bind {a : Async σ α} {x : α} {k : α → Async σ β} {b : Async σ β} {s t u : σ}
    (first : Steps a s (.done x) t) (rest : Steps (k x) t b u) : Steps (a >>= k) s b u :=
  (first.within (f := (Async.bind · k)) fun step => step.bind k).trans rest

namespace Passes

variable {steps : List (σ × σ)}

theorem trans {a b c : Async σ α} {rest : List (σ × σ)} (first : Passes a steps b)
    (second : Passes b rest c) : Passes a (steps ++ rest) c := by
  induction first with
  | stay => exact second
  | step step _ ih => exact .step step (ih second)

theorem within {f : Async σ β → Async σ α}
    (lift : ∀ {a a' s t}, Step a s a' t → Step (f a) s (f a') t) {a b : Async σ β}
    (h : Passes a steps b) : Passes (f a) steps (f b) := by
  induction h with
  | stay => exact .stay
  | step step _ ih => exact .step (lift step) ih

theorem bind {a : Async σ α} {x : α} {k : α → Async σ β} {b : Async σ β} {rest : List (σ × σ)}
    (first : Passes a steps (.done x)) (second : Passes (k x) rest b) :
    Passes (a >>= k) (steps ++ rest) b :=
  (first.within (f := (Async.bind · k)) fun step => step.bind k).trans second

theorem of_bind {a : Async σ α} {k : α → Async σ β} {b : Async σ β}
    (h : Passes (a >>= k) steps b) :
    (∃ a', Passes a steps a' ∧ b = a'.bind k) ∨
      ∃ x before after, steps = before ++ after ∧ Passes a before (.done x) ∧
        Passes (k x) after b := by
  generalize begun : (a >>= k) = whole at h
  induction h generalizing a with
  | stay => exact .inl ⟨a, .stay, begun.symm⟩
  | step step goesOn ih =>
    subst begun
    obtain ⟨x, rfl, second⟩ | ⟨a', inner, rfl⟩ := Step.of_bind step
    · exact .inr ⟨x, [], _, rfl, .stay, .step second goesOn⟩
    · obtain ⟨a'', passes, rfl⟩ | ⟨x, before, after, rfl, first, second⟩ := ih rfl
      · exact .inl ⟨a'', .step inner passes, rfl⟩
      · exact .inr ⟨x, _ :: before, after, rfl, .step inner first, second⟩

theorem of_bind_done {a : Async σ α} {k : α → Async σ β} {y : β}
    (h : Passes (a >>= k) steps (.done y)) :
    ∃ x before after, steps = before ++ after ∧ Passes a before (.done x) ∧
      Passes (k x) after (.done y) := by
  obtain ⟨a', passes, same⟩ | found := h.of_bind
  · cases a' with
    | done x =>
      refine ⟨x, steps, [], by simp, passes, ?_⟩
      rw [same]
      exact .stay
    | step | wait | guarded | both | race | loop => cases same
  · exact found

theorem of_act {f : σ → α × σ} {b : Async σ α} (h : Passes (Async.act f) steps b) :
    steps = [] ∧ b = Async.act f ∨ ∃ s, steps = [(s, (f s).2)] ∧ b = .done (f s).1 := by
  cases h with
  | stay => exact .inl ⟨rfl, rfl⟩
  | step step goesOn =>
    cases step
    obtain ⟨rfl, rfl⟩ := goesOn.of_done
    exact .inr ⟨_, rfl, rfl⟩

theorem of_await {look : σ → Option α × σ} {leave : σ → σ} {b : Async σ α}
    (h : Passes (await look leave) steps b) :
    b = await look leave ∨ ∃ x, b = .done x ∧ ∃ s, (look s).1 = some x := by
  generalize begun : await look leave = whole at h
  induction h with
  | stay => exact .inl rfl
  | step step goesOn ih =>
    subst begun
    cases step with
    | ready _ _ now => exact .inr ⟨_, (Passes.of_done goesOn).2, _, now⟩
    | early => exact ih rfl

theorem of_ensuring {release : σ → σ} {a b : Async σ α}
    (h : Passes (ensuring release a) steps b) :
    (∃ a', Passes a steps a' ∧ b = ensuring release a') ∨
      ∃ x before s, steps = before ++ [(s, release s)] ∧ Passes a before (.done x) ∧
        b = .done x := by
  generalize begun : ensuring release a = whole at h
  induction h generalizing a with
  | stay => exact .inl ⟨a, .stay, begun.symm⟩
  | step step goesOn ih =>
    subst begun
    cases step with
    | inside step =>
      obtain ⟨a'', passes, rfl⟩ | ⟨x, before, s, rfl, passes, rfl⟩ := ih rfl
      · exact .inl ⟨a'', .step step passes, rfl⟩
      · exact .inr ⟨x, _ :: before, s, rfl, .step step passes, rfl⟩
    | release =>
      obtain ⟨rfl, rfl⟩ := goesOn.of_done
      exact .inr ⟨_, [], _, rfl, .stay, rfl⟩

theorem of_both {a : Async σ β} {b : Async σ γ} {next : β → γ → Async σ α} {c : Async σ α}
    (h : Passes (.both a b next) steps c) :
    (∃ a' b' left right, Passes a left a' ∧ Passes b right b' ∧ Merge left right steps ∧
        c = .both a' b' next) ∨
      ∃ x y left right before s after, Passes a left (.done x) ∧ Passes b right (.done y) ∧
        Merge left right before ∧ steps = before ++ (s, s) :: after ∧
          Passes (next x y) after c := by
  generalize begun : Async.both a b next = whole at h
  induction h generalizing a b with
  | stay => exact .inl ⟨a, b, [], [], .stay, .stay, .nil, begun.symm⟩
  | step step goesOn ih =>
    subst begun
    cases step with
    | left step =>
      obtain ⟨a', b', left, right, ha, hb, merge, rfl⟩ |
        ⟨x, y, left, right, before, s, after, ha, hb, merge, rfl, rest⟩ := ih rfl
      · exact .inl ⟨a', b', _, right, .step step ha, hb, .left merge, rfl⟩
      · exact .inr ⟨x, y, _, right, _, s, after, .step step ha, hb, .left merge, rfl, rest⟩
    | right step =>
      obtain ⟨a', b', left, right, ha, hb, merge, rfl⟩ |
        ⟨x, y, left, right, before, s, after, ha, hb, merge, rfl, rest⟩ := ih rfl
      · exact .inl ⟨a', b', left, _, ha, .step step hb, .right merge, rfl⟩
      · exact .inr ⟨x, y, left, _, _, s, after, ha, .step step hb, .right merge, rfl, rest⟩
    | join => exact .inr ⟨_, _, [], [], [], _, _, .stay, .stay, .nil, rfl, goesOn⟩

theorem of_race {a : Async σ β} {b : Async σ γ} {next : β ⊕ γ → Async σ α} {c : Async σ α}
    (h : Passes (.race a b next) steps c) :
    ∃ a' b' left right before, Passes a left a' ∧ Passes b right b' ∧ Merge left right before ∧
      (steps = before ∧ c = .race a' b' next ∨
        ∃ s after,
          (∃ x, a' = .done x ∧ steps = before ++ (s, b'.abandon s) :: after ∧
            Passes (next (.inl x)) after c) ∨
          ∃ y, b' = .done y ∧ steps = before ++ (s, a'.abandon s) :: after ∧
            Passes (next (.inr y)) after c) := by
  generalize begun : Async.race a b next = whole at h
  induction h generalizing a b with
  | stay => exact ⟨a, b, [], [], [], .stay, .stay, .nil, .inl ⟨rfl, begun.symm⟩⟩
  | @step _ _ _ s t _ step goesOn ih =>
    subst begun
    cases step with
    | leftLeg step =>
      obtain ⟨a', b', left, right, before, ha, hb, merge, ends⟩ := ih rfl
      refine ⟨a', b', _, right, (s, t) :: before, .step step ha, hb, .left merge, ?_⟩
      simpa using ends
    | rightLeg step =>
      obtain ⟨a', b', left, right, before, ha, hb, merge, ends⟩ := ih rfl
      refine ⟨a', b', left, _, (s, t) :: before, ha, .step step hb, .right merge, ?_⟩
      simpa using ends
    | leftWins =>
      exact ⟨_, b, [], [], [], .stay, .stay, .nil, .inr ⟨s, _, .inl ⟨_, rfl, rfl, goesOn⟩⟩⟩
    | rightWins =>
      exact ⟨a, _, [], [], [], .stay, .stay, .nil, .inr ⟨s, _, .inr ⟨_, rfl, rfl, goesOn⟩⟩⟩

theorem of_firstOf {a : Async σ α} {b : Async σ β} {c : Async σ (α ⊕ β)}
    (h : Passes (firstOf a b) steps c) :
    ∃ a' b' left right before, Passes a left a' ∧ Passes b right b' ∧ Merge left right before ∧
      (steps = before ∧ c = .race a' b' .done ∨
        (∃ x s, a' = .done x ∧ steps = before ++ [(s, b'.abandon s)] ∧ c = .done (.inl x)) ∨
          ∃ y s, b' = .done y ∧ steps = before ++ [(s, a'.abandon s)] ∧ c = .done (.inr y)) := by
  obtain ⟨a', b', left, right, before, ha, hb, merge, going | ⟨s, after, won | won⟩⟩ := h.of_race
  · exact ⟨a', b', left, right, before, ha, hb, merge, .inl going⟩
  · obtain ⟨x, ended, rfl, rest⟩ := won
    obtain ⟨rfl, rfl⟩ := rest.of_done
    exact ⟨a', b', left, right, before, ha, hb, merge, .inr (.inl ⟨x, s, ended, rfl, rfl⟩)⟩
  · obtain ⟨y, ended, rfl, rest⟩ := won
    obtain ⟨rfl, rfl⟩ := rest.of_done
    exact ⟨a', b', left, right, before, ha, hb, merge, .inr (.inr ⟨y, s, ended, rfl, rfl⟩)⟩

theorem of_loop {body : β → Async σ (β ⊕ γ)} {a : Async σ (β ⊕ γ)} {next : γ → Async σ α}
    {c : Async σ α} (h : Passes (.loop body a next) steps c) :
    (∃ a', Passes a steps a' ∧ c = .loop body a' next) ∨
      ∃ r before s after, steps = before ++ (s, s) :: after ∧ Passes a before (.done r) ∧
        Passes (Sum.elim (fun b => .loop body (body b) next) next r) after c := by
  generalize begun : Async.loop body a next = whole at h
  induction h generalizing a with
  | stay => exact .inl ⟨a, .stay, begun.symm⟩
  | step step goesOn ih =>
    subst begun
    cases step with
    | round step =>
      obtain ⟨a', passes, rfl⟩ | ⟨r, before, s, after, rfl, passes, rest⟩ := ih rfl
      · exact .inl ⟨a', .step step passes, rfl⟩
      · exact .inr ⟨r, _, s, after, rfl, .step step passes, rest⟩
    | again => exact .inr ⟨.inl _, [], _, _, rfl, .stay, goesOn⟩
    | final => exact .inr ⟨.inr _, [], _, _, rfl, .stay, goesOn⟩

end Passes

theorem Steps.passes {a b : Async σ α} {s t : σ} (h : Steps a s b t) :
    ∃ steps, Passes a steps b := by
  induction h with
  | refl => exact ⟨[], .stay⟩
  | head step _ ih =>
    obtain ⟨steps, passes⟩ := ih
    exact ⟨_, .step step passes⟩

inductive Rounds (body : β → Async σ (β ⊕ γ)) : β → List (σ × σ) → β → Prop where
  | here {b : β} : Rounds body b [] b
  | more {b b' b'' : β} {steps rest : List (σ × σ)} {s : σ}
      (round : Passes (body b) steps (.done (.inl b'))) (others : Rounds body b' rest b'') :
      Rounds body b (steps ++ (s, s) :: rest) b''

theorem Passes.of_iterate {body : β → Async σ (β ⊕ γ)} {start : β} {steps : List (σ × σ)}
    {c : Async σ γ} (h : Passes (iterate body start) steps c) :
    ∃ b before now, Rounds body start before b ∧
      ((∃ a, steps = before ++ now ∧ Passes (body b) now a ∧ c = .loop body a .done) ∨
        ∃ y s, steps = before ++ now ++ [(s, s)] ∧ Passes (body b) now (.done (.inr y)) ∧
          c = .done y) := by
  -- The later rounds have fewer steps than all of them.
  induction size : steps.length using Nat.strongRecOn generalizing start steps with
  | ind n ih =>
    obtain ⟨a, passes, rfl⟩ | ⟨r | y, before, s, after, rfl, passes, rest⟩ := Passes.of_loop h
    · exact ⟨start, [], steps, .here, .inl ⟨a, rfl, passes, rfl⟩⟩
    · have shorter : after.length < n := by
        rw [← size]
        simp
        omega
      obtain ⟨b, before', now, rounds, ends⟩ := ih _ shorter rest rfl
      refine ⟨b, before ++ (s, s) :: before', now, .more passes rounds, ?_⟩
      simpa using ends
    · obtain ⟨rfl, rfl⟩ := rest.of_done
      exact ⟨start, [], before, .here, .inr ⟨y, s, by simp, passes, rfl⟩⟩

theorem Passes.of_iterate_done {body : β → Async σ (β ⊕ γ)} {b : β} {y : γ}
    {steps : List (σ × σ)} (h : Passes (iterate body b) steps (.done y)) :
    ∃ r before s after, steps = before ++ (s, s) :: after ∧ Passes (body b) before (.done r) ∧
      Sum.elim (fun b' => Passes (iterate body b') after (.done y))
        (fun y' => after = [] ∧ y' = y) r := by
  obtain ⟨a, _, same⟩ | ⟨r, before, s, after, rfl, passes, goesOn⟩ := h.of_loop
  · cases same
  · refine ⟨r, before, s, after, rfl, passes, ?_⟩
    obtain b' | y' := r
    · exact goesOn
    · obtain ⟨rfl, same⟩ := Passes.of_done goesOn
      cases same
      exact ⟨rfl, rfl⟩

theorem Passes.of_iterate_final {body : β → Async σ (β ⊕ γ)} {b : β} {x y : γ}
    {steps : List (σ × σ)} (final : body b = pure (.inr x))
    (h : Passes (iterate body b) steps (.done y)) : y = x ∧ ∃ s, steps = [(s, s)] := by
  obtain ⟨r, before, s, after, rfl, passes, goesOn⟩ := h.of_iterate_done
  rw [final] at passes
  obtain ⟨rfl, same⟩ := passes.of_done
  cases same
  obtain ⟨rfl, rfl⟩ := goesOn
  exact ⟨rfl, s, rfl⟩

theorem Rounds.tail {body : β → Async σ (β ⊕ γ)} {start b b' : β} {steps rest : List (σ × σ)}
    {s : σ} (h : Rounds body start steps b) (round : Passes (body b) rest (.done (.inl b'))) :
    Rounds body start (steps ++ (rest ++ [(s, s)])) b' := by
  induction h with
  | here => exact .more round .here
  | more first _ ih =>
    rw [List.append_assoc, List.cons_append]
    exact .more first (ih round)

theorem Rounds.passes {body : β → Async σ (β ⊕ γ)} {start b : β} {steps : List (σ × σ)}
    (h : Rounds body start steps b) :
    Passes (iterate body start) steps (iterate body b) := by
  induction h with
  | here => exact .stay
  | more round _ ih =>
    have inner := round.within (f := (Async.loop body · .done)) .round
    exact inner.trans (.step .again ih)

end Async

namespace Crowd

variable {σ α : Type} {E : Setting σ α} {c c' : Crowd σ α} {i : Nat} {a : Async σ α}

theorem Run.own (run : Run E c c') (found : c.tasks[i]? = some a) :
    ∃ b steps, c'.tasks[i]? = some b ∧ Async.Passes a steps b ∧
      ∀ p ∈ steps, ∃ d, Run E c d ∧ d.state = p.1 := by
  induction run with
  | refl => exact ⟨a, [], found, .stay, by simp⟩
  | tail before move ih =>
    obtain ⟨b, steps, here, go, own⟩ := ih
    obtain ⟨inside, _⟩ := List.getElem?_eq_some_iff.1 here
    cases move with
    | @step s s' tasks j d d' there step =>
      by_cases mine : j = i
      · subst mine
        obtain rfl : d = b := Option.some.inj (there.symm.trans here)
        refine ⟨d', steps ++ [(s, s')], by simp_all, go.trans (.step step .stay), ?_⟩
        intro p hp
        rcases List.mem_append.1 hp with old | new
        · exact own p old
        · obtain rfl := List.mem_singleton.1 new
          exact ⟨_, before, rfl⟩
      · exact ⟨b, steps, by rwa [List.getElem?_set_ne mine], go, own⟩
    | come => exact ⟨b, steps, by rwa [List.getElem?_append_left inside], go, own⟩
    | outside => exact ⟨b, steps, here, go, own⟩

end Crowd

end EventTracking
