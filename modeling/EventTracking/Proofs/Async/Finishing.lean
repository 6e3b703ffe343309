import EventTracking.Proofs.Async.Joining

set_option autoImplicit false

namespace EventTracking

namespace Async

open Relation (ReflTransGen)

variable {σ α β γ : Type} {R : σ → σ → Prop} {I : σ → Prop} {s t u : σ}
  {steps rest : List (σ × σ)}

structure Stays (I : σ → Prop) (R : σ → σ → Prop) (a : Async σ α) (s : σ) (steps : List (σ × σ))
    (b : Async σ α) (t : σ) : Prop extends Trail R a s steps b t where
  along : ∀ p ∈ steps, I p.1
  last : I t

namespace Stays

theorem refl {a : Async σ α} (here : I s) : Stays I R a s [] a s :=
  ⟨⟨.stay, .last .refl⟩, by simp, here⟩

theorem step {a b : Async σ α} (changes : ReflTransGen R s t) (here : I t) (go : Step a t b u)
    (last : I u) : Stays I R a s [(t, u)] b u :=
  ⟨⟨.step go .stay, .step changes (.last .refl)⟩, by simpa using here, last⟩

theorem trans {a b c : Async σ α} (first : Stays I R a s steps b t)
    (second : Stays I R b t rest c u) : Stays I R a s (steps ++ rest) c u :=
  ⟨⟨first.passes.trans second.passes, first.linked.append second.linked⟩,
    List.forall_mem_append.2 ⟨first.along, second.along⟩, second.last⟩

theorem within {f : Async σ β → Async σ α}
    (lift : ∀ {a a' s t}, Step a s a' t → Step (f a) s (f a') t) {a b : Async σ β}
    (h : Stays I R a s steps b t) : Stays I R (f a) s steps (f b) t :=
  ⟨⟨h.passes.within lift, h.linked⟩, h.along, h.last⟩

theorem bind {a : Async σ α} {x : α} {k : α → Async σ β} {b : Async σ β}
    (first : Stays I R a s steps (.done x) t) (second : Stays I R (k x) t rest b u) :
    Stays I R (a >>= k) s (steps ++ rest) b u :=
  ⟨⟨first.passes.bind second.passes, first.linked.append second.linked⟩,
    List.forall_mem_append.2 ⟨first.along, second.along⟩, second.last⟩

end Stays

structure Finishable (I : σ → Prop) (R : σ → σ → Prop) (a : Async σ α) (Q : α → Prop) : Prop where
  ends : ∀ {steps b s}, Passes a steps b → (∀ p ∈ steps, I p.1) → I s →
    ∃ rest x t, Stays I R b s rest (.done x) t
  gives : ∀ {steps x}, Passes a steps (.done x) → (∀ p ∈ steps, I p.1) → Q x

theorem Keeps.passes {F : Frame σ} {a b : Async σ α} (h : Keeps F a) (go : Passes a steps b)
    (along : ∀ p ∈ steps, F.always p.1) : Keeps F b := by
  induction go with
  | stay => exact h
  | step step _ ih =>
    obtain ⟨here, later⟩ := List.forall_mem_cons.1 along
    exact ih (h.step here step).2 later

theorem Trail.stays {F : Frame σ} {a b : Async σ α} (trail : Trail R a s steps b t)
    (h : Keeps F a) (outside : ∀ {s t}, R s t → F.quiet s t) (here : F.always s) :
    Stays F.always R a s steps b t := by
  have later {s t : σ} (here : F.always s) (changes : ReflTransGen R s t) : F.always t :=
    (Linked.last changes).keeps (fun here change => F.always_quiet here (outside change))
      (by simp) here
  obtain ⟨passes, linked⟩ := trail
  induction passes generalizing s with
  | stay => exact ⟨⟨.stay, linked⟩, by simp, later here linked.of_nil⟩
  | step step _ ih =>
    obtain ⟨changes, rest⟩ := linked.of_cons
    have there := later here changes
    obtain ⟨quiet, keeps⟩ := h.step there step
    have next := F.always_quiet there quiet
    exact (Stays.step changes there step next).trans (ih keeps next rest)

namespace Finishable

variable {Q : α → Prop}

theorem of_keeps {F : Frame σ} {a : Async σ α} (h : Keeps F a)
    (outside : ∀ {s t}, R s t → F.quiet s t)
    (ends : ∀ {steps b s}, Passes a steps b → (∀ p ∈ steps, F.always p.1) → F.always s →
      ∃ rest x t, Trail R b s rest (.done x) t) : Finishable F.always R a fun _ => True where
  ends passes along here := by
    obtain ⟨rest, x, t, trail⟩ := ends passes along here
    exact ⟨rest, x, t, trail.stays (h.passes passes along) outside here⟩
  gives _ _ := trivial

theorem mono {Q' : α → Prop} {a : Async σ α} (h : Finishable I R a Q) (weaker : ∀ x, Q x → Q' x) :
    Finishable I R a Q' :=
  ⟨h.ends, fun passes along => weaker _ (h.gives passes along)⟩

theorem pure {x : α} (h : Q x) : Finishable I R (Pure.pure x : Async σ α) Q where
  ends {steps b s} passes _ here := by
    obtain ⟨rfl, rfl⟩ := Passes.of_done passes
    exact ⟨[], x, s, .refl here⟩
  gives passes _ := by
    obtain ⟨_, same⟩ := Passes.of_done passes
    cases same
    exact h

theorem act {f : σ → α × σ} (h : ∀ s, I s → I (f s).2 ∧ Q (f s).1) :
    Finishable I R (Async.act f) Q where
  ends {steps b s} passes _ here := by
    obtain ⟨rfl, rfl⟩ | ⟨t, rfl, rfl⟩ := passes.of_act
    · exact ⟨[(s, (f s).2)], (f s).1, _, .step .refl here .work (h s here).1⟩
    · exact ⟨[], (f t).1, s, .refl here⟩
  gives passes along := by
    obtain ⟨_, same⟩ | ⟨t, rfl, same⟩ := passes.of_act
    · cases same
    · cases same
      exact (h t (along (t, (f t).2) (by simp))).2

theorem get {f : σ → α} (h : ∀ s, I s → Q (f s)) : Finishable I R (Async.get f) Q :=
  act fun s hs => ⟨hs, h s hs⟩

theorem await_of_keeps {F : Frame σ} {look : σ → Option α × σ} {leave : σ → σ}
    (h : Keeps F (Async.await look leave)) (outside : ∀ {s t}, R s t → F.quiet s t)
    (happens : ∀ s, ∃ t, ReflTransGen R s t ∧ (look t).1 ≠ none) :
    Finishable F.always R (Async.await look leave) fun _ => True := by
  refine .of_keeps h outside fun {steps b s} passes _ _ => ?_
  obtain rfl | ⟨x, rfl, _⟩ := passes.of_await
  · obtain ⟨t, changes, happened⟩ := happens s
    obtain ⟨x, found⟩ := Option.ne_none_iff_exists'.1 happened
    exact ⟨_, x, _, .step (.ready _ _ found) .stay, .step changes (.last .refl)⟩
  · exact ⟨[], x, s, .stay, .last .refl⟩

theorem bind {a : Async σ α} {k : α → Async σ β} {Q : β → Prop}
    (h : Finishable I R a fun x => Finishable I R (k x) Q) : Finishable I R (a >>= k) Q where
  ends {steps b s} passes along here := by
    obtain ⟨a', first, rfl⟩ | ⟨x, before, after, rfl, first, second⟩ := passes.of_bind
    · obtain ⟨more, x, t, goes⟩ := h.ends first along here
      have whole : ∀ p ∈ steps ++ more, I p.1 := List.forall_mem_append.2 ⟨along, goes.along⟩
      obtain ⟨last, y, u, ends⟩ :=
        (h.gives (first.trans goes.passes) whole).ends .stay (by simp) goes.last
      exact ⟨more ++ last, y, u, goes.bind ends⟩
    · obtain ⟨early, late⟩ := List.forall_mem_append.1 along
      exact (h.gives first early).ends second late here
  gives passes along := by
    obtain ⟨x, before, after, rfl, first, second⟩ := passes.of_bind_done
    obtain ⟨early, late⟩ := List.forall_mem_append.1 along
    exact (h.gives first early).gives second late

theorem ensuring {release : σ → σ} {a : Async σ α} (releases : ∀ s, I s → I (release s))
    (h : Finishable I R a Q) : Finishable I R (Async.ensuring release a) Q where
  ends {steps b s} passes along here := by
    obtain ⟨a', inner, rfl⟩ | ⟨x, before, v, rfl, inner, rfl⟩ := passes.of_ensuring
    · obtain ⟨more, x, t, goes⟩ := h.ends inner along here
      have around := goes.within (f := Async.ensuring release) .inside
      exact ⟨_, x, _, around.trans (.step .refl goes.last .release (releases t goes.last))⟩
    · exact ⟨[], x, s, .refl here⟩
  gives passes along := by
    obtain ⟨before, v, inner, rfl⟩ := passes.of_guarded
    exact h.gives inner (List.forall_mem_append.1 along).1

theorem iterate {body : β → Async σ (β ⊕ γ)} {b : β} {Q : γ → Prop}
    (h : Finishable I R (body b) (Sum.elim (fun b' => Finishable I R (Async.iterate body b') Q) Q)) :
    Finishable I R (Async.iterate body b) Q where
  ends {steps c s} passes along here := by
    obtain ⟨a, inner, rfl⟩ | ⟨r, before, v, after, rfl, inner, goesOn⟩ := passes.of_loop
    · obtain ⟨more, r, t, goes⟩ := h.ends inner along here
      have whole : ∀ p ∈ steps ++ more, I p.1 := List.forall_mem_append.2 ⟨along, goes.along⟩
      have next := h.gives (inner.trans goes.passes) whole
      have around := goes.within (f := (Async.loop body · .done)) .round
      obtain b' | y := r
      · obtain ⟨rest, y, u, ends⟩ := next.ends .stay (by simp) goes.last
        exact ⟨_, y, u, around.trans ((Stays.step .refl goes.last .again goes.last).trans ends)⟩
      · exact ⟨_, y, t, around.trans (.step .refl goes.last .final goes.last)⟩
    · obtain ⟨early, late⟩ := List.forall_mem_append.1 along
      have next := h.gives inner early
      obtain b' | y := r
      · exact next.ends goesOn (fun p hp => late p (List.mem_cons_of_mem _ hp)) here
      · obtain ⟨rfl, rfl⟩ := Passes.of_done goesOn
        exact ⟨[], y, s, .refl here⟩
  gives passes along := by
    obtain ⟨r, before, v, after, rfl, inner, goesOn⟩ := passes.of_iterate_done
    obtain ⟨early, late⟩ := List.forall_mem_append.1 along
    have next := h.gives inner early
    obtain b' | y := r
    · exact next.gives goesOn fun p hp => late p (List.mem_cons_of_mem _ hp)
    · obtain ⟨_, rfl⟩ := goesOn
      exact next

theorem to_round {body : β → Async σ (β ⊕ γ)} (rounds : ∀ b, Finishable I R (body b) fun _ => True)
    {start : β} {c : Async σ γ} (passes : Passes (Async.iterate body start) steps c)
    (along : ∀ p ∈ steps, I p.1) (here : I s) :
    ∃ rest c' t, Stays I R c s rest c' t ∧
      ((∃ y, c' = .done y) ∨ ∃ b, c' = Async.iterate body b) := by
  obtain ⟨b, before, now, _, ⟨a, rfl, inner, rfl⟩ | ⟨y, v, _, _, rfl⟩⟩ := passes.of_iterate
  · obtain ⟨more, r, t, goes⟩ :=
      (rounds b).ends inner (fun p hp => along p (List.mem_append_right _ hp)) here
    have around := goes.within (f := (Async.loop body · .done)) .round
    obtain b' | y := r
    · exact ⟨_, _, t, around.trans (.step .refl goes.last .again goes.last), .inr ⟨b', rfl⟩⟩
    · exact ⟨_, _, t, around.trans (.step .refl goes.last .final goes.last), .inl ⟨y, rfl⟩⟩
  · exact ⟨[], _, s, .refl here, .inl ⟨y, rfl⟩⟩

end Finishable

end Async

namespace Crowd

variable {σ α : Type} {E : Setting σ α} {start c : Crowd σ α}

theorem Run.bring {H G : Async σ α → Prop}
    (one : ∀ c, Run E start c → (∀ a ∈ c.tasks, H a) → ∀ i a, c.tasks[i]? = some a →
      ∃ b t, Run E c ⟨t, c.tasks.set i b⟩ ∧ H b ∧ G b)
    (run : Run E start c) (all : ∀ a ∈ c.tasks, H a) :
    ∃ c', Run E c c' ∧ (∀ a ∈ c'.tasks, H a) ∧ ∀ a ∈ c'.tasks, G a := by
  have some_ (m : Nat) (few : m ≤ c.tasks.length) : ∃ c', Run E c c' ∧
      c'.tasks.length = c.tasks.length ∧ (∀ a ∈ c'.tasks, H a) ∧
        ∀ i < m, ∀ a, c'.tasks[i]? = some a → G a := by
    induction m with
    | zero => exact ⟨c, .refl, rfl, all, by simp⟩
    | succ m ih =>
      obtain ⟨c', before, length, still, those⟩ := ih (Nat.le_of_succ_le few)
      have inside : m < c'.tasks.length := length ▸ few
      obtain ⟨b, t, goes, fine, good⟩ :=
        one c' (run.trans before) still m _ (List.getElem?_eq_getElem inside)
      refine ⟨_, before.trans goes, by simpa using length, ?_, ?_⟩
      · intro a ha
        rcases List.mem_or_eq_of_mem_set ha with old | rfl
        · exact still a old
        · exact fine
      · intro i below a found
        by_cases last : m = i
        · subst last
          simp only [List.getElem?_set_self, inside, Option.some.injEq] at found
          exact found ▸ good
        · rw [List.getElem?_set_ne last] at found
          exact those i (by omega) a found
  obtain ⟨c', goes, length, still, those⟩ := some_ _ (Nat.le_refl _)
  refine ⟨c', goes, still, fun a ha => ?_⟩
  obtain ⟨i, inside, rfl⟩ := List.getElem_of_mem ha
  exact those i (length ▸ inside) _ (List.getElem?_eq_getElem inside)

end Crowd

end EventTracking
