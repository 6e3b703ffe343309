import EventTracking.Proofs.Async.Recording

set_option autoImplicit false

namespace EventTracking.Async

variable {σ τ α β γ : Type}

-- Whether the computation, after steps of a kind, has further ones of this kind to its end.
def Ends (S : σ × σ → Prop) (a : Async σ α) : Prop :=
  ∀ ⦃steps b⦄, Passes a steps b → (∀ p ∈ steps, S p) →
    ∃ rest x, Passes b rest (.done x) ∧ ∀ p ∈ rest, S p

namespace Ends

variable {S : σ × σ → Prop}

theorem pure (x : α) : Ends S (Pure.pure x : Async σ α) := by
  intro steps b go _
  obtain ⟨rfl, rfl⟩ := Passes.of_done go
  exact ⟨[], x, .stay, by simp⟩

theorem act {f : σ → α × σ} (h : ∃ s, S (s, (f s).2)) : Ends S (Async.act f) := by
  intro steps b go _
  obtain ⟨rfl, rfl⟩ | ⟨s, rfl, rfl⟩ := go.of_act
  · obtain ⟨s, hs⟩ := h
    exact ⟨[(s, (f s).2)], (f s).1, .step .work .stay, by simpa using hs⟩
  · exact ⟨[], (f s).1, .stay, by simp⟩

theorem step {f : σ → β × σ} {next : β → Async σ α} (first : ∃ s, S (s, (f s).2))
    (rest : ∀ s, S (s, (f s).2) → Ends S (next (f s).1)) : Ends S (.step f next) := by
  intro steps b go along
  cases go with
  | stay =>
    obtain ⟨s, hs⟩ := first
    obtain ⟨more, x, ends, alongMore⟩ := rest s hs .stay (by simp)
    exact ⟨(s, (f s).2) :: more, x, .step .work ends, List.forall_mem_cons.2 ⟨hs, alongMore⟩⟩
  | @step _ _ _ s _ _ step goesOn =>
    cases step
    obtain ⟨hs, later⟩ := List.forall_mem_cons.1 along
    exact rest s hs goesOn later

theorem bind {a : Async σ α} {k : α → Async σ β} (first : Ends S a) (rest : ∀ x, Ends S (k x)) :
    Ends S (a >>= k) := by
  intro steps b go along
  obtain ⟨a', passes, rfl⟩ | ⟨x, before, after, rfl, _, goesOn⟩ := go.of_bind
  · obtain ⟨more, x, ends, alongMore⟩ := first passes along
    obtain ⟨last, y, goesOn, alongLast⟩ := rest x .stay (by simp)
    exact ⟨more ++ last, y, ends.bind goesOn, List.forall_mem_append.2 ⟨alongMore, alongLast⟩⟩
  · exact rest x goesOn fun p hp => along p (by simp [hp])

theorem firstOf {a : Async σ α} {b : Async σ β} (h : Ends S a)
    (never : ∀ {steps y}, Passes b steps (.done y) → ¬ ∀ p ∈ steps, S p)
    (leaves : ∀ {steps b'}, Passes b steps b' → ∃ s, S (s, b'.abandon s)) :
    Ends S (Async.firstOf a b) := by
  intro steps c go along
  obtain ⟨a', b', left, right, before, goA, goB, merge, ends⟩ := go.of_firstOf
  obtain ⟨rfl, rfl⟩ | ⟨x, s, rfl, rfl, rfl⟩ | ⟨y, s, rfl, rfl, rfl⟩ := ends
  · obtain ⟨rest, x, endsA, alongRest⟩ := h goA fun p hp => along p (merge.mem.2 (.inl hp))
    obtain ⟨s, hs⟩ := leaves goB
    have wins : Passes (.race (.done x) b' .done) [(s, b'.abandon s)] (.done (.inl x)) :=
      .step .leftWins .stay
    refine ⟨rest ++ [(s, b'.abandon s)], .inl x,
      (endsA.within (f := (Async.race · b' .done)) .leftLeg).trans wins, ?_⟩
    exact List.forall_mem_append.2 ⟨alongRest, by simpa using hs⟩
  · exact ⟨[], .inl x, .stay, by simp⟩
  · exact absurd (fun p hp => along p (by simp [merge.mem, hp])) (never goB)

theorem iterate {body : β → Async σ (β ⊕ γ)} (μ : β → Nat) (idle : ∃ s, S (s, s))
    (rounds : ∀ b, Ends S (body b))
    (closer : ∀ {b steps b'}, Passes (body b) steps (.done (.inl b')) → μ b' < μ b) (start : β) :
    Ends S (Async.iterate body start) := by
  obtain ⟨s, hs⟩ := idle
  let Fresh (a : Async σ γ) := ∃ rest y, Passes a rest (.done y) ∧ ∀ p ∈ rest, S p
  have close {a : Async σ (β ⊕ γ)} {now : List (σ × σ)} {r : β ⊕ γ} (ends : Passes a now (.done r))
      (along : ∀ p ∈ now, S p) (next : ∀ b', r = .inl b' → Fresh (Async.iterate body b')) :
      Fresh (.loop body a .done) := by
    have inner := ends.within (f := (Async.loop body · .done)) .round
    obtain b' | y := r
    · obtain ⟨rest, y, goesOn, alongRest⟩ := next b' rfl
      exact ⟨now ++ (s, s) :: rest, y, inner.trans (.step .again goesOn),
        List.forall_mem_append.2 ⟨along, List.forall_mem_cons.2 ⟨hs, alongRest⟩⟩⟩
    · exact ⟨now ++ [(s, s)], y, inner.trans (.step .final .stay),
        List.forall_mem_append.2 ⟨along, by simpa using hs⟩⟩
  have fresh (b : β) : Fresh (Async.iterate body b) := by
    induction left : μ b using Nat.strongRecOn generalizing b with
    | ind n ih =>
      obtain ⟨now, r, ends, along⟩ := rounds b .stay (by simp)
      apply close ends along
      rintro b' rfl
      exact ih (μ b') (left ▸ closer ends) b' rfl
  intro steps c go along
  obtain ⟨b, before, now, _, ⟨a, rfl, passes, rfl⟩ | ⟨y, t, rfl, _, rfl⟩⟩ := go.of_iterate
  · obtain ⟨more, r, ends, alongMore⟩ := rounds b passes fun p hp => along p (by simp [hp])
    exact close ends alongMore fun b' _ => fresh b'
  · exact ⟨[], y, .stay, by simp⟩

theorem widen {S' : (σ × τ) × (σ × τ) → Prop} {a : Async σ α} (h : Ends S a) (u : τ)
    (inner : ∀ p, S' p → S (p.1.1, p.2.1)) (outer : ∀ p, S p → S' ((p.1, u), (p.2, u))) :
    Ends S' a.widen := by
  intro steps c go along
  obtain ⟨b, passes, rfl⟩ := go.of_widen
  obtain ⟨rest, x, ends, alongRest⟩ := h passes (by
    intro p hp
    obtain ⟨q, hq, rfl⟩ := List.mem_map.1 hp
    exact inner q (along q hq))
  refine ⟨_, x, ends.widen u, ?_⟩
  intro p hp
  obtain ⟨q, hq, rfl⟩ := List.mem_map.1 hp
  exact outer q (alongRest q hq)

end Ends

end EventTracking.Async
