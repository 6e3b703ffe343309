import EventTracking.Proofs.Async.Ending

set_option autoImplicit false

namespace EventTracking

namespace Merge

variable {τ : Type} {a b c bc l l' r r' w w' : List τ}

theorem append (h : Merge l r w) (h' : Merge l' r' w') : Merge (l ++ l') (r ++ r') (w ++ w') := by
  induction h with
  | nil => exact h'
  | left _ ih => exact .left ih
  | right _ ih => exact .right ih

theorem assoc (inner : Merge b c bc) (outer : Merge a bc w) :
    ∃ ab, Merge a b ab ∧ Merge ab c w := by
  induction outer generalizing b c with
  | nil =>
    cases inner
    exact ⟨[], .nil, .nil⟩
  | left _ ih =>
    obtain ⟨ab, first, second⟩ := ih inner
    exact ⟨_, .left first, .left second⟩
  | right _ ih =>
    cases inner with
    | left inner =>
      obtain ⟨ab, first, second⟩ := ih inner
      exact ⟨_, .right first, .left second⟩
    | right inner =>
      obtain ⟨ab, first, second⟩ := ih inner
      exact ⟨ab, first, .right second⟩

end Merge

inductive Merges {τ : Type} : List (List τ) → List τ → Prop where
  | nil : Merges [] []
  | cons {l w w' : List τ} {ls : List (List τ)} (rest : Merges ls w) (merge : Merge l w w') :
      Merges (l :: ls) w'

theorem Merge.sublist {τ : Type} {l r w : List τ} (h : Merge l r w) : l.Sublist w := by
  induction h with
  | nil => exact .slnil
  | left _ ih => exact ih.cons_cons _
  | right _ ih => exact ih.cons _

theorem Merges.sublist {τ : Type} {l w : List τ} {ls : List (List τ)} (h : Merges ls w)
    (listed : l ∈ ls) : l.Sublist w := by
  induction h with
  | nil => cases listed
  | cons _ merge ih =>
    rcases List.mem_cons.1 listed with rfl | other
    · exact merge.sublist
    · exact (ih other).trans merge.swap.sublist

namespace Async

variable {σ α β γ ι : Type} {steps : List (σ × σ)}

structure Leg (σ ι α : Type) where
  task : ι
  steps : List (σ × σ)
  left : Async σ α

theorem eq_done_of_bind {a : Async σ β} {k : β → Async σ α} {x : α} (h : a.bind k = .done x) :
    ∃ y, a = .done y ∧ k y = .done x := by
  cases a with
  | done y => exact ⟨y, rfl, h⟩
  | step | wait | guarded | both | race | loop => cases h

namespace Passes

theorem of_map {a : Async σ β} {g : β → α} {b : Async σ α}
    (h : Passes (a >>= fun x => .done (g x)) steps b) :
    ∃ a', Passes a steps a' ∧ ∀ y, b = .done y → ∃ x, a' = .done x ∧ y = g x := by
  obtain ⟨a', passes, rfl⟩ | ⟨x, before, after, rfl, passes, rest⟩ := h.of_bind
  · refine ⟨a', passes, fun y ended => ?_⟩
    obtain ⟨x, rfl, same⟩ := eq_done_of_bind ended
    cases same
    exact ⟨x, rfl, rfl⟩
  · obtain ⟨rfl, rfl⟩ := rest.of_done
    refine ⟨.done x, by simpa using passes, fun y ended => ⟨x, rfl, ?_⟩⟩
    cases ended
    rfl

theorem of_gather {tasks : List ι} {f : ι → Async σ α} {b : Async σ (List α)}
    (h : Passes (gather (tasks.map f)) steps b) :
    ∃ (legs : List (Leg σ ι α)) (own idle : List (σ × σ)),
      legs.map Leg.task = tasks ∧ (∀ x ∈ legs, Passes (f x.task) x.steps x.left) ∧
      Merges (legs.map Leg.steps) own ∧ Merge own idle steps ∧ (∀ p ∈ idle, p.2 = p.1) ∧
      ∀ xs, b = .done xs → legs.map Leg.left = xs.map .done := by
  induction tasks generalizing steps b with
  | nil =>
    obtain ⟨rfl, rfl⟩ := Passes.of_done h
    refine ⟨[], [], [], rfl, by simp, .nil, .nil, by simp, fun xs ended => ?_⟩
    cases ended
    rfl
  | cons i tasks ih =>
    obtain ⟨a, b', left, right, first, others, merge, rfl⟩ |
      ⟨x, y, left, right, before, s, after, first, others, merge, rfl, rest⟩ := Passes.of_both h
    · obtain ⟨legs, own, idle, rfl, each, merges, inner, quiet, _⟩ := ih others
      obtain ⟨all, joined, outer⟩ := inner.assoc merge
      exact ⟨⟨i, left, a⟩ :: legs, all, idle, rfl, by simpa using ⟨first, each⟩,
        .cons merges joined, outer, quiet, nofun⟩
    · obtain ⟨legs, own, idle, rfl, each, merges, inner, quiet, ended⟩ := ih others
      obtain ⟨all, joined, outer⟩ := inner.assoc merge
      obtain ⟨rfl, rfl⟩ := rest.of_done
      have last : Merge [] [(s, s)] [(s, s)] := .right .nil
      refine ⟨⟨i, left, .done x⟩ :: legs, all, idle ++ [(s, s)], rfl,
        by simpa using ⟨first, each⟩, .cons merges joined, by simpa using outer.append last, ?_, ?_⟩
      · exact List.forall_mem_append.2 ⟨quiet, by simp⟩
      · rintro xs ⟨⟩
        simp [ended y rfl]

end Passes

namespace Ends

variable {S : σ × σ → Prop}

theorem both {a : Async σ β} {b : Async σ γ} {next : β → γ → Async σ α} (idle : ∃ s, S (s, s))
    (ha : Ends S a) (hb : Ends S b) (rest : ∀ x y, Ends S (next x y)) :
    Ends S (.both a b next) := by
  intro steps c go along
  obtain ⟨a', b', left, right, goA, goB, merge, rfl⟩ |
    ⟨x, y, left, right, before, s, after, _, _, _, rfl, goesOn⟩ := go.of_both
  · obtain ⟨s, hs⟩ := idle
    obtain ⟨moreA, x, endsA, alongA⟩ := ha goA fun p hp => along p (merge.mem.2 (.inl hp))
    obtain ⟨moreB, y, endsB, alongB⟩ := hb goB fun p hp => along p (merge.mem.2 (.inr hp))
    obtain ⟨last, z, ends, alongLast⟩ := rest x y .stay (by simp)
    have first := endsA.within (f := (Async.both · b' next)) .left
    have second := endsB.within (f := (Async.both (.done x) · next)) .right
    refine ⟨moreA ++ (moreB ++ (s, s) :: last), z,
      first.trans (second.trans (.step .join ends)), ?_⟩
    exact List.forall_mem_append.2 ⟨alongA, List.forall_mem_append.2
      ⟨alongB, List.forall_mem_cons.2 ⟨hs, alongLast⟩⟩⟩
  · exact rest x y goesOn fun p hp => along p (by simp [hp])

theorem gather {l : List (Async σ α)} (idle : ∃ s, S (s, s)) (h : ∀ a ∈ l, Ends S a) :
    Ends S (Async.gather l) := by
  induction l with
  | nil => exact Ends.pure []
  | cons a l ih =>
    exact Ends.both idle (h a (by simp)) (ih fun b hb => h b (by simp [hb])) fun x xs =>
      Ends.pure (x :: xs)

end Ends

end Async

end EventTracking
