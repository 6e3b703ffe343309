import EventTracking.Proofs.Async.Abandon
import EventTracking.Proofs.Async.Passages

set_option autoImplicit false

namespace EventTracking.Async

variable {σ τ ι α β γ : Type}

def widen : {α : Type} → Async σ α → Async (σ × τ) α
  | _, done a => done a
  | _, step f next => step (fun s => ((f s.1).1, (f s.1).2, s.2)) fun b => (next b).widen
  | _, wait look leave next =>
    wait (fun s => ((look s.1).1, (look s.1).2, s.2)) (fun s => (leave s.1, s.2)) fun b =>
      (next b).widen
  | _, guarded release a next =>
    guarded (fun s => (release s.1, s.2)) a.widen fun b => (next b).widen
  | _, both a b next => both a.widen b.widen fun x y => (next x y).widen
  | _, race a b next => race a.widen b.widen fun r => (next r).widen
  | _, loop body a next => loop (fun b => (body b).widen) a.widen fun c => (next c).widen

theorem keeps_widen {F : Frame σ} {G : Frame (σ × τ)} (always : ∀ {s}, G.always s → F.always s.1)
    (quiet : ∀ {s t} (u : τ), F.quiet s t → G.quiet (s, u) (t, u)) {a : Async σ α}
    (h : Keeps F a) : Keeps G a.widen := by
  induction a with
  | done => trivial
  | step f next ih =>
    intro s hs
    exact ⟨quiet s.2 (h s.1 (always hs)).1, ih _ (h s.1 (always hs)).2⟩
  | wait look leave next ih =>
    intro s hs
    obtain ⟨looks, leaves, goesOn⟩ := h s.1 (always hs)
    exact ⟨quiet s.2 looks, quiet s.2 leaves, fun b hb => ih b (goesOn b hb)⟩
  | guarded release a next iha ih =>
    exact ⟨fun s hs => quiet s.2 (h.1 s.1 (always hs)), iha h.2.1, fun b => ih b (h.2.2 b)⟩
  | both a b next iha ihb ih => exact ⟨iha h.1, ihb h.2.1, fun x y => ih x y (h.2.2 x y)⟩
  | race a b next iha ihb ih => exact ⟨iha h.1, ihb h.2.1, fun r => ih r (h.2.2 r)⟩
  | loop body a next ihb iha ih =>
    exact ⟨fun b => ihb b (h.1 b), iha h.2.1, fun c => ih c (h.2.2 c)⟩

theorem abandon_widen (a : Async σ α) (s : σ × τ) :
    a.widen.abandon s = (a.abandon s.1, s.2) := by
  induction a generalizing s with
  | done | step | wait => rfl
  | guarded release a next ih => simp [widen, abandon, ih]
  | both a b next iha ihb | race a b next iha ihb => simp [widen, abandon, iha, ihb]
  | loop body a next _ ih => simp [widen, abandon, ih]

theorem Step.widen {a b : Async σ α} {s t : σ} (h : Step a s b t) (u : τ) :
    Step a.widen (s, u) b.widen (t, u) := by
  induction h with
  | work => exact .work
  | ready leave next now => exact .ready _ _ now
  | early leave next later => exact .early _ _ later
  | inside _ ih => exact .inside ih
  | release => exact .release
  | left _ ih => exact .left ih
  | right _ ih => exact .right ih
  | join => exact .join
  | leftLeg _ ih => exact .leftLeg ih
  | rightLeg _ ih => exact .rightLeg ih
  | @leftWins _ _ _ _ b _ s =>
    have given := abandon_widen b (s, u)
    exact given ▸ .leftWins
  | @rightWins _ _ _ a _ _ s =>
    have given := abandon_widen a (s, u)
    exact given ▸ .rightWins
  | round _ ih => exact .round ih
  | again => exact .again
  | final => exact .final

theorem eq_done_of_widen {a : Async σ α} {x : α} (h : (a.widen : Async (σ × τ) α) = .done x) :
    a = .done x := by
  cases a with
  | done => cases h; rfl
  | step | wait | guarded | both | race | loop => cases h

theorem Step.of_widen {a : Async σ α} {s t : σ × τ} {c : Async (σ × τ) α}
    (h : Step a.widen s c t) : ∃ b, Step a s.1 b t.1 ∧ c = b.widen ∧ t.2 = s.2 := by
  induction a generalizing s t with
  | done => cases h
  | step => cases h; exact ⟨_, .work, rfl, rfl⟩
  | wait =>
    cases h with
    | ready _ _ now => exact ⟨_, .ready _ _ now, rfl, rfl⟩
    | early _ _ later => exact ⟨_, .early _ _ later, rfl, rfl⟩
  | guarded release a next iha =>
    simp only [Async.widen] at h
    generalize wide : Async.widen a = a₀ at h
    cases h with
    | inside step =>
      subst wide
      obtain ⟨a', inner, rfl, same⟩ := iha step
      exact ⟨_, .inside inner, rfl, same⟩
    | release =>
      cases eq_done_of_widen wide
      exact ⟨_, .release, rfl, rfl⟩
  | both a b next iha ihb =>
    simp only [Async.widen] at h
    generalize wide : Async.widen a = a₀ at h
    generalize wide' : Async.widen b = b₀ at h
    cases h with
    | left step =>
      subst wide wide'
      obtain ⟨a', inner, rfl, same⟩ := iha step
      exact ⟨_, .left inner, rfl, same⟩
    | right step =>
      subst wide wide'
      obtain ⟨b', inner, rfl, same⟩ := ihb step
      exact ⟨_, .right inner, rfl, same⟩
    | join =>
      cases eq_done_of_widen wide
      cases eq_done_of_widen wide'
      exact ⟨_, .join, rfl, rfl⟩
  | race a b next iha ihb =>
    simp only [Async.widen] at h
    generalize wide : Async.widen a = a₀ at h
    generalize wide' : Async.widen b = b₀ at h
    cases h with
    | leftLeg step =>
      subst wide wide'
      obtain ⟨a', inner, rfl, same⟩ := iha step
      exact ⟨_, .leftLeg inner, rfl, same⟩
    | rightLeg step =>
      subst wide wide'
      obtain ⟨b', inner, rfl, same⟩ := ihb step
      exact ⟨_, .rightLeg inner, rfl, same⟩
    | leftWins =>
      cases eq_done_of_widen wide
      subst wide'
      rw [abandon_widen]
      exact ⟨_, .leftWins, rfl, rfl⟩
    | rightWins =>
      cases eq_done_of_widen wide'
      subst wide
      rw [abandon_widen]
      exact ⟨_, .rightWins, rfl, rfl⟩
  | loop body a next _ iha =>
    simp only [Async.widen] at h
    generalize wide : Async.widen a = a₀ at h
    cases h with
    | round step =>
      subst wide
      obtain ⟨a', inner, rfl, same⟩ := iha step
      exact ⟨_, .round inner, rfl, same⟩
    | again =>
      cases eq_done_of_widen wide
      exact ⟨_, .again, rfl, rfl⟩
    | final =>
      cases eq_done_of_widen wide
      exact ⟨_, .final, rfl, rfl⟩

theorem Passes.of_widen {a : Async σ α} {steps : List ((σ × τ) × (σ × τ))} {c : Async (σ × τ) α}
    (h : Passes a.widen steps c) :
    ∃ b, Passes a (steps.map fun p => (p.1.1, p.2.1)) b ∧ c = b.widen := by
  generalize begun : Async.widen a = whole at h
  induction h generalizing a with
  | stay => exact ⟨a, .stay, begun.symm⟩
  | step step _ ih =>
    subst begun
    obtain ⟨b, inner, rfl, _⟩ := Step.of_widen step
    obtain ⟨c, passes, rfl⟩ := ih rfl
    exact ⟨c, .step inner passes, rfl⟩

theorem Passes.widen {a b : Async σ α} {steps : List (σ × σ)} (h : Passes a steps b) (u : τ) :
    Passes a.widen (steps.map fun p => ((p.1, u), (p.2, u))) b.widen := by
  induction h with
  | stay => exact .stay
  | step step _ ih => exact .step (step.widen u) ih

theorem Steps.widen {a b : Async σ α} {s t : σ} (h : Steps a s b t) (u : τ) :
    Steps a.widen (s, u) b.widen (t, u) := by
  induction h with
  | refl => exact .refl
  | head step _ ih => exact .head (step.widen u) ih

def record (steps : List ((σ × List ι) × (σ × List ι))) : List ι :=
  steps.flatMap fun p => p.2.2.drop p.1.2.length

section Record

variable {steps rest : List ((σ × List ι) × (σ × List ι))}

@[simp]
theorem record_nil : record ([] : List ((σ × List ι) × (σ × List ι))) = [] := rfl

@[simp]
theorem record_append : record (steps ++ rest) = record steps ++ record rest := by simp [record]

@[simp]
theorem record_cons {s t : σ × List ι} :
    record ((s, t) :: rest) = t.2.drop s.2.length ++ record rest := by simp [record]

theorem record_merge {left right : List ((σ × List ι) × (σ × List ι))}
    (h : Merge left right steps) : Merge (record left) (record right) (record steps) := h.flatMap _

def note (x : ι) : Async (σ × List ι) Unit := .modify fun s => (s.1, s.2 ++ [x])

def silence (σ ι : Type) : Frame (σ × List ι) where
  always _ := True
  quiet s t := t.2 = s.2
  quiet_refl _ := rfl
  quiet_trans first second := second.trans first
  always_quiet _ _ := trivial

theorem keeps_silence_widen (a : Async σ α) : Keeps (silence σ ι) a.widen :=
  keeps_widen (F := (lax σ).toFrame) (fun _ => trivial) (fun _ _ => rfl) (keeps_lax a)

theorem Keeps.record_eq_nil {a b : Async (σ × List ι) α} (h : Keeps (silence σ ι) a)
    (go : Passes a steps b) : record steps = [] := by
  induction go with
  | stay => rfl
  | @step _ _ _ s t _ step _ ih =>
    obtain ⟨quiet, rest⟩ := h.step trivial step
    have same : t.2 = s.2 := quiet
    simp [ih rest, same]

def growth (σ ι : Type) : Frame (σ × List ι) where
  always _ := True
  quiet s t := s.2 <+: t.2
  quiet_refl _ := List.prefix_rfl
  quiet_trans := List.IsPrefix.trans
  always_quiet _ _ := trivial

theorem keeps_growth_note (x : ι) : Keeps (growth σ ι) (note x : Async (σ × List ι) Unit) :=
  Keeps.act fun s _ => List.prefix_append s.2 [x]

theorem keeps_growth_widen (a : Async σ α) : Keeps (growth σ ι) a.widen :=
  (keeps_silence_widen a).widen id fun quiet => ⟨[], (List.append_nil _).trans (Eq.symm quiet)⟩

theorem Steps.recorded {a b : Async (σ × List ι) α} {s t : σ × List ι}
    (grows : Keeps (growth σ ι) a) (run : Steps a s b t) :
    ∃ steps, Passes a steps b ∧ t.2 = s.2 ++ record steps := by
  induction run with
  | refl => exact ⟨[], .stay, by simp⟩
  | @head _ _ _ s t u step _ ih =>
    obtain ⟨⟨l, put⟩, goesOn⟩ := grows.step trivial step
    obtain ⟨steps, go, added⟩ := ih goesOn
    exact ⟨(s, t) :: steps, .step step go, by simp [added, ← put]⟩

end Record

theorem Abandons.passes {a b : Async (σ × List ι) α} {steps : List ((σ × List ι) × (σ × List ι))}
    (h : Abandons (silence σ ι) a) (go : Passes a steps b) (s : σ × List ι) :
    (b.abandon s).2 = s.2 := by
  induction go with
  | stay => exact h.abandon trivial
  | step step _ ih => exact ih (h.step trivial step).2

theorem Rounds.holds {P : σ → Prop} {body : β → Async (σ × List ι) (β ⊕ α)} {I : β → List ι → Prop}
    (round : ∀ {b b' l steps}, I b l → Passes (body b) steps (.done (.inl b')) →
      (∀ p ∈ steps, P p.1.1) → I b' (l ++ record steps))
    {b b' : β} {l : List ι} {steps : List ((σ × List ι) × (σ × List ι))} (begins : I b l)
    (go : Rounds body b steps b') (along : ∀ p ∈ steps, P p.1.1) : I b' (l ++ record steps) := by
  induction go generalizing l with
  | here => simpa using begins
  | more once _ ih =>
    have next := round begins once fun p hp => along p (by simp [hp])
    simpa using ih next fun p hp => along p (by simp [hp])

structure Records (P : σ → Prop) (a : Async (σ × List ι) α) (mid : List ι → Prop)
    (fin : α → List ι → Prop) : Prop where
  stands : ∀ {steps b}, Passes a steps b → (∀ p ∈ steps, P p.1.1) → mid (record steps)
  ends : ∀ {steps x}, Passes a steps (.done x) → (∀ p ∈ steps, P p.1.1) → fin x (record steps)

namespace Records

variable {P : σ → Prop} {mid : List ι → Prop} {fin : α → List ι → Prop}

theorem mono {mid' : List ι → Prop} {fin' : α → List ι → Prop} {a : Async (σ × List ι) α}
    (h : Records P a mid fin) (stands : ∀ l, mid l → mid' l) (ends : ∀ x l, fin x l → fin' x l) :
    Records P a mid' fin' :=
  ⟨fun go along => stands _ (h.stands go along), fun go along => ends _ _ (h.ends go along)⟩

theorem pure {x : α} (stands : mid []) (ends : fin x []) :
    Records P (Pure.pure x : Async (σ × List ι) α) mid fin := by
  constructor
  · intro steps b go _
    obtain ⟨rfl, rfl⟩ := Passes.of_done go
    exact stands
  · intro steps y go _
    obtain ⟨rfl, same⟩ := Passes.of_done go
    cases same
    exact ends

theorem silent {a : Async (σ × List ι) α} (h : Keeps (silence σ ι) a) (stands : mid [])
    (ends : ∀ x, fin x []) : Records P a mid fin := by
  constructor
  · intro steps b go _
    rw [h.record_eq_nil go]
    exact stands
  · intro steps x go _
    rw [h.record_eq_nil go]
    exact ends x

theorem act {f : σ × List ι → α × (σ × List ι)} (begins : mid [])
    (h : ∀ s, P s.1 → ∃ l, (f s).2.2 = s.2 ++ l ∧ mid l ∧ fin (f s).1 l) :
    Records P (Async.act f) mid fin := by
  constructor
  · intro steps b go along
    obtain ⟨rfl, _⟩ | ⟨s, rfl, _⟩ := go.of_act
    · exact begins
    · obtain ⟨l, put, stands, _⟩ := h s (along (s, (f s).2) (by simp))
      simpa [put] using stands
  · intro steps x go along
    obtain ⟨_, same⟩ | ⟨s, rfl, same⟩ := go.of_act
    · cases same
    · cases same
      obtain ⟨l, put, _, ends⟩ := h s (along (s, (f s).2) (by simp))
      simpa [put] using ends

theorem get {f : σ × List ι → α} (stands : mid []) (ends : ∀ s, P s.1 → fin (f s) []) :
    Records P (Async.get f) mid fin :=
  act stands fun s hs => ⟨[], by simp, stands, ends s hs⟩

theorem note {x : ι} {fin : Unit → List ι → Prop} (begins : mid []) (stands : mid [x])
    (ends : fin () [x]) : Records P (Async.note x) mid fin :=
  act begins fun _ _ => ⟨[x], rfl, stands, ends⟩

theorem bind {a : Async (σ × List ι) β} {k : β → Async (σ × List ι) α} {F : β → List ι → Prop}
    (first : Records P a mid F)
    (rest : ∀ x l, F x l → Records P (k x) (fun m => mid (l ++ m)) fun y m => fin y (l ++ m)) :
    Records P (a >>= k) mid fin := by
  constructor
  · intro steps b go along
    obtain ⟨a', passes, _⟩ | ⟨x, before, after, rfl, begun, goesOn⟩ := go.of_bind
    · exact first.stands passes along
    · have ended := first.ends begun fun p hp => along p (by simp [hp])
      simpa using (rest x _ ended).stands goesOn fun p hp => along p (by simp [hp])
  · intro steps y go along
    obtain ⟨x, before, after, rfl, begun, goesOn⟩ := go.of_bind_done
    have ended := first.ends begun fun p hp => along p (by simp [hp])
    simpa using (rest x _ ended).ends goesOn fun p hp => along p (by simp [hp])

theorem iterate {body : β → Async (σ × List ι) (β ⊕ α)} {start : β} (I : β → List ι → Prop)
    (round : ∀ b l, I b l → Records P (body b) (fun m => mid (l ++ m)) fun r m =>
      Sum.elim (I · (l ++ m)) (fin · (l ++ m)) r)
    (begins : I start []) : Records P (Async.iterate body start) mid fin := by
  have holds {b : β} {steps : List ((σ × List ι) × (σ × List ι))}
      (whole : Rounds body start steps b) (along : ∀ p ∈ steps, P p.1.1) : I b (record steps) :=
    whole.holds (I := I) (fun before once along => (round _ _ before).ends once along) begins along
  constructor
  · intro steps c go along
    obtain ⟨b, before, now, whole, ⟨a, rfl, passes, _⟩ | ⟨y, s, rfl, passes, _⟩⟩ := go.of_iterate
    all_goals
      have inv := holds whole fun p hp => along p (by simp [hp])
      simpa using (round _ _ inv).stands passes fun p hp => along p (by simp [hp])
  · intro steps x go along
    obtain ⟨b, before, now, whole, ⟨a, rfl, _, same⟩ | ⟨y, s, rfl, passes, same⟩⟩ := go.of_iterate
    · cases same
    · cases same
      have inv := holds whole fun p hp => along p (by simp [hp])
      simpa using (round _ _ inv).ends passes fun p hp => along p (by simp [hp])

theorem both {a : Async (σ × List ι) β} {b : Async (σ × List ι) γ}
    {next : β → γ → Async (σ × List ι) α} {left right : List ι → Prop} {finL : β → List ι → Prop}
    {finR : γ → List ι → Prop} (ha : Records P a left finL) (hb : Records P b right finR)
    (stands : ∀ {l r w}, left l → right r → Merge l r w → mid w)
    (joined : ∀ {x y l r w}, finL x l → finR y r → Merge l r w →
      Records P (next x y) (fun m => mid (w ++ m)) fun z m => fin z (w ++ m)) :
    Records P (.both a b next) mid fin := by
  constructor
  · intro steps c go along
    obtain ⟨a', b', l, r, goA, goB, merge, _⟩ |
      ⟨x, y, l, r, before, s, after, goA, goB, merge, rfl, goesOn⟩ := go.of_both
    · have hl := ha.stands goA fun p hp => along p (merge.mem.2 (.inl hp))
      have hr := hb.stands goB fun p hp => along p (merge.mem.2 (.inr hp))
      exact stands hl hr (record_merge merge)
    · have hl := ha.ends goA fun p hp => along p (by simp [merge.mem, hp])
      have hr := hb.ends goB fun p hp => along p (by simp [merge.mem, hp])
      have rest := joined hl hr (record_merge merge)
      simpa using rest.stands goesOn fun p hp => along p (by simp [hp])
  · intro steps z go along
    obtain ⟨a', b', l, r, _, _, _, same⟩ |
      ⟨x, y, l, r, before, s, after, goA, goB, merge, rfl, goesOn⟩ := go.of_both
    · cases same
    · have hl := ha.ends goA fun p hp => along p (by simp [merge.mem, hp])
      have hr := hb.ends goB fun p hp => along p (by simp [merge.mem, hp])
      have rest := joined hl hr (record_merge merge)
      simpa using rest.ends goesOn fun p hp => along p (by simp [hp])

theorem firstOf {a : Async (σ × List ι) β} {b : Async (σ × List ι) γ} {left right : List ι → Prop}
    {finL : β → List ι → Prop} {finR : γ → List ι → Prop} {fin : β ⊕ γ → List ι → Prop}
    (ha : Records P a left finL) (hb : Records P b right finR)
    (leavesA : Abandons (silence σ ι) a) (leavesB : Abandons (silence σ ι) b)
    (stands : ∀ {l r w}, left l → right r → Merge l r w → mid w)
    (first : ∀ {x l r w}, finL x l → right r → Merge l r w → fin (.inl x) w)
    (second : ∀ {y l r w}, left l → finR y r → Merge l r w → fin (.inr y) w) :
    Records P (Async.firstOf a b) mid fin := by
  constructor
  · intro steps c go along
    obtain ⟨a', b', l, r, before, goA, goB, merge, ends⟩ := go.of_firstOf
    have inside : ∀ p ∈ before, p ∈ steps := by
      rcases ends with ⟨rfl, _⟩ | ⟨_, _, _, rfl, _⟩ | ⟨_, _, _, rfl, _⟩ <;> simp +contextual
    have same : record steps = record before := by
      rcases ends with ⟨rfl, _⟩ | ⟨_, _, _, rfl, _⟩ | ⟨_, _, _, rfl, _⟩
      · rfl
      · simp [leavesB.passes goB]
      · simp [leavesA.passes goA]
    rw [same]
    have hl := ha.stands goA fun p hp => along p (inside p (merge.mem.2 (.inl hp)))
    have hr := hb.stands goB fun p hp => along p (inside p (merge.mem.2 (.inr hp)))
    exact stands hl hr (record_merge merge)
  · intro steps z go along
    obtain ⟨a', b', l, r, before, goA, goB, merge, ends⟩ := go.of_firstOf
    obtain ⟨_, same⟩ | ⟨x, s, rfl, rfl, same⟩ | ⟨y, s, rfl, rfl, same⟩ := ends
    · cases same
    · cases same
      have hl := ha.ends goA fun p hp => along p (by simp [merge.mem, hp])
      have hr := hb.stands goB fun p hp => along p (by simp [merge.mem, hp])
      simpa [leavesB.passes goB] using first hl hr (record_merge merge)
    · cases same
      have hl := ha.stands goA fun p hp => along p (by simp [merge.mem, hp])
      have hr := hb.ends goB fun p hp => along p (by simp [merge.mem, hp])
      simpa [leavesA.passes goA] using second hl hr (record_merge merge)

end Records

end EventTracking.Async
