import EventTracking.Proofs.Async.Abandon

set_option autoImplicit false

namespace EventTracking

structure Latch (σ : Type) where
  always : σ → Prop
  isTaken : σ → Bool
  release : σ → σ
  always_release : ∀ {s}, always s → always (release s)
  isTaken_release : ∀ s, isTaken (release s) = false
  takeable : ∃ s, always s ∧ isTaken s = true

namespace Latch

variable {σ : Type}

def frame (X : Latch σ) : Frame σ where
  always := X.always
  quiet s t := (X.always s → X.always t) ∧ X.isTaken t = X.isTaken s
  quiet_refl _ := ⟨id, rfl⟩
  quiet_trans first second := ⟨second.1 ∘ first.1, second.2.trans first.2⟩
  always_quiet hs quiet := quiet.1 hs

theorem not_quiet_release (X : Latch σ) : ∃ s, X.always s ∧ ¬ X.frame.quiet s (X.release s) := by
  obtain ⟨s, hs, taken⟩ := X.takeable
  refine ⟨s, hs, ?_⟩
  rintro ⟨_, same⟩
  rw [X.isTaken_release, taken] at same
  cases same

inductive Shift (X : Latch σ) (n n' : Nat) (s s' : σ) : Prop
  | stay (same : n' = n) (latch : X.isTaken s' = X.isTaken s)
  | enter (more : n' = n + 1) (free : X.isTaken s = false) (latch : X.isTaken s' = true)
  | leave (less : n' < n) (latch : X.isTaken s' = false)

theorem Shift.add {X : Latch σ} {n n' : Nat} {s s' : σ} (h : X.Shift n n' s s') (m : Nat) :
    X.Shift (n + m) (n' + m) s s' := by
  cases h with
  | stay same latch => exact .stay (by omega) latch
  | enter more free latch => exact .enter (by omega) free latch
  | leave less latch => exact .leave (by omega) latch

theorem Shift.add_left {X : Latch σ} {n n' : Nat} {s s' : σ} (h : X.Shift n n' s s') (m : Nat) :
    X.Shift (m + n) (m + n') s s' := by
  rw [Nat.add_comm m, Nat.add_comm m]
  exact h.add m

end Latch

namespace Async

variable {σ α β γ : Type}

open Classical in
-- In how many sections a computation stands.
noncomputable def sections (X : Latch σ) : {α : Type} → Async σ α → Nat
  | _, done _ => 0
  | _, step _ _ => 0
  | _, wait _ _ _ => 0
  | _, guarded release a _ => sections X a + if release = X.release then 1 else 0
  | _, both a b _ => sections X a + sections X b
  | _, race a b _ => sections X a + sections X b
  | _, loop _ a _ => sections X a

-- Whether a computation takes the latch only where it is free, into a section, and releases it at
-- the end of sections only.
def Minds (X : Latch σ) : {α : Type} → Async σ α → Prop
  | _, done _ => True
  | _, step f next => ∀ s, X.always s →
    X.always (f s).2 ∧ X.Shift 0 (sections X (next (f s).1)) s (f s).2 ∧ Minds X (next (f s).1)
  | _, wait look leave next => ∀ s, X.always s →
    X.frame.quiet s (look s).2 ∧ X.frame.quiet s (leave s) ∧
      ∀ b, (look s).1 = some b → sections X (next b) = 0 ∧ Minds X (next b)
  | _, guarded release a next =>
    (release = X.release ∨ ∀ s, X.always s → X.frame.quiet s (release s)) ∧ Minds X a ∧
      ∀ b, sections X (next b) = 0 ∧ Minds X (next b)
  | _, both a b next =>
    Minds X a ∧ Minds X b ∧ ∀ x y, sections X (next x y) = 0 ∧ Minds X (next x y)
  | _, race a b next => Minds X a ∧ Minds X b ∧ ∀ r, sections X (next r) = 0 ∧ Minds X (next r)
  | _, loop body a next => (∀ b, sections X (body b) = 0 ∧ Minds X (body b)) ∧ Minds X a ∧
    ∀ c, sections X (next c) = 0 ∧ Minds X (next c)

structure Outside (X : Latch σ) (a : Async σ α) : Prop where
  sections : a.sections X = 0
  minds : a.Minds X

theorem sections_bind {X : Latch σ} {a : Async σ α} {k : α → Async σ β}
    (rest : ∀ x, sections X (k x) = 0) : sections X (a.bind k) = sections X a := by
  cases a with
  | done x => exact rest x
  | step | wait | guarded | both | race | loop => rfl

theorem Minds.bind {X : Latch σ} {a : Async σ α} {k : α → Async σ β} (first : Minds X a)
    (rest : ∀ x, Outside X (k x)) : Minds X (a.bind k) := by
  have outside (x : α) : sections X (k x) = 0 := (rest x).sections
  induction a with
  | done x => exact (rest x).minds
  | step f next ih =>
    intro s hs
    obtain ⟨stays, shift, minds⟩ := first s hs
    refine ⟨stays, ?_, ih _ minds rest outside⟩
    rwa [sections_bind outside]
  | wait look leave next ih =>
    intro s hs
    obtain ⟨looks, leaves, goesOn⟩ := first s hs
    refine ⟨looks, leaves, fun b hb => ?_⟩
    obtain ⟨none, minds⟩ := goesOn b hb
    exact ⟨(sections_bind outside).trans none, ih b minds rest outside⟩
  | guarded release a next _ ih =>
    refine ⟨first.1, first.2.1, fun b => ?_⟩
    exact ⟨(sections_bind outside).trans (first.2.2 b).1, ih b (first.2.2 b).2 rest outside⟩
  | both a b next _ _ ih =>
    refine ⟨first.1, first.2.1, fun x y => ?_⟩
    exact ⟨(sections_bind outside).trans (first.2.2 x y).1, ih x y (first.2.2 x y).2 rest outside⟩
  | race a b next _ _ ih | loop body a next _ _ ih =>
    refine ⟨first.1, first.2.1, fun r => ?_⟩
    exact ⟨(sections_bind outside).trans (first.2.2 r).1, ih r (first.2.2 r).2 rest outside⟩

namespace Outside

variable {X : Latch σ}

theorem pure (x : α) : Outside X (Pure.pure x : Async σ α) := ⟨rfl, trivial⟩

theorem bind {a : Async σ α} {k : α → Async σ β} (first : Outside X a)
    (rest : ∀ x, Outside X (k x)) : Outside X (a >>= k) :=
  ⟨(sections_bind fun x => (rest x).sections).trans first.sections, first.minds.bind rest⟩

theorem of_keeps {a : Async σ α} (h : Keeps X.frame a) : Outside X a := by
  induction a with
  | done => exact ⟨rfl, trivial⟩
  | step f next ih =>
    refine ⟨rfl, fun s hs => ?_⟩
    have rest := ih _ (h s hs).2
    exact ⟨(h s hs).1.1 hs, .stay rest.sections (h s hs).1.2, rest.minds⟩
  | wait look leave next ih =>
    refine ⟨rfl, fun s hs => ⟨(h s hs).1, (h s hs).2.1, fun b hb => ?_⟩⟩
    have rest := ih b ((h s hs).2.2 b hb)
    exact ⟨rest.sections, rest.minds⟩
  | guarded release a next iha ih =>
    -- A part at whose end the latch is released would not leave the latch alone.
    have other : release ≠ X.release := by
      rintro rfl
      obtain ⟨s, hs, loud⟩ := X.not_quiet_release
      exact loud (h.1 s hs)
    have inner := iha h.2.1
    refine ⟨by simp [Async.sections, inner.sections, other], .inr h.1, inner.minds, fun b => ?_⟩
    exact ⟨(ih b (h.2.2 b)).sections, (ih b (h.2.2 b)).minds⟩
  | both a b next iha ihb ih =>
    have first := iha h.1
    have second := ihb h.2.1
    refine ⟨by simp [Async.sections, first.sections, second.sections], first.minds, second.minds, ?_⟩
    exact fun x y => ⟨(ih x y (h.2.2 x y)).sections, (ih x y (h.2.2 x y)).minds⟩
  | race a b next iha ihb ih =>
    have first := iha h.1
    have second := ihb h.2.1
    refine ⟨by simp [Async.sections, first.sections, second.sections], first.minds, second.minds, ?_⟩
    exact fun r => ⟨(ih r (h.2.2 r)).sections, (ih r (h.2.2 r)).minds⟩
  | loop body a next ihb iha ih =>
    refine ⟨(iha h.2.1).sections, fun b => ?_, (iha h.2.1).minds, fun c => ?_⟩
    · exact ⟨(ihb b (h.1 b)).sections, (ihb b (h.1 b)).minds⟩
    · exact ⟨(ih c (h.2.2 c)).sections, (ih c (h.2.2 c)).minds⟩

theorem iterate {body : β → Async σ (β ⊕ γ)} (h : ∀ b, Outside X (body b)) (start : β) :
    Outside X (Async.iterate body start) :=
  ⟨(h start).sections, fun b => ⟨(h b).sections, (h b).minds⟩, (h start).minds,
    fun _ => ⟨rfl, trivial⟩⟩

theorem composes : Composes (Outside X) where
  pure := pure
  get _ := of_keeps (.get _)
  bind := bind
  iterate := iterate

theorem gather {l : List (Async σ α)} (h : ∀ a ∈ l, Outside X a) : Outside X (Async.gather l) := by
  induction l with
  | nil => exact ⟨rfl, trivial⟩
  | cons a l ih =>
    have first := h a (by simp)
    have others := ih fun b hb => h b (by simp [hb])
    refine ⟨?_, first.minds, others.minds, fun _ _ => ⟨rfl, trivial⟩⟩
    change Async.sections X a + Async.sections X (Async.gather l) = 0
    rw [first.sections, others.sections]

theorem enter {f : σ → α × σ} {next : α → Async σ β}
    (takes : ∀ s, X.always s → X.always (f s).2 ∧
      X.Shift 0 (Async.sections X (next (f s).1)) s (f s).2)
    (rest : ∀ x, Minds X (next x)) : Outside X (.step f next) :=
  ⟨rfl, fun s hs => ⟨(takes s hs).1, (takes s hs).2, rest _⟩⟩

end Outside

namespace Minds

variable {X : Latch σ}

theorem abandon {a : Async σ α} (h : Minds X a) {s : σ} (hs : X.always s) :
    X.always (a.abandon s) ∧ X.Shift (sections X a) 0 s (a.abandon s) := by
  induction a generalizing s with
  | done | step => exact ⟨hs, .stay rfl rfl⟩
  | wait look leave next =>
    obtain ⟨_, leaves, _⟩ := h s hs
    exact ⟨leaves.1 hs, .stay rfl leaves.2⟩
  | guarded release a next ih =>
    obtain ⟨kept, shift⟩ := ih h.2.1 hs
    by_cases mine : release = X.release
    · subst mine
      exact ⟨X.always_release kept, .leave (by simp [sections]) (X.isTaken_release _)⟩
    · have quiet := h.1.resolve_left mine _ kept
      refine ⟨quiet.1 kept, ?_⟩
      have same : sections X (guarded release a next) = sections X a := by simp [sections, mine]
      rw [same]
      cases shift with
      | stay none latch => exact .stay none (quiet.2.trans latch)
      | enter more => omega
      | leave less latch => exact .leave less (quiet.2.trans latch)
  | both a b next iha ihb | race a b next iha ihb =>
    obtain ⟨kept, first⟩ := iha h.1 hs
    obtain ⟨kept', second⟩ := ihb h.2.1 kept
    refine ⟨kept', ?_⟩
    simp only [sections]
    cases second with
    | enter more => omega
    | leave less latch => exact .leave (by omega) latch
    | stay none latch =>
      cases first with
      | enter more => omega
      | stay none' latch' => exact .stay (by omega) (latch.trans latch')
      | leave less latch' => exact .leave (by omega) (latch.trans latch')
  | loop body a next _ ih => exact ih h.2.1 hs

theorem step {a a' : Async σ α} {s s' : σ} (h : Minds X a) (hs : X.always s)
    (go : Step a s a' s') :
    X.always s' ∧ X.Shift (sections X a) (sections X a') s s' ∧ Minds X a' := by
  induction go with
  | work => exact h _ hs
  | ready leave next now =>
    obtain ⟨looks, _, goesOn⟩ := h _ hs
    exact ⟨looks.1 hs, .stay (goesOn _ now).1 looks.2, (goesOn _ now).2⟩
  | early =>
    obtain ⟨looks, _, _⟩ := h _ hs
    exact ⟨looks.1 hs, .stay rfl looks.2, h⟩
  | inside _ ih =>
    obtain ⟨kept, shift, minds⟩ := ih h.2.1 hs
    exact ⟨kept, shift.add _, h.1, minds, h.2.2⟩
  | @release _ _ release b next s =>
    obtain ⟨none, minds⟩ := h.2.2 b
    by_cases mine : release = X.release
    · subst mine
      refine ⟨X.always_release hs, .leave ?_ (X.isTaken_release _), minds⟩
      simp [sections, none]
    · have quiet := h.1.resolve_left mine _ hs
      refine ⟨quiet.1 hs, .stay ?_ quiet.2, minds⟩
      simp [sections, none, mine]
  | left _ ih | leftLeg _ ih =>
    obtain ⟨kept, shift, minds⟩ := ih h.1 hs
    exact ⟨kept, shift.add _, minds, h.2⟩
  | right _ ih | rightLeg _ ih =>
    obtain ⟨kept, shift, minds⟩ := ih h.2.1 hs
    exact ⟨kept, shift.add_left _, h.1, minds, h.2.2⟩
  | join => exact ⟨hs, .stay (h.2.2 _ _).1 rfl, (h.2.2 _ _).2⟩
  | leftWins =>
    obtain ⟨none, minds⟩ := h.2.2 (.inl _)
    obtain ⟨kept, shift⟩ := h.2.1.abandon hs
    refine ⟨kept, ?_, minds⟩
    rw [none]
    simpa [sections] using shift
  | rightWins =>
    obtain ⟨none, minds⟩ := h.2.2 (.inr _)
    obtain ⟨kept, shift⟩ := h.1.abandon hs
    refine ⟨kept, ?_, minds⟩
    rw [none]
    simpa [sections] using shift
  | round _ ih =>
    obtain ⟨kept, shift, minds⟩ := ih h.2.1 hs
    exact ⟨kept, shift, h.1, minds, h.2.2⟩
  | again => exact ⟨hs, .stay (h.1 _).1 rfl, h.1, (h.1 _).2, h.2.2⟩
  | final => exact ⟨hs, .stay (h.2.2 _).1 rfl, (h.2.2 _).2⟩

end Minds

end Async

namespace Crowd

variable {σ α : Type} {X : Latch σ}

noncomputable def sections (X : Latch σ) : List (Async σ α) → Nat
  | [] => 0
  | a :: tasks => a.sections X + sections X tasks

theorem sections_append (before after : List (Async σ α)) :
    sections X (before ++ after) = sections X before + sections X after := by
  induction before with
  | nil => exact (Nat.zero_add _).symm
  | cons a before ih => simp only [List.cons_append, sections, ih, Nat.add_assoc]

theorem sections_eq_zero {tasks : List (Async σ α)} (h : ∀ a ∈ tasks, a.sections X = 0) :
    sections X tasks = 0 := by
  induction tasks with
  | nil => rfl
  | cons a tasks ih =>
    obtain ⟨first, others⟩ := List.forall_mem_cons.1 h
    rw [sections, first, ih others]

theorem sections_set {tasks : List (Async σ α)} {i : Nat} {a : Async σ α} (a' : Async σ α)
    (found : tasks[i]? = some a) :
    ∃ others, sections X tasks = a.sections X + others ∧
      sections X (tasks.set i a') = a'.sections X + others := by
  obtain ⟨inside, rfl⟩ := List.getElem?_eq_some_iff.1 found
  obtain ⟨before, after, whole, _, changed⟩ :
      ∃ l₁ l₂, tasks = l₁ ++ tasks[i] :: l₂ ∧ l₁.length = i ∧ tasks.set i a' = l₁ ++ a' :: l₂ :=
    List.exists_of_set inside
  have split (b : Async σ α) :
      sections X (before ++ b :: after) = b.sections X + (sections X before + sections X after) := by
    simp only [sections_append, sections]
    omega
  refine ⟨sections X before + sections X after, ?_, ?_⟩
  · exact (congrArg (sections X) whole).trans (split _)
  · rw [changed]
    exact split a'

structure Guarded (X : Latch σ) (c : Crowd σ α) : Prop where
  always : X.always c.state
  minds : ∀ a ∈ c.tasks, a.Minds X
  sections_eq : sections X c.tasks = if X.isTaken c.state then 1 else 0

namespace Guarded

variable {E : Setting σ α} {c c' : Crowd σ α}

theorem shift {s s' : σ} {tasks : List (Async σ α)} {i : Nat} {a a' : Async σ α}
    (h : Guarded X ⟨s, tasks⟩) (found : tasks[i]? = some a) (kept : X.always s')
    (shift : X.Shift (a.sections X) (a'.sections X) s s') (minds : a'.Minds X) :
    Guarded X ⟨s', tasks.set i a'⟩ := by
  obtain ⟨others, before, after⟩ := sections_set (X := X) a' found
  refine ⟨kept, ?_, ?_⟩
  · intro b hb
    rcases List.mem_or_eq_of_mem_set hb with old | rfl
    · exact h.minds b old
    · exact minds
  · have balance := h.sections_eq
    simp only at balance ⊢
    rw [after]
    rw [before] at balance
    cases shift with
    | stay same latch =>
      rw [same, latch]
      exact balance
    | enter more free latch =>
      simp only [free, latch, Bool.false_eq_true, if_true, if_false] at balance ⊢
      omega
    | leave less latch =>
      simp only [latch, Bool.false_eq_true, if_false]
      split at balance <;> omega

theorem turn (comes : ∀ {s a t}, E.comes s a t → X.frame.quiet s t ∧ a.Outside X)
    (outside : ∀ {s t}, E.outside s t → X.frame.quiet s t) (h : Guarded X c) (turn : Turn E c c') :
    Guarded X c' := by
  cases turn with
  | giveUp found =>
    obtain ⟨kept, shift⟩ := (h.minds _ (List.mem_of_getElem? found)).abandon h.always
    have never : (Async.never : Async σ α).Minds X :=
      fun s _ => ⟨X.frame.quiet_refl s, X.frame.quiet_refl s, fun _ _ => ⟨rfl, trivial⟩⟩
    exact h.shift found kept shift never
  | move move =>
    cases move with
    | step found go =>
      obtain ⟨kept, shift, minds⟩ := (h.minds _ (List.mem_of_getElem? found)).step h.always go
      exact h.shift found kept shift minds
    | come coming =>
      obtain ⟨quiet, new⟩ := comes coming
      refine ⟨quiet.1 h.always, ?_, ?_⟩
      · intro b hb
        rcases List.mem_append.1 hb with old | last
        · exact h.minds b old
        · exact List.mem_singleton.1 last ▸ new.minds
      · have balance := h.sections_eq
        simpa [sections_append, sections, new.sections, quiet.2] using balance
    | outside changes =>
      have quiet := outside changes
      refine ⟨quiet.1 h.always, h.minds, ?_⟩
      have balance := h.sections_eq
      simpa [quiet.2] using balance

theorem course (comes : ∀ {s a t}, E.comes s a t → X.frame.quiet s t ∧ a.Outside X)
    (outside : ∀ {s t}, E.outside s t → X.frame.quiet s t) (h : Guarded X c)
    (course : Course E c c') : Guarded X c' := by
  induction course with
  | refl => exact h
  | tail _ turn ih => exact ih.turn comes outside turn

end Guarded

end Crowd

end EventTracking
