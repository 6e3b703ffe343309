import EventTracking.Proofs.Async.Step

set_option autoImplicit false

namespace EventTracking

structure Frame (σ : Type) where
  -- What is true of the state at all times.
  always : σ → Prop
  -- The changes that anyone may make.
  quiet : σ → σ → Prop
  quiet_refl : ∀ s, quiet s s
  quiet_trans : ∀ {s t u}, quiet s t → quiet t u → quiet s u
  always_quiet : ∀ {s t}, always s → quiet s t → always t

namespace Async

variable {σ α β γ : Type}

-- Whether a computation acts as it may and leaves quietly where it is given up.
def Confined (F : Frame σ) (acts : σ → σ → Prop) : {α : Type} → Async σ α → Prop
  | _, done _ => True
  | _, step f next => ∀ s, F.always s → acts s (f s).2 ∧ Confined F acts (next (f s).1)
  | _, wait look leave next => ∀ s, F.always s →
    acts s (look s).2 ∧ F.quiet s (leave s) ∧
      ∀ b, (look s).1 = some b → Confined F acts (next b)
  | _, guarded release a next =>
    (∀ s, F.always s → F.quiet s (release s)) ∧ Confined F acts a ∧
      ∀ b, Confined F acts (next b)
  | _, both a b next =>
    Confined F acts a ∧ Confined F acts b ∧ ∀ x y, Confined F acts (next x y)
  | _, race a b next => Confined F acts a ∧ Confined F acts b ∧ ∀ r, Confined F acts (next r)
  | _, loop body a next =>
    (∀ b, Confined F acts (body b)) ∧ Confined F acts a ∧ ∀ c, Confined F acts (next c)

abbrev Keeps (F : Frame σ) (a : Async σ α) : Prop := Confined F F.quiet a

-- Whether all that a computation does where it is given up is quiet.
abbrev Abandons (F : Frame σ) (a : Async σ α) : Prop := Confined F (fun _ _ => True) a

-- What a property of computations has to say of their parts for those that have it to leave
-- quietly.
structure Leaves (F : Frame σ) (C : {α : Type} → Async σ α → Prop) : Prop where
  wait : ∀ {α β : Type} {look : σ → Option β × σ} {leave : σ → σ} {next : β → Async σ α},
    C (.wait look leave next) → ∀ s, F.always s → F.quiet s (leave s)
  guarded : ∀ {α β : Type} {release : σ → σ} {a : Async σ β} {next : β → Async σ α},
    C (.guarded release a next) → (∀ s, F.always s → F.quiet s (release s)) ∧ C a
  both : ∀ {α β γ : Type} {a : Async σ β} {b : Async σ γ} {next : β → γ → Async σ α},
    C (.both a b next) → C a ∧ C b
  race : ∀ {α β γ : Type} {a : Async σ β} {b : Async σ γ} {next : β ⊕ γ → Async σ α},
    C (.race a b next) → C a ∧ C b
  loop : ∀ {α β γ : Type} {body : β → Async σ (β ⊕ γ)} {a : Async σ (β ⊕ γ)}
    {next : γ → Async σ α}, C (.loop body a next) → C a

theorem Leaves.abandon {F : Frame σ} {C : {α : Type} → Async σ α → Prop} (leaves : Leaves F C)
    {a : Async σ α} (h : C a) {s : σ} (hs : F.always s) : F.quiet s (a.abandon s) := by
  induction a generalizing s with
  | done | step => exact F.quiet_refl s
  | wait look leave next => exact leaves.wait h s hs
  | guarded release a next ih =>
    obtain ⟨releases, ha⟩ := leaves.guarded h
    have inner := ih ha hs
    exact F.quiet_trans inner (releases _ (F.always_quiet hs inner))
  | both a b next iha ihb =>
    obtain ⟨ha, hb⟩ := leaves.both h
    have first := iha ha hs
    exact F.quiet_trans first (ihb hb (F.always_quiet hs first))
  | race a b next iha ihb =>
    obtain ⟨ha, hb⟩ := leaves.race h
    have first := iha ha hs
    exact F.quiet_trans first (ihb hb (F.always_quiet hs first))
  | loop body a next _ ih => exact ih (leaves.loop h) hs

namespace Confined

variable {F : Frame σ} {acts : σ → σ → Prop}

theorem pure (x : α) : Confined F acts (Pure.pure x : Async σ α) := trivial

theorem bind {a : Async σ α} {k : α → Async σ β} (first : Confined F acts a)
    (rest : ∀ x, Confined F acts (k x)) : Confined F acts (a >>= k) := by
  change Confined F acts (a.bind k)
  induction a with
  | done x => exact rest x
  | step f next ih => exact fun s hs => ⟨(first s hs).1, ih _ (first s hs).2 rest⟩
  | wait look leave next ih =>
    intro s hs
    obtain ⟨looks, leaves, goesOn⟩ := first s hs
    exact ⟨looks, leaves, fun b hb => ih b (goesOn b hb) rest⟩
  | guarded release a next _ ih => exact ⟨first.1, first.2.1, fun b => ih b (first.2.2 b) rest⟩
  | both a b next _ _ ih => exact ⟨first.1, first.2.1, fun x y => ih x y (first.2.2 x y) rest⟩
  | race a b next _ _ ih => exact ⟨first.1, first.2.1, fun r => ih r (first.2.2 r) rest⟩
  | loop body a next _ _ ih => exact ⟨first.1, first.2.1, fun c => ih c (first.2.2 c) rest⟩

theorem ensuring {release : σ → σ} {a : Async σ α}
    (releases : ∀ s, F.always s → F.quiet s (release s)) (h : Confined F acts a) :
    Confined F acts (Async.ensuring release a) := ⟨releases, h, fun _ => trivial⟩

theorem gather {l : List (Async σ α)} (h : ∀ a ∈ l, Confined F acts a) :
    Confined F acts (Async.gather l) := by
  induction l with
  | nil => exact trivial
  | cons a l ih =>
    exact ⟨h a (by simp), ih fun b hb => h b (by simp [hb]), fun _ _ => trivial⟩

theorem firstOf {a : Async σ α} {b : Async σ β} (ha : Confined F acts a)
    (hb : Confined F acts b) : Confined F acts (Async.firstOf a b) := ⟨ha, hb, fun _ => trivial⟩

theorem iterate {body : β → Async σ (β ⊕ γ)} (h : ∀ b, Confined F acts (body b)) (start : β) :
    Confined F acts (Async.iterate body start) := ⟨h, h start, fun _ => trivial⟩

theorem mono {F' : Frame σ} {acts' : σ → σ → Prop} {a : Async σ α} (h : Confined F acts a)
    (always : ∀ {s}, F'.always s → F.always s) (quiet : ∀ {s t}, F.quiet s t → F'.quiet s t)
    (allows : ∀ {s t}, acts s t → acts' s t) : Confined F' acts' a := by
  induction a with
  | done => trivial
  | step f next ih =>
    intro s hs
    obtain ⟨does, goesOn⟩ := h s (always hs)
    exact ⟨allows does, ih _ goesOn⟩
  | wait look leave next ih =>
    intro s hs
    obtain ⟨looks, leaves, goesOn⟩ := h s (always hs)
    exact ⟨allows looks, quiet leaves, fun b hb => ih b (goesOn b hb)⟩
  | guarded release a next iha ih =>
    exact ⟨fun s hs => quiet (h.1 s (always hs)), iha h.2.1, fun b => ih b (h.2.2 b)⟩
  | both a b next iha ihb ih => exact ⟨iha h.1, ihb h.2.1, fun x y => ih x y (h.2.2 x y)⟩
  | race a b next iha ihb ih => exact ⟨iha h.1, ihb h.2.1, fun r => ih r (h.2.2 r)⟩
  | loop body a next ihb iha ih =>
    exact ⟨fun b => ihb b (h.1 b), iha h.2.1, fun c => ih c (h.2.2 c)⟩

theorem leaves : Leaves F (Confined F acts) where
  wait h s hs := (h s hs).2.1
  guarded h := ⟨h.1, h.2.1⟩
  both h := ⟨h.1, h.2.1⟩
  race h := ⟨h.1, h.2.1⟩
  loop h := h.2.1

theorem abandon {a : Async σ α} (h : Confined F acts a) {s : σ} (hs : F.always s) :
    F.quiet s (a.abandon s) := leaves.abandon h hs

theorem step {a a' : Async σ α} {s s' : σ} (h : Confined F acts a) (hs : F.always s)
    (go : Step a s a' s') : (acts s s' ∨ F.quiet s s') ∧ Confined F acts a' := by
  induction go with
  | work => exact (h _ hs).imp_left .inl
  | ready leave next now => exact ⟨.inl (h _ hs).1, (h _ hs).2.2 _ now⟩
  | early => exact ⟨.inl (h _ hs).1, h⟩
  | inside _ ih => exact ⟨(ih h.2.1 hs).1, h.1, (ih h.2.1 hs).2, h.2.2⟩
  | release => exact ⟨.inr (h.1 _ hs), h.2.2 _⟩
  | left _ ih | leftLeg _ ih => exact ⟨(ih h.1 hs).1, (ih h.1 hs).2, h.2⟩
  | right _ ih | rightLeg _ ih => exact ⟨(ih h.2.1 hs).1, h.1, (ih h.2.1 hs).2, h.2.2⟩
  | join => exact ⟨.inr (F.quiet_refl _), h.2.2 _ _⟩
  | leftWins => exact ⟨.inr (h.2.1.abandon hs), h.2.2 _⟩
  | rightWins => exact ⟨.inr (h.1.abandon hs), h.2.2 _⟩
  | round _ ih => exact ⟨(ih h.2.1 hs).1, h.1, (ih h.2.1 hs).2, h.2.2⟩
  | again => exact ⟨.inr (F.quiet_refl _), h.1, h.1 _, h.2.2⟩
  | final => exact ⟨.inr (F.quiet_refl _), h.2.2 _⟩

end Confined

namespace Keeps

variable {F : Frame σ}

theorem act {f : σ → α × σ} (h : ∀ s, F.always s → F.quiet s (f s).2) : Keeps F (Async.act f) :=
  fun s hs => ⟨h s hs, trivial⟩

theorem get (f : σ → α) : Keeps F (Async.get f) := act fun s _ => F.quiet_refl s

theorem await {look : σ → Option α × σ} {leave : σ → σ}
    (looks : ∀ s, F.always s → F.quiet s (look s).2)
    (leaves : ∀ s, F.always s → F.quiet s (leave s)) : Keeps F (Async.await look leave) :=
  fun s hs => ⟨looks s hs, leaves s hs, fun _ _ => trivial⟩

theorem widen {F' : Frame σ} {a : Async σ α} (h : Keeps F a)
    (always : ∀ {s}, F'.always s → F.always s)
    (quiet : ∀ {s t}, F.quiet s t → F'.quiet s t) : Keeps F' a := h.mono always quiet quiet

theorem step {a a' : Async σ α} {s s' : σ} (h : Keeps F a) (hs : F.always s)
    (go : Step a s a' s') : F.quiet s s' ∧ Keeps F a' :=
  (Confined.step h hs go).imp_left (or_self_iff.1 ·)

end Keeps

theorem Confined.abandons {F : Frame σ} {acts : σ → σ → Prop} {a : Async σ α}
    (h : Confined F acts a) : Abandons F a := h.mono id id fun _ => trivial

theorem Abandons.act {F : Frame σ} (f : σ → α × σ) : Abandons F (Async.act f) :=
  fun _ _ => ⟨trivial, trivial⟩

structure Composes (C : {α : Type} → Async σ α → Prop) : Prop where
  pure : ∀ {α : Type} (x : α), C (Pure.pure x : Async σ α)
  get : ∀ {α : Type} (f : σ → α), C (Async.get f)
  bind : ∀ {α β : Type} {a : Async σ α} {k : α → Async σ β}, C a → (∀ x, C (k x)) → C (a >>= k)
  iterate : ∀ {β γ : Type} {body : β → Async σ (β ⊕ γ)}, (∀ b, C (body b)) →
    ∀ start, C (Async.iterate body start)

theorem Keeps.composes {F : Frame σ} : Composes (Keeps F) where
  pure := Confined.pure
  get := Keeps.get
  bind := Confined.bind
  iterate := Confined.iterate

theorem Abandons.composes {F : Frame σ} : Composes (Abandons F) where
  pure := Confined.pure
  get _ := Abandons.act _
  bind := Confined.bind
  iterate := Confined.iterate

end Async

end EventTracking
