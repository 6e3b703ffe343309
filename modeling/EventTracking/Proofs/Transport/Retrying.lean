import EventTracking.Proofs.Async.Ending
import EventTracking.Proofs.Retry.Rounding
import EventTracking.Proofs.Transport.Record
import Mathlib.Data.Nat.Find

set_option autoImplicit false

namespace EventTracking

open Async (Records Ends record Passes)

namespace Retry

variable {σ : Type}

def Policy.GivesUp (p : Policy) (n : Nat) (elapsed : Duration) : Prop :=
  p.maxAttempts ≤ n ∨ ∃ budget, p.maxRetryTime = some budget ∧ budget < elapsed + p.delayFor (n - 1)

namespace State

variable {s : State} {elapsed : Duration}

theorem failed_cases (s : State) (e : Error) (elapsed : Duration)
    (representable : ∀ budget, s.policy.maxRetryTime = some budget →
      elapsed + s.policy.delayFor (s.attempts - 1) ≤ Duration.maximum) :
    (s.policy.GivesUp s.attempts elapsed ∧
        s.failed e elapsed = .fail (.exhausted s.attempts e)) ∨
      ¬ s.policy.GivesUp s.attempts elapsed ∧
        s.failed e elapsed = .pause (s.policy.delayFor (s.attempts - 1)) := by
  by_cases last : s.policy.maxAttempts ≤ s.attempts
  · exact .inl ⟨.inl last, by simp [failed, recordFailure, last]⟩
  · cases set : s.policy.maxRetryTime with
    | none =>
      exact .inr ⟨by simp [Policy.GivesUp, last, set], by simp [failed, recordFailure, last, set]⟩
    | some budget =>
      have fits := representable budget set
      by_cases exceeds : budget < elapsed + s.policy.delayFor (s.attempts - 1)
      · refine .inl ⟨.inr ⟨budget, set, exceeds⟩, ?_⟩
        simp [failed, recordFailure, last, set, Duration.add?, fits, exceeds]
      · refine .inr ⟨by simpa [Policy.GivesUp, last, set] using exceeds, ?_⟩
        simp [failed, recordFailure, last, set, Duration.add?, fits, exceeds]

theorem attempts_lt_of_failed {e : Error} {wait : Duration} (h : s.failed e elapsed = .pause wait) :
    s.attempts < s.policy.maxAttempts := by
  apply Nat.lt_of_not_le
  intro last
  simp [failed, recordFailure, last] at h

end State

-- A call of a retry, and what the attempts meet with: the answers, and the times that have passed
-- since the first attempt where one has failed. Attempts count from one.
structure Script extends Call where
  answers : Nat → Except Error Unit
  elapsed : Nat → Duration

namespace Script

def Over (x : Script) (n : Nat) : Prop :=
  x.answers n = .ok () ∨ x.policy.GivesUp n (x.elapsed n)

def attempt (x : Script) (n : Nat) : List Deed :=
  [.began x.cancellation, .called (.leaf x.leaf) x.batch,
    .answered (.leaf x.leaf) x.batch (x.answers n)]

def failure (x : Script) (n : Nat) : List Deed := x.attempt n ++ [.read (x.elapsed n)]

def wait (x : Script) (n : Nat) : List Deed :=
  [.paused x.pauser (x.policy.delayFor (n - 1)), .resumed]

def upTo (x : Script) (n : Nat) : List Deed :=
  (List.range' 1 n).flatMap fun k => x.failure k ++ x.wait k

-- All that a call does whose last attempt is attempt `i`.
def whole (x : Script) (i : Nat) : List Deed :=
  x.upTo (i - 1) ++ match x.answers i with
    | .ok () => x.attempt i
    | .error _ => x.failure i

def outcome (x : Script) (i : Nat) : Except Error Unit :=
  match x.answers i with
  | .ok () => .ok ()
  | .error e => .error (.exhausted i e)

end Script

end Retry

namespace Deed

def answer? : Deed → Option (Except Error Unit)
  | answered _ _ r => some r
  | _ => none

def reading? : Deed → Option Duration
  | read d => some d
  | _ => none

end Deed

namespace Retry.Script

def Follows (x : Script) (l : List Deed) : Prop :=
  (∀ {k r}, (l.filterMap Deed.answer?)[k]? = some r → r = x.answers (k + 1)) ∧
    ∀ {k d}, (l.filterMap Deed.reading?)[k]? = some d → d = x.elapsed (k + 1)

variable {x : Script} {l m : List Deed} {n : Nat}

theorem Follows.left (h : x.Follows (l ++ m)) : x.Follows l := by
  constructor
  · intro k r found
    apply h.1
    rw [List.filterMap_append, List.getElem?_append_left (List.getElem?_eq_some_iff.1 found).1]
    exact found
  · intro k d found
    apply h.2
    rw [List.filterMap_append, List.getElem?_append_left (List.getElem?_eq_some_iff.1 found).1]
    exact found

theorem upTo_succ (x : Script) (n : Nat) :
    x.upTo (n + 1) = x.upTo n ++ (x.failure (n + 1) ++ x.wait (n + 1)) := by
  rw [upTo, List.range'_concat, List.flatMap_append]
  simp [upTo, Nat.add_comm]

theorem answers_upTo (x : Script) (n : Nat) : ((x.upTo n).filterMap Deed.answer?).length = n := by
  induction n with
  | zero => rfl
  | succ n ih =>
    rw [upTo_succ, List.filterMap_append, List.length_append, ih]
    rfl

theorem readings_upTo (x : Script) (n : Nat) :
    ((x.upTo n).filterMap Deed.reading?).length = n := by
  induction n with
  | zero => rfl
  | succ n ih =>
    rw [upTo_succ, List.filterMap_append, List.length_append, ih]
    rfl

theorem Follows.answer {a : Except Error Unit} {y : Endpoint} {batch : List Event}
    (h : x.Follows (x.upTo n ++ (m ++ .answered y batch a :: l)))
    (none : m.filterMap Deed.answer? = []) : a = x.answers (n + 1) := by
  apply h.1
  simp [none, Deed.answer?, answers_upTo]

theorem Follows.reading {d : Duration} (h : x.Follows (x.upTo n ++ (m ++ .read d :: l)))
    (none : m.filterMap Deed.reading? = []) : d = x.elapsed (n + 1) := by
  apply h.2
  simp [none, Deed.reading?, readings_upTo]

theorem upTo_prefix_upTo {n i : Nat} (h : n ≤ i) : x.upTo n <+: x.upTo i := by
  induction h with
  | refl => exact List.prefix_rfl
  | step _ ih => exact ih.trans (upTo_succ x _ ▸ List.prefix_append _ _)

theorem upTo_prefix_whole {i : Nat} (h : n < i) : x.upTo n <+: x.whole i :=
  (upTo_prefix_upTo (Nat.le_sub_one_of_lt h)).trans (List.prefix_append _ _)

theorem attempt_prefix_whole {i : Nat} (h : n < i) :
    x.upTo n ++ x.attempt (n + 1) <+: x.whole i := by
  obtain rfl | more : i = n + 1 ∨ n + 1 < i := by omega
  · rw [whole, Nat.add_sub_cancel, List.prefix_append_right_inj]
    split
    · exact List.prefix_rfl
    · exact List.prefix_append _ _
  · refine .trans ?_ (upTo_prefix_whole more)
    rw [upTo_succ, List.prefix_append_right_inj, failure, List.append_assoc]
    exact List.prefix_append _ _

theorem failure_prefix_whole {i : Nat} {e : Error} (h : n < i)
    (failed : x.answers (n + 1) = .error e) : x.upTo n ++ x.failure (n + 1) <+: x.whole i := by
  obtain rfl | more : i = n + 1 ∨ n + 1 < i := by omega
  · simp [whole, failed]
  · refine .trans ?_ (upTo_prefix_whole more)
    rw [upTo_succ, List.prefix_append_right_inj]
    exact List.prefix_append _ _

theorem whole_of_ok (ok : x.answers (n + 1) = .ok ()) :
    x.whole (n + 1) = x.upTo n ++ x.attempt (n + 1) := by simp [whole, ok]

theorem whole_of_error {e : Error} (failed : x.answers (n + 1) = .error e) :
    x.whole (n + 1) = x.upTo n ++ x.failure (n + 1) := by simp [whole, failed]

def Representable (x : Script) : Prop :=
  ∀ budget, x.policy.maxRetryTime = some budget →
    ∀ n, x.elapsed n + x.policy.delayFor (n - 1) ≤ Duration.maximum

def Told (x : Script) (l : List Deed) : Prop := .cancelled x.cancellation ∉ l ∧ x.Follows l

theorem Told.left (h : x.Told (l ++ m)) : x.Told l :=
  ⟨fun inside => h.1 (List.mem_append_left _ inside), h.2.left⟩

def Stands (x : Script) (i : Nat) (l : List Deed) : Phase → Prop
  | .attempting s => s.policy = x.policy ∧ s.attempts < i ∧ l = x.upTo s.attempts
  | .pausing s d => s.policy = x.policy ∧ s.attempts < i ∧ ∃ n e, s.attempts = n + 1 ∧
    d = x.policy.delayFor n ∧ x.answers (n + 1) = .error e ∧ l = x.upTo n ++ x.failure (n + 1)

section Rounds

variable {σ : Type} {env : Surroundings σ} {i : Nat} {s : State} {r : Phase ⊕ Except Error Unit}

def Answered (x : Script) (a : Except Error Unit) (l : List Deed) : Prop :=
  l = [.called (.leaf x.leaf) x.batch, .answered (.leaf x.leaf) x.batch a]

theorem eq_of_over (first : ∀ j, 1 ≤ j → j < i → ¬ x.Over j) (more : n < i)
    (final : x.Over (n + 1)) : i = n + 1 := by
  apply Nat.le_antisymm _ more
  apply Nat.le_of_not_lt
  exact fun later => first (n + 1) (Nat.le_add_left 1 n) later final

theorem attempted_stands (representable : x.Representable) (final : x.Over i)
    (first : ∀ j, 1 ≤ j → j < i → ¬ x.Over j) (before : x.Stands i l (.attempting s))
    (told : x.Told (l ++ m))
    (h : Surroundings.Attempted (fun s => env.isCancelled x.cancellation s = false) env
      x.cancellation x.Answered s r m) :
    Sum.elim (x.Stands i (l ++ m)) (fun a => l ++ m = x.whole i ∧ a = x.outcome i) r := by
  obtain ⟨policy, n⟩ := s
  obtain ⟨rfl, more, rfl⟩ := before
  -- How the failure of this attempt is judged.
  have judged (e : Error) {d : Duration} (time : d = x.elapsed (n + 1)) :=
    State.failed_cases (State.start ⟨x.policy, n⟩) e d fun budget set =>
      time ▸ representable budget set (n + 1)
  cases h with
  | stopped now =>
    obtain ⟨t, calm, stop⟩ := now
    simp [calm] at stop
  | accepted _ h =>
    subst h
    have ok := told.2.answer (m := [_, _]) rfl
    obtain rfl := eq_of_over first more (.inl ok.symm)
    exact ⟨by rw [whole_of_ok ok.symm, attempt, ← ok], by simp [outcome, ← ok]⟩
  | @gaveUp e e' _ d _ h next =>
    subst h
    have failed := told.2.answer (m := [_, _]) rfl
    have time := told.2.reading (m := [_, _, _]) rfl
    obtain ⟨gives, judged⟩ | ⟨_, judged⟩ := judged e time
    · rw [judged] at next
      cases next
      obtain rfl := eq_of_over first more (.inr (time ▸ gives))
      refine ⟨?_, by simp [outcome, ← failed, State.start]⟩
      simp [whole_of_error failed.symm, failure, attempt, ← failed, ← time]
    · rw [judged] at next
      cases next
  | @retries e _ d wait _ h next =>
    subst h
    have failed := told.2.answer (m := [_, _]) rfl
    have time := told.2.reading (m := [_, _, _]) rfl
    obtain ⟨_, judged⟩ | ⟨goesOn, judged⟩ := judged e time
    · rw [judged] at next
      cases next
    · rw [judged] at next
      cases next
      have later : i ≠ n + 1 := by
        rintro rfl
        obtain ok | final := final
        · rw [← failed] at ok
          cases ok
        · exact goesOn (time ▸ final)
      refine ⟨rfl, Nat.lt_of_le_of_ne more later.symm, n, e, rfl, rfl, failed.symm, ?_⟩
      simp [failure, attempt, ← failed, ← time]

theorem wait_of_merge {l w told : List Deed}
    (uncancelled : .cancelled x.cancellation ∉ w) (right : told <+: [.cancelled x.cancellation])
    (merge : Merge l told w) : w = l := by
  rcases List.prefix_cons_iff.1 right with rfl | ⟨_, rfl, _⟩
  · exact merge.eq_left
  · exact absurd (merge.mem.2 (.inr (by simp))) uncancelled

theorem paused_stands {d : Duration} (before : x.Stands i l (.pausing s d)) (told : x.Told (l ++ m))
    (h : Surroundings.Paused x.pauser x.cancellation d s r m) :
    Sum.elim (x.Stands i (l ++ m)) (fun a => l ++ m = x.whole i ∧ a = x.outcome i) r := by
  have uncancelled : .cancelled x.cancellation ∉ m := fun inside =>
    told.1 (List.mem_append_right _ inside)
  cases h with
  | stopped _ merge => exact absurd (merge.mem.2 (.inr (by simp))) uncancelled
  | resumes right merge =>
    obtain rfl := wait_of_merge uncancelled right merge
    obtain ⟨policy, more, n, e, attempts, rfl, _, rfl⟩ := before
    refine ⟨policy, more, ?_⟩
    rw [attempts, upTo_succ, List.append_assoc]
    rfl

theorem attempting_prefix (before : x.Stands i l (.attempting s)) (told : x.Told (l ++ m))
    (h : m = [] ∨ (∃ m', (∃ a, m' <+: [.called (.leaf x.leaf) x.batch,
        .answered (.leaf x.leaf) x.batch a]) ∧ m = .began x.cancellation :: m') ∨
      ∃ e m' d, x.Answered (.error e) m' ∧ m = .began x.cancellation :: (m' ++ [.read d])) :
    l ++ m <+: x.whole i := by
  obtain ⟨_, more, rfl⟩ := before
  rcases h with rfl | ⟨m', ⟨a, hm⟩, rfl⟩ | ⟨e, m', d, rfl, rfl⟩
  · simpa using upTo_prefix_whole more
  · refine .trans ?_ (attempt_prefix_whole more)
    rw [List.prefix_append_right_inj]
    obtain rfl | ⟨_, rfl, rest⟩ := List.prefix_cons_iff.1 hm
    · simp [attempt]
    obtain rfl | ⟨_, rfl, none⟩ := List.prefix_cons_iff.1 rest
    · simp [attempt]
    · have answer := told.2.answer (m := [_, _]) rfl
      simp [attempt, answer, List.prefix_nil.1 none]
  · have failed := told.2.answer (m := [_, _]) rfl
    have time := told.2.reading (m := [_, _, _]) rfl
    simpa [failure, attempt, ← failed, ← time] using failure_prefix_whole more failed.symm

theorem pausing_prefix {d : Duration} {l' told' : List Deed}
    (before : x.Stands i l (.pausing s d)) (told : x.Told (l ++ m))
    (left : l' <+: [.paused x.pauser d, .resumed]) (right : told' <+: [.cancelled x.cancellation])
    (merge : Merge l' told' m) : l ++ m <+: x.whole i := by
  have uncancelled : .cancelled x.cancellation ∉ m := fun inside =>
    told.1 (List.mem_append_right _ inside)
  obtain rfl := wait_of_merge uncancelled right merge
  obtain ⟨_, more, n, e, attempts, rfl, _, rfl⟩ := before
  rw [attempts] at more
  refine .trans ?_ (upTo_prefix_whole more)
  rw [upTo_succ, List.append_assoc, List.prefix_append_right_inj, List.prefix_append_right_inj]
  exact left

theorem records_run (env : Surroundings σ) (representable : x.Representable) (final : x.Over i)
    (positive : 1 ≤ i) (first : ∀ j, 1 ≤ j → j < i → ¬ x.Over j) :
    Records (fun s => env.isCancelled x.cancellation s = false) (x.run env)
      (fun l => x.Told l → l <+: x.whole i)
      fun a l => x.Told l → l = x.whole i ∧ a = x.outcome i := by
  apply Records.iterate fun phase l => x.Told l → x.Stands i l phase
  · intro phase l before
    cases phase with
    | attempting s =>
      have attempt : Records (fun s => env.isCancelled x.cancellation s = false)
          (env.recorded.deliver x.leaf x.batch) _ x.Answered :=
        Surroundings.records_calling (.leaf x.leaf) x.batch (env.deliver x.leaf x.batch)
      apply (Surroundings.records_attempting ⟨.ok (), by simp⟩
        (fun r l h => ⟨r, (show l = _ from h) ▸ List.prefix_rfl⟩) attempt s).mono
      · exact fun m stands told => attempting_prefix (before told.left) told stands
      · rintro (_ | _) m attempted told
        all_goals exact attempted_stands representable final first (before told.left) told attempted
    | pausing s d =>
      apply (Surroundings.records_pausing s d).mono
      · rintro m ⟨l', r', left, right, merge⟩ told
        exact pausing_prefix (before told.left) told left right merge
      · rintro (_ | _) m paused told
        all_goals exact paused_stands (before told.left) told paused
  · exact fun _ => ⟨rfl, positive, rfl⟩

end Rounds

end Retry.Script

namespace Surroundings

variable {σ : Type} {env : Surroundings σ} {c : CancellationId}

-- Whether, in a step, the retries are not cancelled and nobody is told that they are.
def Calm (env : Surroundings σ) (c : CancellationId)
    (p : (σ × List Deed) × (σ × List Deed)) : Prop :=
  env.isCancelled c p.1.1 = false ∧ .cancelled c ∉ p.2.2.drop p.1.2.length

theorem cancelled_not_mem {steps : List ((σ × List Deed) × (σ × List Deed))}
    (calm : ∀ p ∈ steps, env.Calm c p) : .cancelled c ∉ record steps := by
  intro inside
  obtain ⟨p, hp, told⟩ := List.mem_flatMap.1 inside
  exact (calm p hp).2 told

theorem ends_note (calm : ∃ s, env.isCancelled c s = false) {y : Deed} (other : y ≠ .cancelled c) :
    Ends (env.Calm c) (Async.note y) := by
  obtain ⟨s, hs⟩ := calm
  exact Ends.act ⟨(s, []), hs, by simpa using other.symm⟩

theorem ends_widen {α : Type} {a : Async σ α}
    (h : Ends (fun p => env.isCancelled c p.1 = false) a) : Ends (env.Calm c) a.widen :=
  Ends.widen h [] (fun _ => And.left) fun _ hp => ⟨hp, by simp⟩

theorem ends_calling (calm : ∃ s, env.isCancelled c s = false) {x : Endpoint} {batch : List Event}
    {a : Async σ (Except Error Unit)} (h : Ends (fun p => env.isCancelled c p.1 = false) a) :
    Ends (env.Calm c) (calling x batch a) := by
  apply Ends.bind (ends_note calm (by simp))
  intro _
  apply Ends.bind (ends_widen h)
  intro r
  exact Ends.bind (ends_note calm (by simp)) fun _ => Ends.pure r

theorem ends_backoff (calm : ∃ s, env.isCancelled c s = false) {pauser : PauserId} {d : Duration}
    (pause : Ends (fun p => env.isCancelled c p.1 = false) (env.pause pauser d)) :
    Ends (env.Calm c) (.firstOf (env.recorded.pause pauser d) (env.recorded.cancelled c)) := by
  apply Ends.firstOf
  · apply Ends.bind (ends_note calm (by simp))
    exact fun _ => Ends.bind (ends_widen pause) fun _ => ends_note calm (by simp)
  · intro steps y go along
    have told := (records_widen (P := fun _ => True) (env.cancelled c) (.cancelled c)).ends go
      (by simp)
    exact cancelled_not_mem along (by simp [told])
  · intro steps b go
    obtain ⟨s, hs⟩ := calm
    refine ⟨(s, []), hs, ?_⟩
    simp [(abandons_widen (env.cancelled c) (.cancelled c)).passes go]

end Surroundings

namespace Retry

variable {σ : Type} {env : Surroundings σ}

def Phase.left : Phase → Nat
  | attempting s => 2 * (s.policy.maxAttempts - s.attempts)
  | pausing s _ => 2 * (s.policy.maxAttempts - s.attempts) + 1

theorem Phase.left_lt {pauser : PauserId} {c : CancellationId}
    {attempt : Async (σ × List Deed) (Except Error Unit)} {phase next : Phase}
    {steps : List ((σ × List Deed) × (σ × List Deed))}
    (go : Passes (Transport.retryRound env.recorded pauser c attempt phase) steps
      (.done (.inl next))) : next.left < phase.left := by
  have any : Records (fun _ => True) attempt (fun _ => True) fun _ _ => True := by
    constructor <;> exact fun _ _ => trivial
  cases phase with
  | attempting s =>
    have ended := (Surroundings.records_attempting trivial (fun _ _ => id) any s).ends go (by simp)
    generalize record steps = l at ended
    cases ended with
    | retries _ _ judged =>
      have more : s.attempts + 1 < s.policy.maxAttempts := State.attempts_lt_of_failed judged
      simp only [left, State.start]
      omega
  | pausing s d =>
    have ended := (Surroundings.records_pausing (P := fun _ => True) s d).ends go (by simp)
    generalize record steps = l at ended
    cases ended with
    | resumes => exact Nat.lt_succ_self _

namespace Script

theorem ends_run {x : Script} (calm : ∃ s, env.isCancelled x.cancellation s = false)
    (call : Ends (fun p => env.isCancelled x.cancellation p.1 = false) (env.deliver x.leaf x.batch))
    (pause : ∀ d, Ends (fun p => env.isCancelled x.cancellation p.1 = false)
      (env.pause x.pauser d)) : Ends (env.Calm x.cancellation) (x.run env) := by
  apply Ends.iterate Phase.left _ _ Phase.left_lt
  · obtain ⟨s, hs⟩ := calm
    exact ⟨(s, []), hs, by simp⟩
  · intro phase
    cases phase with
    | attempting s =>
      apply Ends.bind
      · obtain ⟨t, ht⟩ := calm
        refine Ends.act ⟨(t, []), ht, ?_⟩
        simp [Surroundings.recorded, ht]
      intro stop
      cases s.attempt stop with
      | error e => exact Ends.pure _
      | ok s =>
        apply Ends.bind (Surroundings.ends_calling calm call)
        rintro (e | ⟨⟨⟩⟩)
        · apply Ends.bind
          · obtain ⟨t, ht⟩ := calm
            refine Ends.act ⟨(t, []), ht, ?_⟩
            simp [Surroundings.recorded]
          intro d
          cases s.failed e d with
          | fail => exact Ends.pure _
          | pause => exact Ends.pure _
        · exact Ends.pure _
    | pausing s d =>
      apply Ends.bind (Surroundings.ends_backoff calm (pause d))
      rintro (_ | _)
      all_goals exact Ends.pure _

theorem exists_first (x : Script) : ∃ i, 1 ≤ i ∧ i ≤ max 1 x.policy.maxAttempts ∧ x.Over i ∧
    ∀ j, 1 ≤ j → j < i → ¬ x.Over j := by
  classical
  have last : ∃ i, 1 ≤ i ∧ x.Over i :=
    ⟨max 1 x.policy.maxAttempts, Nat.le_max_left _ _, .inr (.inl (Nat.le_max_right _ _))⟩
  refine ⟨Nat.find last, (Nat.find_spec last).1, ?_, (Nat.find_spec last).2, ?_⟩
  · exact Nat.find_min' last ⟨Nat.le_max_left _ _, .inr (.inl (Nat.le_max_right _ _))⟩
  · exact fun j positive earlier final => Nat.find_min last earlier ⟨positive, final⟩

/-- A call that nobody cancels does exactly what the script settles: it makes the attempts up to the
first one that nothing follows, waits between any two of them, and ends with the last answer or with
the last failure. If the attempts and the pauses can end, so can the call. -/
theorem retry_exact (env : Surroundings σ) (x : Script) (representable : x.Representable) :
    (∃ i, 1 ≤ i ∧ i ≤ max 1 x.policy.maxAttempts ∧ x.Over i ∧ (∀ j, 1 ≤ j → j < i → ¬ x.Over j) ∧
      (∀ {steps b}, Passes (x.run env) steps b → (∀ p ∈ steps, env.Calm x.cancellation p) →
        x.Follows (record steps) → record steps <+: x.whole i) ∧
      ∀ {steps a}, Passes (x.run env) steps (.done a) → (∀ p ∈ steps, env.Calm x.cancellation p) →
        x.Follows (record steps) → record steps = x.whole i ∧ a = x.outcome i) ∧
    ((∃ s, env.isCancelled x.cancellation s = false) →
      Ends (fun p => env.isCancelled x.cancellation p.1 = false) (env.deliver x.leaf x.batch) →
      (∀ d, Ends (fun p => env.isCancelled x.cancellation p.1 = false) (env.pause x.pauser d)) →
        Ends (env.Calm x.cancellation) (x.run env)) := by
  obtain ⟨i, positive, bounded, final, first⟩ := x.exists_first
  have records := records_run env representable final positive first
  refine ⟨⟨i, positive, bounded, final, first, ?_, ?_⟩, ends_run⟩
  · intro steps b go calm follows
    exact records.stands go (fun p hp => (calm p hp).1)
      ⟨Surroundings.cancelled_not_mem calm, follows⟩
  · intro steps a go calm follows
    exact records.ends go (fun p hp => (calm p hp).1)
      ⟨Surroundings.cancelled_not_mem calm, follows⟩

def sampleSurroundings : Surroundings Nat where
  leafUsable _ _ := true
  deliver _ _ := .act fun n => (if n < 3 then .error .http else .ok (), n + 1)
  enqueue _ _ := pure (.ok ())
  warn _ _ := id
  isCancelled _ _ := false
  cancelled _ := Async.never
  pause _ _ := pure ()
  elapsed n := (n, n)

def sample : Script where
  policy := ({} : Policy).withMaxRetryTime (5 * Duration.perSecond)
  pauser := 0
  cancellation := 0
  leaf := 0
  batch := [.stamp { type := "Press" } "1" 0]
  answers n := if n ≤ 3 then .error .http else .ok ()
  elapsed n := if n ≤ 3 then n else 0

theorem representable_sample : sample.Representable := by
  intro budget _ n
  by_cases few : n ≤ 3
  · interval_cases n <;> decide +kernel
  · have none : sample.elapsed n = 0 := if_neg few
    rw [none, Nat.zero_add]
    exact Policy.delayFor_le_maximum _ _ (by decide)

theorem first_sample (j : Nat) (positive : 1 ≤ j) (earlier : j < 4) : ¬ sample.Over j := by
  have budget : sample.policy.maxRetryTime = some (5 * Duration.perSecond) := rfl
  rintro (ok | last | ⟨_, set, exceeds⟩)
  · interval_cases j <;> cases ok
  · exact absurd (last.trans_lt earlier) (by decide)
  · cases budget.symm.trans set
    revert exceeds
    interval_cases j <;> decide +kernel

theorem follows_sample {l : List Deed} (answers : l.filterMap Deed.answer? =
    [.error .http, .error .http, .error .http, .ok ()])
    (readings : l.filterMap Deed.reading? = [1, 2, 3]) : sample.Follows l := by
  constructor
  · intro k r found
    rw [answers] at found
    obtain ⟨inside, rfl⟩ := List.getElem?_eq_some_iff.1 found
    have few : k < 4 := inside
    interval_cases k <;> rfl
  · intro k d found
    rw [readings] at found
    obtain ⟨inside, rfl⟩ := List.getElem?_eq_some_iff.1 found
    have few : k < 3 := inside
    interval_cases k <;> rfl

def saysCancelled : Deed → Bool
  | .cancelled _ => true
  | _ => false

theorem retry_exact_sample :
    ∃ steps, Passes (sample.run sampleSurroundings) steps (.done (.ok ())) ∧
      sample.Follows (record steps) ∧ record steps = sample.whole 4 ∧
        Ends (sampleSurroundings.Calm 0) (sample.run sampleSurroundings) := by
  obtain ⟨⟨i, positive, _, final, first, _, whole⟩, ends⟩ :=
    retry_exact sampleSurroundings sample representable_sample
  obtain ⟨steps, go, put⟩ := Transport.passes_of_poll sampleSurroundings (r := .ok ()) (s := 0)
    (show ((sample.run sampleSurroundings).poll 100 (0, [])).1.answer? = _ by decide +kernel)
  have follows : sample.Follows (record steps) := by
    apply follows_sample <;> rw [put] <;> decide +kernel
  have quiet : (record steps).any saysCancelled = false := by
    rw [put]
    decide +kernel
  have calm (p) (hp : p ∈ steps) : sampleSurroundings.Calm 0 p := by
    refine ⟨rfl, fun told => ?_⟩
    exact List.any_eq_false.1 quiet _ (List.mem_flatMap.2 ⟨p, hp, told⟩) rfl
  obtain rfl : i = 4 := by
    refine Nat.le_antisymm (Nat.le_of_not_lt fun later => ?_) (Nat.le_of_not_lt fun earlier => ?_)
    · exact first 4 (by decide) later (.inl rfl)
    · exact first_sample i positive earlier final
  exact ⟨steps, go, follows, (whole go calm follows).1,
    ends ⟨0, rfl⟩ (.act ⟨0, rfl⟩) fun _ => .pure ()⟩

end Script

end Retry

end EventTracking
