import EventTracking.Proofs.Async.Recording
import EventTracking.Proofs.Transport.Deliveries

set_option autoImplicit false

namespace EventTracking

open Async (Records)

inductive Endpoint where
  | leaf (id : LeafId)
  | queue (id : QueueId)
  deriving DecidableEq

inductive Deed where
  | called (x : Endpoint) (batch : List Event)
  | answered (x : Endpoint) (batch : List Event) (r : Except Error Unit)
  | warned (console : ConsoleId) (message : String)
  -- A retry begins an attempt.
  | began (cancellation : CancellationId)
  -- A wait ends because its retry was cancelled.
  | cancelled (cancellation : CancellationId)
  | read (elapsed : Duration)
  | paused (pauser : PauserId) (d : Duration)
  | resumed
  | refused (e : Error)

def Deed.ofRetry : Deed → Prop
  | began _ | cancelled _ | read _ | paused _ _ | resumed => True
  | called _ _ | answered _ _ _ | warned _ _ | refused _ => False

namespace Surroundings

variable {σ : Type}

def calling (x : Endpoint) (batch : List Event) (a : Async σ (Except Error Unit)) :
    Async (σ × List Deed) (Except Error Unit) := do
  Async.note (.called x batch)
  let r ← a.widen
  Async.note (.answered x batch r)
  return r

def recorded (env : Surroundings σ) : Surroundings (σ × List Deed) where
  leafUsable id s := env.leafUsable id s.1
  deliver id batch := calling (.leaf id) batch (env.deliver id batch)
  enqueue id batch := calling (.queue id) batch (env.enqueue id batch)
  warn console message s := (env.warn console message s.1, s.2 ++ [.warned console message])
  isCancelled c s := env.isCancelled c s.1
  cancelled c := do
    (env.cancelled c).widen
    Async.note (.cancelled c)
  pause pauser d := do
    Async.note (.paused pauser d)
    (env.pause pauser d).widen
    Async.note .resumed
  elapsed s :=
    let (d, t) := env.elapsed s.1
    (d, t, s.2 ++ [.read d])
  attempts c s := (env.attempts c s.1, s.2 ++ [.began c])
  refuses e s := (env.refuses e s.1, s.2 ++ [.refused e])

variable {P : σ → Prop} {env : Surroundings σ}

theorem records_widen (a : Async σ Unit) (x : Deed) :
    Records P (do a.widen; Async.note x) (· <+: [x]) fun _ l => l = [x] := by
  apply Records.bind (F := fun _ l => l = [])
  · exact .silent (Async.keeps_silence_widen a) (by simp) (by simp)
  · rintro _ _ rfl
    exact .note (by simp) (by simp) (by simp)

theorem records_calling (x : Endpoint) (batch : List Event) (a : Async σ (Except Error Unit)) :
    Records P (calling x batch a) (fun l => ∃ r, l <+: [.called x batch, .answered x batch r])
      fun r l => l = [.called x batch, .answered x batch r] := by
  apply Records.bind (F := fun _ l => l = [.called x batch])
  · exact .note ⟨.ok (), by simp⟩ ⟨.ok (), by simp⟩ rfl
  · rintro _ _ rfl
    apply Records.bind (F := fun _ l => l = [])
    · exact .silent (Async.keeps_silence_widen a) ⟨.ok (), by simp⟩ fun _ => rfl
    · rintro r _ rfl
      apply Records.bind (F := fun _ l => l = [.answered x batch r])
      · exact .note ⟨r, by simp⟩ ⟨r, by simp⟩ rfl
      · rintro _ _ rfl
        exact .pure ⟨r, by simp⟩ rfl

theorem records_pause (pauser : PauserId) (d : Duration) :
    Records P (env.recorded.pause pauser d) (· <+: [.paused pauser d, .resumed])
      fun _ l => l = [.paused pauser d, .resumed] := by
  apply Records.bind (F := fun _ l => l = [.paused pauser d])
  · exact .note (by simp) (by simp) rfl
  · rintro _ _ rfl
    apply (records_widen (env.pause pauser d) .resumed).mono
    · simp
    · simp

theorem records_elapsed :
    Records P (.act env.recorded.elapsed) (fun l => ∃ d, l <+: [.read d])
      fun d l => l = [.read d] :=
  .act ⟨0, by simp⟩ fun _ _ => ⟨_, rfl, ⟨_, List.prefix_rfl⟩, rfl⟩

theorem records_refuse (e : Error) :
    Records P (Transport.refuse env.recorded e) (· <+: [.refused e])
      fun r l => r = .error e ∧ l = [.refused e] :=
  .act (by simp) fun _ _ => ⟨_, rfl, by simp, by simp⟩

theorem recorded_warns (console : ConsoleId) (f : Event → String) (events : List Event)
    (s : σ × List Deed) :
    (events.foldl (fun s e => env.recorded.warn console (f e) s) s).2 =
      s.2 ++ events.map fun e => .warned console (f e) := by
  induction events generalizing s with
  | nil => simp
  | cons e events ih =>
    rw [List.foldl_cons, ih]
    simp [recorded]

theorem records_warns (console : ConsoleId) (f : Event → String) (events : List Event) :
    Records P (.modify fun s => events.foldl (fun s e => env.recorded.warn console (f e) s) s)
      (· <+: events.map fun e => .warned console (f e))
      fun _ l => l = events.map fun e => .warned console (f e) :=
  .act (by simp) fun s _ => ⟨_, recorded_warns console f events s, by simp, rfl⟩

theorem records_spread {console : ConsoleId} {f : Event → String} {events : List Event}
    {legs : List (Async (σ × List Deed) (Except Error Unit))} {G : Deed → Prop}
    {fin : List (Except Error Unit) → List Deed → Prop} (warns : ∀ m, G (.warned console m))
    (h : Records P (.gather legs) (fun l => ∀ x ∈ l, G x) fun rs l => (∀ x ∈ l, G x) ∧ fin rs l) :
    Records P
      (.bind (.modify fun s => events.foldl (fun s e => env.recorded.warn console (f e) s) s) fun _ =>
        .bind (.gather legs) fun rs => .done (Switch.collect rs))
      (fun l => ∀ x ∈ l, G x)
      fun r l => (∀ x ∈ l, G x) ∧ ∃ rs m, fin rs m ∧ r = Switch.collect rs ∧
        l = (events.map fun e => .warned console (f e)) ++ m := by
  have drops : ∀ x ∈ events.map fun e => Deed.warned console (f e), G x := by simp [warns]
  apply Records.bind ((records_warns console f events).mono _ fun _ _ => id)
  · rintro _ _ rfl
    apply Records.bind (h.mono (fun l hl => List.forall_mem_append.2 ⟨drops, hl⟩) fun _ _ => id)
    rintro rs l ⟨hl, ends⟩
    have all := List.forall_mem_append.2 ⟨drops, hl⟩
    exact .pure (by simpa using all) ⟨by simpa using all, rs, l, ends, rfl, by simp⟩
  · exact fun l hl x hx => drops x (hl.subset hx)

theorem records_beginAttempt (c : CancellationId) :
    Records P (Transport.beginAttempt env.recorded c) (· <+: [.began c]) fun stop l =>
      (∃ s, P s ∧ env.isCancelled c s = stop) ∧ l = if stop then [] else [.began c] := by
  refine .act (by simp) fun s hs => ?_
  by_cases stop : env.isCancelled c s.1
  · exact ⟨[], by simp [recorded, stop], by simp, ⟨s.1, hs, by simp [recorded, stop]⟩,
      by simp [recorded, stop]⟩
  · exact ⟨[.began c], by simp [recorded, stop], by simp, ⟨s.1, hs, by simp [recorded, stop]⟩,
      by simp [recorded, stop]⟩

theorem abandons_note (x : Deed) :
    Async.Abandons (Async.silence σ Deed) (Async.note x) := Async.Abandons.act _

theorem abandons_widen (a : Async σ Unit) (x : Deed) :
    Async.Abandons (Async.silence σ Deed) (do a.widen; Async.note x) :=
  (Async.keeps_silence_widen a).abandons.bind fun _ => abandons_note x

theorem records_backoff (pauser : PauserId) (c : CancellationId) (d : Duration) :
    Records P (.firstOf (env.recorded.pause pauser d) (env.recorded.cancelled c))
      (fun w => ∃ l r, l <+: [.paused pauser d, .resumed] ∧ r <+: [.cancelled c] ∧ Merge l r w)
      (Sum.elim (fun _ w => ∃ r, r <+: [.cancelled c] ∧ Merge [.paused pauser d, .resumed] r w)
        fun _ w => ∃ l, l <+: [.paused pauser d, .resumed] ∧ Merge l [.cancelled c] w) := by
  apply Records.firstOf (records_pause pauser d) (records_widen (env.cancelled c) (.cancelled c))
  · exact (abandons_note _).bind fun _ => abandons_widen _ _
  · exact abandons_widen _ _
  · exact fun hl hr merge => ⟨_, _, hl, hr, merge⟩
  · rintro _ _ _ _ rfl hr merge
    exact ⟨_, hr, merge⟩
  · rintro _ _ _ _ hl rfl merge
    exact ⟨_, hl, merge⟩

inductive Attempted (P : σ → Prop) (env : Surroundings σ) (c : CancellationId)
    (fin : Except Error Unit → List Deed → Prop) (s : Retry.State) :
    Retry.Phase ⊕ Except Error Unit → List Deed → Prop where
  | stopped (now : ∃ s, P s ∧ env.isCancelled c s = true) :
      Attempted P env c fin s (.inr (.error (Retry.cancelledError s.attempts))) []
  | accepted {l : List Deed} (go : ∃ s, P s ∧ env.isCancelled c s = false) (h : fin (.ok ()) l) :
      Attempted P env c fin s (.inr (.ok ())) (.began c :: l)
  | gaveUp {e e' : Error} {l : List Deed} {d : Duration}
      (go : ∃ s, P s ∧ env.isCancelled c s = false) (h : fin (.error e) l)
      (next : s.start.failed e d = .fail e') :
      Attempted P env c fin s (.inr (.error e')) (.began c :: (l ++ [.read d]))
  | retries {e : Error} {l : List Deed} {d wait : Duration}
      (go : ∃ s, P s ∧ env.isCancelled c s = false) (h : fin (.error e) l)
      (next : s.start.failed e d = .pause wait) :
      Attempted P env c fin s (.inl (.pausing s.start wait)) (.began c :: (l ++ [.read d]))

theorem records_attempting {attempt : Async (σ × List Deed) (Except Error Unit)}
    {mid : List Deed → Prop} {fin : Except Error Unit → List Deed → Prop} {pauser : PauserId}
    {c : CancellationId} (begins : mid []) (whole : ∀ r l, fin r l → mid l)
    (h : Records P attempt mid fin) (s : Retry.State) :
    Records P (Transport.retryRound env.recorded pauser c attempt (.attempting s))
      (fun l => l = [] ∨ (∃ m, mid m ∧ l = .began c :: m) ∨
        ∃ e m d, fin (.error e) m ∧ l = .began c :: (m ++ [.read d]))
      (Attempted P env c fin s) := by
  apply Records.bind (F := fun stop l =>
    (∃ s, P s ∧ env.isCancelled c s = stop) ∧ l = if stop then [] else [.began c])
  · apply (records_beginAttempt c).mono _ fun _ _ => id
    intro l hl
    rcases List.prefix_cons_iff.1 hl with rfl | ⟨m, rfl, hm⟩
    · exact .inl rfl
    · exact .inr (.inl ⟨[], begins, by simpa using hm⟩)
  rintro stop _ ⟨now, rfl⟩
  cases stop with
  | true => exact .pure (.inl rfl) (.stopped now)
  | false =>
    apply Records.bind (F := fin)
    · exact h.mono (fun m hm => .inr (.inl ⟨m, hm, rfl⟩)) fun _ _ => id
    rintro (e | ⟨⟨⟩⟩) l hl
    · apply Records.bind (F := fun d l => l = [.read d])
      · apply records_elapsed.mono _ fun _ _ => id
        rintro n ⟨d, hn⟩
        rcases List.prefix_cons_iff.1 hn with rfl | ⟨m, rfl, hm⟩
        · exact .inr (.inl ⟨l, whole _ l hl, by simp⟩)
        · exact .inr (.inr ⟨e, l, d, hl, by simpa using hm⟩)
      rintro d _ rfl
      cases next : s.start.failed e d with
      | fail e' => exact .pure (.inr (.inr ⟨e, l, d, hl, rfl⟩)) (.gaveUp now hl next)
      | pause wait => exact .pure (.inr (.inr ⟨e, l, d, hl, rfl⟩)) (.retries now hl next)
    · refine .pure (.inr (.inl ⟨l, whole _ l hl, by simp⟩)) ?_
      simpa using Attempted.accepted now hl

inductive Paused (pauser : PauserId) (c : CancellationId) (d : Duration) (s : Retry.State) :
    Retry.Phase ⊕ Except Error Unit → List Deed → Prop where
  | resumes {r w : List Deed} (told : r <+: [.cancelled c])
      (merge : Merge [.paused pauser d, .resumed] r w) :
      Paused pauser c d s (.inl (.attempting s)) w
  | stopped {l w : List Deed} (left : l <+: [.paused pauser d, .resumed])
      (merge : Merge l [.cancelled c] w) :
      Paused pauser c d s (.inr (.error (Retry.cancelledError s.attempts))) w

theorem records_pausing {attempt : Async (σ × List Deed) (Except Error Unit)} {pauser : PauserId}
    {c : CancellationId} (s : Retry.State) (d : Duration) :
    Records P (Transport.retryRound env.recorded pauser c attempt (.pausing s d))
      (fun w => ∃ l r, l <+: [.paused pauser d, .resumed] ∧ r <+: [.cancelled c] ∧ Merge l r w)
      (Paused pauser c d s) := by
  apply Records.bind (records_backoff pauser c d)
  rintro (_ | _) w ends
  · obtain ⟨r, told, merge⟩ := ends
    refine .pure ⟨_, r, List.prefix_rfl, told, by simpa using merge⟩ ?_
    simpa using Paused.resumes told merge
  · obtain ⟨l, left, merge⟩ := ends
    refine .pure ⟨l, _, left, List.prefix_rfl, by simpa using merge⟩ ?_
    simpa using Paused.stopped left merge

section Retries

variable {attempt : Async (σ × List Deed) (Except Error Unit)} {pauser : PauserId}
  {c : CancellationId} {d : Duration} {s : Retry.State} {G : Deed → Prop}
  {r : Retry.Phase ⊕ Except Error Unit} {l w : List Deed}

theorem Attempted.all {fin : Except Error Unit → List Deed → Prop} (own : ∀ x, x.ofRetry → G x)
    (inner : ∀ r l, fin r l → ∀ x ∈ l, G x) (h : Attempted P env c fin s r l) : ∀ x ∈ l, G x := by
  have began := own (.began c) trivial
  cases h with
  | stopped => simp
  | accepted _ h => simpa [began] using inner _ _ h
  | gaveUp _ h | retries _ h =>
    have read (d : Duration) := own (.read d) trivial
    simpa [began, or_imp, forall_and, read] using inner _ _ h

theorem merge_all {l r : List Deed} (own : ∀ x, x.ofRetry → G x)
    (left : l <+: [.paused pauser d, .resumed]) (right : r <+: [.cancelled c])
    (merge : Merge l r w) : ∀ x ∈ w, G x := by
  intro x hx
  apply own
  rcases merge.mem.1 hx with hx | hx
  · obtain rfl | rfl : x = .paused pauser d ∨ x = .resumed := by simpa using left.subset hx
    all_goals trivial
  · obtain rfl : x = .cancelled c := by simpa using right.subset hx
    trivial

theorem Paused.all (own : ∀ x, x.ofRetry → G x) (h : Paused pauser c d s r w) :
    ∀ x ∈ w, G x := by
  cases h with
  | resumes told merge => exact merge_all own List.prefix_rfl told merge
  | stopped left merge => exact merge_all own left List.prefix_rfl merge

theorem records_retry {A : List Deed → Prop} (own : ∀ x, x.ofRetry → G x)
    (later : ∀ l m, A m → A (l ++ m))
    (h : Records P attempt (fun l => ∀ x ∈ l, G x) fun r l => (∀ x ∈ l, G x) ∧ (r = .ok () → A l))
    (start : Retry.Phase) :
    Records P (.iterate (Transport.retryRound env.recorded pauser c attempt) start)
      (fun l => ∀ x ∈ l, G x) fun r l => (∀ x ∈ l, G x) ∧ (r = .ok () → A l) := by
  apply Records.iterate fun _ l => ∀ x ∈ l, G x
  · intro phase l hl
    cases phase with
    | attempting s =>
      apply (records_attempting (by simp) (fun _ _ h => h.1) h s).mono
      · rintro m (rfl | ⟨m, hm, rfl⟩ | ⟨e, m, d, hm, rfl⟩)
        · simpa using hl
        · have began := own (.began c) trivial
          simpa [or_imp, forall_and, began] using ⟨hl, hm⟩
        · have began := own (.began c) trivial
          have read := own (.read d) trivial
          simpa [or_imp, forall_and, began, read] using ⟨hl, hm.1⟩
      · intro r m hm
        have all : ∀ x ∈ l ++ m, G x :=
          List.forall_mem_append.2 ⟨hl, hm.all own fun _ _ h => h.1⟩
        cases hm with
        | stopped | gaveUp => exact ⟨all, by simp⟩
        | retries => exact all
        | accepted _ h => exact ⟨all, fun _ => later _ _ (later [.began c] _ (h.2 rfl))⟩
    | pausing s d =>
      apply (records_pausing s d).mono
      · rintro m ⟨l', r', left, right, merge⟩
        exact List.forall_mem_append.2 ⟨hl, merge_all own left right merge⟩
      · intro r m hm
        have all : ∀ x ∈ l ++ m, G x := List.forall_mem_append.2 ⟨hl, hm.all own⟩
        cases hm with
        | resumes => exact all
        | stopped => exact ⟨all, by simp⟩
  · simp

end Retries

end Surroundings

section Growth

variable {σ : Type}

open Async (Keeps growth keeps_growth_note keeps_growth_widen)

theorem Surroundings.keeps_growth_calling (x : Endpoint) (batch : List Event)
    (a : Async σ (Except Error Unit)) : Keeps (growth σ Deed) (calling x batch a) := by
  apply Async.Confined.bind (keeps_growth_note _)
  intro _
  apply Async.Confined.bind (keeps_growth_widen a)
  exact fun r => Async.Confined.bind (keeps_growth_note _) fun _ => Async.Confined.pure r

theorem Surroundings.deliveries_growth (env : Surroundings σ) :
    Deliveries (Keeps (growth σ Deed)) env.recorded fun _ => True where
  toComposes := Keeps.composes
  gather := Async.Confined.gather
  deliver id batch := keeps_growth_calling (.leaf id) batch _
  enqueue batch _ := keeps_growth_calling _ batch _
  warns console f events := Keeps.act fun s _ => ⟨_, (recorded_warns console f events s).symm⟩
  begins c := by
    refine Keeps.act fun s _ => ?_
    by_cases stop : env.isCancelled c s.1 <;> simp [growth, recorded, stop]
  reads := Keeps.act fun s _ => List.prefix_append s.2 _
  backoff pauser c d := by
    have told := (keeps_growth_widen (env.cancelled c)).bind fun _ =>
      keeps_growth_note (Deed.cancelled c)
    refine Async.Confined.firstOf ?_ told
    apply Async.Confined.bind (keeps_growth_note _)
    exact fun _ => (keeps_growth_widen _).bind fun _ => keeps_growth_note _
  refuses e := Keeps.act fun s _ => List.prefix_append s.2 _

theorem Transport.passes_of_poll (env : Surroundings σ) {t : Transport} {batch : List Event}
    {fuel : Nat} {s : σ} {r : Except Error Unit}
    (ended : ((t.handle env.recorded batch).poll fuel (s, [])).1.answer? = some r) :
    ∃ steps, Async.Passes (t.handle env.recorded batch) steps (.done r) ∧
      Async.record steps = ((t.handle env.recorded batch).poll fuel (s, [])).2.2 := by
  have grows := env.deliveries_growth.handle t batch fun _ _ => trivial
  obtain ⟨steps, go, put⟩ := (Async.poll_steps fuel _ (s, [])).recorded grows
  rw [Async.Polled.rest_of_answer? ended] at go
  exact ⟨steps, go, put.symm⟩

end Growth

def Deed.call? : Deed → Option (Endpoint × List String)
  | called x batch => some (x, batch.map Event.id)
  | _ => none

namespace Transport

-- A group whose first member is closed, with a switch in it, with a retry and a group in that.
def nested : Transport :=
  .group [.leaf 0,
    .switch 0 [(Matcher.byType "Failure", .retry {} 0 0 (.leaf 1)),
      (Matcher.byType "Press", .group [.leaf 0, .leaf 2])],
    .leaf 1]

def nestedBatch : List Event :=
  ["Press", "Failure", "Visible", "Press"].zipIdx.map fun (type, i) =>
    .stamp { type } (toString i) 0

def nestedSurroundings : Surroundings Nat where
  leafUsable id _ := id != 0
  deliver _ _ := .act fun n => (if n = 0 then .error .http else .ok (), n + 1)
  enqueue _ _ := pure (.ok ())
  warn _ _ := id
  isCancelled _ _ := false
  cancelled _ := Async.never
  pause _ _ := pure ()
  elapsed n := (0, n)

theorem nested_accepts :
    ∃ steps, Async.Passes (nested.handle nestedSurroundings.recorded nestedBatch) steps
        (.done (.ok ())) ∧
      (Async.record steps).filterMap Deed.call? =
        [(.leaf 1, ["1"]), (.leaf 1, ["1"]), (.leaf 2, ["0", "3"])] := by
  obtain ⟨steps, go, put⟩ := passes_of_poll nestedSurroundings (r := .ok ()) (s := 0)
    (show ((nested.handle nestedSurroundings.recorded nestedBatch).poll 100 (0, [])).1.answer? = _
      from rfl)
  refine ⟨steps, go, ?_⟩
  rw [put]
  decide +kernel

end Transport

-- A call of a retry. A leaf stands for any transport that is retried.
structure Retry.Call where
  policy : Retry.Policy
  pauser : PauserId
  cancellation : CancellationId
  leaf : LeafId
  batch : List Event

namespace Retry.Call

variable {σ : Type}

def round (x : Call) (env : Surroundings σ) :
    Phase → Async (σ × List Deed) (Phase ⊕ Except Error Unit) :=
  Transport.retryRound env.recorded x.pauser x.cancellation (env.recorded.deliver x.leaf x.batch)

def run (x : Call) (env : Surroundings σ) : Async (σ × List Deed) (Except Error Unit) :=
  (Transport.retry x.policy x.pauser x.cancellation (.leaf x.leaf)).handle env.recorded x.batch

theorem handle_retry (env : Surroundings σ) (x : Call) (inner : Transport) :
    (Transport.retry x.policy x.pauser x.cancellation inner).handle env x.batch =
      (Transport.retry x.policy x.pauser x.cancellation (.leaf x.leaf)).handle
        { env with deliver := fun _ batch => inner.handle env batch } x.batch := rfl

end Retry.Call

end EventTracking
