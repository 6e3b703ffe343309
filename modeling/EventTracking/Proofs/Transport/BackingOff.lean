import EventTracking.Proofs.Session.Heeding

set_option autoImplicit false

namespace EventTracking

open Async (Passes Records Rounds Step Steps record Parked)
open Crowd (Run)

variable {σ : Type}

def Deed.isCall : Deed → Bool
  | called _ _ => true
  | _ => false

def calls (l : List Deed) : Nat := l.countP Deed.isCall

@[simp]
theorem calls_append (l m : List Deed) : calls (l ++ m) = calls l + calls m := List.countP_append

theorem calls_eq_zero {l : List Deed} (h : ∀ x ∈ l, x.isCall = false) : calls l = 0 :=
  List.countP_eq_zero.2 fun x hx => by simp [h x hx]

theorem isCall_of_ofRetry {x : Deed} (h : x.ofRetry) : x.isCall = false := by
  cases x with
  | called => exact h.elim
  | answered | warned | began | cancelled | read | paused | resumed | refused => rfl

namespace Retry

def Phase.state : Phase → State
  | attempting s => s
  | pausing s _ => s

namespace Call

variable {env : Surroundings σ} {x : Call} {steps more : List ((σ × List Deed) × (σ × List Deed))}
  {a b : Async (σ × List Deed) (Except Error Unit)}

-- Whether a call makes no attempt at the time, after the steps that it has taken: it waits for the
-- next one, or is about to look whether it is cancelled.
inductive Idle (x : Call) (env : Surroundings σ) :
    List ((σ × List Deed) × (σ × List Deed)) → Async (σ × List Deed) (Except Error Unit) → Prop where
  | waiting {before now : List ((σ × List Deed) × (σ × List Deed))} {s : State} {d : Duration}
      {a : Async (σ × List Deed) (Phase ⊕ Except Error Unit)}
      (rounds : Rounds (x.round env) (.attempting { policy := x.policy }) before (.pausing s d))
      (wait : Passes (x.round env (.pausing s d)) now a) (goesOn : ∀ r, a ≠ .done (.inr r)) :
      Idle x env (before ++ now) (.loop (x.round env) a .done)
  | looking {before : List ((σ × List Deed) × (σ × List Deed))} {s : State}
      (rounds : Rounds (x.round env) (.attempting { policy := x.policy }) before (.attempting s)) :
      Idle x env before (.iterate (x.round env) (.attempting s))

theorem Idle.passes (h : x.Idle env steps a) : Passes (x.run env) steps a := by
  cases h with
  | waiting rounds wait =>
    exact rounds.passes.trans (wait.within (f := (Async.loop (x.round env) · .done)) .round)
  | looking rounds => exact rounds.passes

def Stopped (x : Call) (env : Surroundings σ) (n : Nat)
    (a : Async (σ × List Deed) (Except Error Unit)) : Prop :=
  a = .loop (x.round env) (.done (.inr (.error (cancelledError n)))) .done ∨
    a = .done (.error (cancelledError n))

theorem Stopped.step {n : Nat} (h : x.Stopped env n a) {s t : σ × List Deed} (go : Step a s b t) :
    t = s ∧ x.Stopped env n b := by
  obtain rfl | rfl := h
  · cases go with
    | round step => cases step
    | final => exact ⟨rfl, .inr rfl⟩
  · cases go

theorem Stopped.onward {n : Nat} (h : x.Stopped env n a) (go : Passes a steps b) :
    record steps = [] ∧ x.Stopped env n b := by
  induction go with
  | stay => exact ⟨rfl, h⟩
  | step step _ ih =>
    obtain ⟨rfl, stopped⟩ := h.step step
    obtain ⟨none, stopped⟩ := ih stopped
    exact ⟨by simp [none], stopped⟩

theorem Stopped.result {n : Nat} {r : Except Error Unit} (h : x.Stopped env n (.done r)) :
    r = .error (cancelledError n) := by
  obtain same | same := h
  · cases same
  · cases same
    rfl

theorem records_pausing (s : State) (d : Duration) :
    Records (fun _ => True) (x.round env (.pausing s d)) (calls · = 0) fun r l =>
      calls l = 0 ∧ (r = .inl (.attempting s) ∨ r = .inr (.error (cancelledError s.attempts))) := by
  apply (Surroundings.records_pausing s d).mono
  · rintro l ⟨_, _, left, right, merge⟩
    exact calls_eq_zero (Surroundings.merge_all (fun _ => isCall_of_ofRetry) left right merge)
  · intro r l ends
    refine ⟨calls_eq_zero (ends.all fun _ => isCall_of_ofRetry), ?_⟩
    cases ends with
    | resumes => exact .inl rfl
    | stopped => exact .inr rfl

theorem calls_rounds {phase : Phase}
    (go : Rounds (x.round env) (.attempting { policy := x.policy }) steps phase) :
    calls (record steps) = phase.state.attempts := by
  let counts (phase : Phase) (l : List Deed) := calls l = phase.state.attempts
  have round {phase next : Phase} {l : List Deed}
      {steps : List ((σ × List Deed) × (σ × List Deed))} (h : counts phase l)
      (once : Passes (x.round env phase) steps (.done (.inl next)))
      (along : ∀ p ∈ steps, True) : counts next (l ++ record steps) := by
    refine (calls_append l _).trans ?_
    cases phase with
    | attempting s =>
      have call := (Surroundings.records_calling (P := fun _ => True) (.leaf x.leaf) x.batch
        (env.deliver x.leaf x.batch)).mono (fun _ _ => trivial) fun _ _ => id
      have ended :=
        (Surroundings.records_attempting trivial (fun _ _ _ => trivial) call s).ends once along
      generalize record steps = m at ended
      cases ended with
      | @retries _ m d _ _ answers =>
        have one : calls (.began x.cancellation :: (m ++ [.read d])) = 1 := by
          rw [answers]
          rfl
        rw [one, h]
        rfl
    | pausing s d =>
      obtain ⟨none, same | same⟩ := (records_pausing s d).ends once along
      · cases same
        rw [none, h]
        rfl
      · cases same
  exact go.holds (P := fun _ => True) (I := counts) round (l := []) rfl fun _ _ => trivial

theorem calls_pausing {before now : List ((σ × List Deed) × (σ × List Deed))} {s : State}
    {d : Duration} {a : Async (σ × List Deed) (Phase ⊕ Except Error Unit)}
    (rounds : Rounds (x.round env) (.attempting { policy := x.policy }) before (.pausing s d))
    (wait : Passes (x.round env (.pausing s d)) now a) :
    calls (record (before ++ now)) = s.attempts := by
  have none := (records_pausing s d).stands wait fun _ _ => trivial
  simp [none, calls_rounds rounds, Phase.state]

section Cancelled

variable {p : CancellationPlace σ} {s : State} {d : Duration} {t u : σ × List Deed}

theorem step_attempting (h : env.Heeds p x.cancellation) (up : p.isCancelled t.1 = true)
    {a : Async (σ × List Deed) (Phase ⊕ Except Error Unit)}
    (go : Step (x.round env (.attempting s)) t a u) :
    u = t ∧ a = .done (.inr (.error (cancelledError s.attempts))) := by
  have stop : env.recorded.isCancelled x.cancellation t = true := (h.isCancelled t.1).trans up
  obtain ⟨_, same, _⟩ | ⟨_, look, rfl⟩ := Step.of_bind go
  · cases same
  · cases look
    simp only [stop]
    exact ⟨rfl, rfl⟩

theorem Idle.step (h : env.Heeds p x.cancellation) (idle : x.Idle env steps a)
    (up : p.isCancelled t.1 = true) (go : Step a t b u) :
    calls (record [(t, u)]) = 0 ∧
      (x.Idle env (steps ++ [(t, u)]) b ∨ x.Stopped env (calls (record steps)) b) := by
  cases idle with
  | @waiting before now s d a rounds wait goesOn =>
    cases go with
    | @round _ _ _ _ _ a' _ _ _ step =>
      have further := wait.trans (.step step .stay)
      have silent := (records_pausing s d).stands further fun _ _ => trivial
      rw [Async.record_append, calls_append, Nat.add_eq_zero_iff] at silent
      refine ⟨silent.2, ?_⟩
      by_cases ended : ∃ r, a' = .done (.inr r)
      · -- Only the cancellation ends the call from here.
        obtain ⟨r, rfl⟩ := ended
        obtain ⟨_, same | same⟩ := (records_pausing s d).ends further fun _ _ => trivial
        · cases same
        · cases same
          exact .inr (.inl (by rw [calls_pausing rounds wait]))
      · rw [List.append_assoc]
        exact .inl (.waiting rounds further (not_exists.1 ended))
    | @again _ _ _ _ b =>
      obtain ⟨_, same | same⟩ := (records_pausing s d).ends wait fun _ _ => trivial
      · cases same
        refine ⟨by simp [calls], .inl ?_⟩
        rw [List.append_assoc]
        exact .looking (rounds.tail wait)
      · cases same
    | final => exact absurd rfl (goesOn _)
  | @looking _ s rounds =>
    cases go with
    | round step =>
      obtain ⟨rfl, rfl⟩ := step_attempting h up step
      refine ⟨by simp [calls], .inr (.inl ?_)⟩
      rw [calls_rounds rounds]
      rfl

theorem Idle.onward (h : env.Heeds p x.cancellation) (idle : x.Idle env steps a)
    (up : ∀ q ∈ more, p.isCancelled q.1.1 = true) (go : Passes a more b) :
    calls (record more) = 0 ∧
      (x.Idle env (steps ++ more) b ∨ x.Stopped env (calls (record steps)) b) := by
  induction go generalizing steps with
  | stay => exact ⟨rfl, .inl (by simpa using idle)⟩
  | @step _ _ _ t u rest step goesOn ih =>
    obtain ⟨silent, idle | stopped⟩ := idle.step h (up (t, u) (by simp)) step
    all_goals
      have split : record ((t, u) :: rest) = record [(t, u)] ++ record rest := by simp
      rw [split, calls_append, silent, Nat.zero_add]
    · obtain ⟨none, ends⟩ := ih idle fun q hq => up q (by simp [hq])
      refine ⟨none, ends.imp (fun idle => by simpa using idle) fun stopped => ?_⟩
      rwa [Async.record_append, calls_append, silent] at stopped
    · obtain ⟨none, stopped⟩ := stopped.onward goesOn
      exact ⟨by rw [none]; rfl, .inr stopped⟩

theorem steps_cancelled {steps : List ((σ × List Deed) × (σ × List Deed))}
    {a : Async (σ × List Deed) Unit} (h : env.Heeds p x.cancellation) (here : p.In t.1)
    (go : Passes (env.recorded.cancelled x.cancellation) steps a) (up : p.isCancelled t.1 = true)
    (notified : ∀ k, Parked p.widened k a → p.isWatching k t.1 = false) :
    ∃ u, Steps a t (.done ()) u := by
  have noted {s : σ × List Deed} : Steps (Async.note (.cancelled x.cancellation)) s (.done ()) _ :=
    .head .work .refl
  obtain ⟨b, inner, rfl⟩ | ⟨⟨⟩, _, _, _, _, goesOn⟩ := Passes.of_bind go
  · obtain ⟨b, waits, rfl⟩ := inner.of_widen
    rw [h.cancelled] at waits
    obtain ⟨u, ends⟩ := CancellationPlace.steps_awaited here up waits fun k parked =>
      notified k (parked.widen.bind _)
    exact ⟨_, (ends.widen t.2).bind noted⟩
  · obtain ⟨_, rfl⟩ | ⟨_, _, rfl⟩ := Passes.of_act goesOn
    · exact ⟨_, noted⟩
    · exact ⟨t, .refl⟩

theorem steps_pausing {steps : List ((σ × List Deed) × (σ × List Deed))}
    {a : Async (σ × List Deed) (Phase ⊕ Except Error Unit)} (h : env.Heeds p x.cancellation)
    (here : p.In t.1) (go : Passes (x.round env (.pausing s d)) steps a)
    (up : p.isCancelled t.1 = true)
    (notified : ∀ k, Parked p.widened k a → p.isWatching k t.1 = false) :
    a = .done (.inl (.attempting s)) ∨
      ∃ u, Steps a t (.done (.inr (.error (cancelledError s.attempts)))) u := by
  obtain ⟨b, inner, rfl⟩ | ⟨⟨⟩ | ⟨⟩, _, _, _, _, goesOn⟩ := Passes.of_bind go
  · obtain ⟨pause, stop, _, right, _, _, goStop, _, ends⟩ := inner.of_firstOf
    obtain ⟨_, rfl⟩ | ⟨⟨⟩, _, _, _, rfl⟩ | ⟨⟨⟩, _, _, _, rfl⟩ := ends
    · obtain ⟨u, stops⟩ := steps_cancelled h here goStop up fun k parked => notified k (.inr parked)
      have wins := (stops.within (f := (Async.race pause · .done)) .rightLeg).tail .rightWins
      exact .inr ⟨_, wins.bind .refl⟩
    · exact .inl rfl
    · exact .inr ⟨t, .refl⟩
  · obtain ⟨_, rfl⟩ := Passes.of_done goesOn
    exact .inl rfl
  · obtain ⟨_, rfl⟩ := Passes.of_done goesOn
    exact .inr ⟨t, .refl⟩

theorem Idle.ends (h : env.Heeds p x.cancellation) (idle : x.Idle env steps a) (here : p.In t.1)
    (up : p.isCancelled t.1 = true)
    (notified : ∀ k, Parked p.widened k a → p.isWatching k t.1 = false) :
    ∃ u, Steps a t (.done (.error (cancelledError (calls (record steps))))) u := by
  have looks (s : State) : Steps (.iterate (x.round env) (.attempting s)) t
      (.done (.error (cancelledError s.attempts))) t := by
    have stop : env.recorded.isCancelled x.cancellation t = true := (h.isCancelled t.1).trans up
    refine .head (.round .work) ?_
    simp only [stop]
    exact .head .final .refl
  cases idle with
  | @waiting before now s d a rounds wait =>
    rw [calls_pausing rounds wait]
    obtain rfl | ⟨u, stops⟩ := steps_pausing h here wait up notified
    · exact ⟨t, .head .again (looks s)⟩
    · exact ⟨u, (stops.within (f := (Async.loop (x.round env) · .done)) .round).tail .final⟩
  | @looking _ s rounds =>
    rw [calls_rounds rounds]
    exact ⟨t, looks s⟩

end Cancelled

end Call

/-- Retries that share a cancellation are safe to cancel. The flag is up once one who cancels has
begun to. While it is up, and until somebody resets it, no attempt begins, and a call that is idle
stays so until it stops, with nothing but the number of the calls that it has made. Nobody who is
parked misses the notification, so that after it each of these calls can go on to its end. -/
theorem cancellation_safe (env : Surroundings σ) (p : CancellationPlace σ) (id : CancellationId)
    (h : env.Heeds p id) {w : σ × List Deed} (here : p.In w.1)
    {c : Crowd (σ × List Deed) (Except Error Unit)}
    (run : Run (env.sharing p True) ⟨w, []⟩ c) :
    (∀ (i : Nat) c', c.tasks[i]? = some p.widened.cancelling → Run (env.sharing p False) c c' →
      c'.tasks[i]? ≠ some p.widened.cancelling → p.isCancelled c'.state.1 = true) ∧
    (p.isCancelled c.state.1 = true →
      (∀ c', Run (env.sharing p False) c c' → p.isCancelled c'.state.1 = true ∧
        ∃ l, c'.state.2 = c.state.2 ++ l ∧ Deed.began id ∉ l) ∧
      (∀ (x : Call) (i : Nat) a steps, x.cancellation = id → c.tasks[i]? = some a →
        x.Idle env steps a →
        (∀ c' b, Run (env.sharing p False) c c' → c'.tasks[i]? = some b →
          ∃ more, Passes (x.run env) (steps ++ more) b ∧ calls (record more) = 0 ∧
            (x.Idle env (steps ++ more) b ∨
              ∀ c'' (r : Except Error Unit), Run (env.sharing p True) c' c'' →
                c''.tasks[i]? = some (.done r) →
                  r = .error (cancelledError (calls (record (steps ++ more)))))) ∧
        (p.widened.notifying ∉ c.tasks →
          ∃ u, Steps a c.state (.done (.error (cancelledError (calls (record steps))))) u)) ∧
      (p.widened.notifying ∉ c.tasks → ∀ a ∈ c.tasks, ∀ k, Parked p.widened k a →
        p.isWatching k c.state.1 = false)) := by
  have inv := Sharing.run h here run
  refine ⟨fun i c' found on begun => (inv.raised h on found).resolve_left begun, fun up => ?_⟩
  refine ⟨fun c' on => ?_, fun x i a steps mine found idle => ⟨fun c' b on there => ?_, ?_⟩,
    inv.woken up⟩
  · obtain ⟨_, stays, l, puts, none⟩ := inv.hushed h on
    exact ⟨stays up, l, puts, none up⟩
  · obtain ⟨_, more, here, go, own⟩ := on.own found
    cases here.symm.trans there
    have along : ∀ q ∈ more, p.isCancelled q.1.1 = true := by
      intro q hq
      obtain ⟨d, reached, same⟩ := own q hq
      exact same ▸ (inv.hushed h reached).2.stays up
    subst mine
    obtain ⟨none, ends⟩ := idle.onward h along go
    refine ⟨more, idle.passes.trans go, none, ends.imp_right fun stopped c'' r on ended => ?_⟩
    obtain ⟨_, _, here, go, _⟩ := on.own there
    cases here.symm.trans ended
    rw [Async.record_append, calls_append, none]
    exact (stopped.onward go).2.result
  · intro nobody
    subst mine
    exact idle.ends h inv.here up (inv.woken up nobody a (List.mem_of_getElem? found))

section Sample

open Session (surroundings place)

def sampleSession : Session where
  leaves := #[.collector { endpoint := "" }]
  pausers := #[.stalled]
  cancellations := #[{}]

def sampleCall : Call where
  policy := {}
  pauser := 0
  cancellation := 0
  leaf := 0
  batch := [default]

theorem cancellation_safe_sample :
    ∃ c : Crowd (Session × List Deed) (Except Error Unit),
      Run (surroundings.sharing (place 0) True) ⟨(sampleSession, []), []⟩ c ∧
      (place 0).isCancelled c.state.1 = true ∧
      (∀ c', Run (surroundings.sharing (place 0) False) c c' →
        ∃ l, c'.state.2 = c.state.2 ++ l ∧ Deed.began 0 ∉ l) ∧
      ∃ a u, c.tasks[0]? = some a ∧ Steps a c.state (.done (.error (cancelledError 1))) u := by
  let body := sampleCall.round surroundings
  let tried : State := { policy := sampleCall.policy, attempts := 1 }
  obtain ⟨s, d, attempt, here⟩ : ∃ s d, Steps (body (.attempting { policy := sampleCall.policy }))
      (sampleSession, []) (.done (.inl (.pausing tried d))) s ∧ (place 0).In s.1 :=
    ⟨_, _, Async.poll_steps 20 _ _, Session.in_place_iff.2 (by decide)⟩
  let waiting := Async.iterate body (.pausing tried d)
  let shared := surroundings.sharing (place 0) True
  have called : Run shared ⟨(sampleSession, []), []⟩ ⟨s, [waiting]⟩ := by
    have waits := (attempt.within (f := (Async.loop body · .done)) .round).tail .again
    exact .head (.come ⟨rfl, .inr ⟨.retry {} 0 0 (.leaf 0), [default], rfl⟩⟩)
      (Run.steps (i := 0) rfl waits)
  obtain ⟨t, up, stops⟩ : ∃ t, (place 0).isCancelled t.1 = true ∧
      Steps (place 0).widened.cancelling s (.done (.ok ())) t := by
    refine ⟨_, ?_, .head .work (.head .work .refl)⟩
    have raised := CancellationPlace.isCancelled_raise here
    exact (CancellationPlace.isCancelled_notify (Session.lawful_place _ _ here)).trans raised
  have cancelled : Run shared ⟨s, [waiting]⟩ ⟨t, [waiting, .done (.ok ())]⟩ :=
    .head (.come ⟨rfl, .inl rfl⟩) (Run.steps (i := 1) rfl stops)
  have safe := cancellation_safe surroundings (place 0) 0 (Session.heeds 0)
    (Session.in_place_iff.2 (by decide)) (Relation.ReflTransGen.trans called cancelled)
  obtain ⟨quiet, ends, _⟩ := safe.2 up
  obtain ⟨steps, passes⟩ := attempt.passes
  have idle : sampleCall.Idle surroundings (steps ++ [(s, s)] ++ []) waiting :=
    .waiting (.more passes .here) .stay fun _ same => nomatch same
  have nobody : (place 0).widened.notifying ∉ [waiting, .done (.ok ())] := by
    rw [List.mem_cons, List.mem_singleton, not_or]
    exact ⟨nofun, nofun⟩
  obtain ⟨u, go⟩ := (ends sampleCall 0 waiting _ rfl rfl idle).2 nobody
  have once : calls (record (steps ++ [(s, s)] ++ [])) = 1 := by
    rw [List.append_nil]
    exact Call.calls_rounds (.more passes .here)
  rw [once] at go
  exact ⟨_, Relation.ReflTransGen.trans called cancelled, up, fun c' on => (quiet c' on).2,
    waiting, u, rfl, go⟩

end Sample

end Retry

end EventTracking
