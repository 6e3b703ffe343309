import EventTracking.Proofs.Retry.Rounding

set_option autoImplicit false

namespace EventTracking.Retry.State

variable {s : State} {elapsed : Duration}

/-- The decision is exact, and it is missing where the sum that a budget is compared with is no
duration: there the budget is exceeded. -/
theorem recordFailure_exact (s : State) (elapsed : Duration)
    (range : s.policy.maxTimeout ≤ Duration.maximum)
    (budgets : ∀ budget, s.policy.maxRetryTime = some budget → budget ≤ Duration.maximum) :
    let delay := s.policy.delayFor (max s.attempts 1 - 1)
    let givesUp := s.policy.maxAttempts ≤ s.attempts ∨
      ∃ budget, s.policy.maxRetryTime = some budget ∧ budget < elapsed + delay
    let overflows := s.attempts < s.policy.maxAttempts ∧ s.policy.maxRetryTime.isSome ∧
      Duration.maximum < elapsed + delay
    delay ≤ Duration.maximum ∧ (overflows → givesUp) ∧
      (s.recordFailure elapsed = none ↔ overflows) ∧
      (s.recordFailure elapsed = some .giveUp ↔ givesUp ∧ ¬overflows) ∧
      ∀ d, s.recordFailure elapsed = some (.retryAfter d) ↔ ¬givesUp ∧ d = delay := by
  intro delay givesUp overflows
  have wait : s.policy.delayFor (s.attempts - 1) = delay :=
    congrArg s.policy.delayFor (by omega)
  refine ⟨s.policy.delayFor_le_maximum _ range, ?_, ?_⟩
  · rintro ⟨-, set, beyond⟩
    obtain ⟨budget, set⟩ := Option.isSome_iff_exists.1 set
    exact .inr ⟨budget, set, (budgets budget set).trans_lt beyond⟩
  · rw [recordFailure]
    simp only [wait, givesUp, overflows]
    by_cases last : s.policy.maxAttempts ≤ s.attempts
    · simp [last]
    · cases set : s.policy.maxRetryTime with
      | none => simp [last, eq_comm]
      | some budget =>
        by_cases fits : elapsed + delay ≤ Duration.maximum
        · by_cases exceeds : budget < elapsed + delay
          · simp [last, Duration.add?, fits, exceeds]
          · simp [last, Duration.add?, fits, exceeds, eq_comm]
        · have beyond : Duration.maximum < elapsed + delay := Nat.lt_of_not_le fits
          have exceeds : budget < elapsed + delay := (budgets budget set).trans_lt beyond
          simp [last, Nat.lt_of_not_le last, Duration.add?, fits, exceeds, beyond]

def longest : State where
  policy := (Policy.fixed Duration.maximum).withMaxRetryTime Duration.perSecond
  attempts := 1

theorem recordFailure_exact_longest :
    longest.policy.maxTimeout ≤ Duration.maximum ∧ longest.recordFailure 1 = none := by
  have range : longest.policy.maxTimeout ≤ Duration.maximum := le_rfl
  have delay : longest.policy.delayFor 0 = Duration.maximum := by
    have one : power longest.policy.factor (min 0 maxExponent) = 1 := by
      rw [power, powerFrom]
      rfl
    rw [Policy.delayFor]
    exact if_pos (by rw [one]; decide +kernel)
  have exact := recordFailure_exact longest 1 range fun budget set => by
    obtain rfl : Duration.perSecond = budget := Option.some.inj set
    decide
  refine ⟨range, exact.2.2.1.2 ⟨by decide, rfl, ?_⟩⟩
  change Duration.maximum < 1 + longest.policy.delayFor 0
  rw [delay]
  exact Nat.lt_add_of_pos_left Nat.one_pos

end EventTracking.Retry.State
