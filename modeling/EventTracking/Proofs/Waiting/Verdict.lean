import EventTracking.Waiting
import Mathlib.Data.Nat.Find
import Mathlib.Order.Bounds.Basic

set_option autoImplicit false

namespace EventTracking.Waiting

variable {interval timeout cost calls fuel m n stop : Nat} {holds : Nat → Bool}

def endOf (interval cost n : Nat) : Nat := n * cost + (n - 1) * interval

-- Question `m` is the first one that ends when the time is up.
def IsDeadline (interval timeout cost m : Nat) : Prop :=
  IsLeast {n | 1 ≤ n ∧ timeout ≤ endOf interval cost n} m

theorem endOf_succ (interval cost n : Nat) :
    endOf interval cost (n + 1) = n * (cost + interval) + cost := by
  rw [endOf, Nat.add_sub_cancel, Nat.succ_mul, Nat.mul_add]
  omega

theorem endOf_add_two (interval cost n : Nat) :
    endOf interval cost (n + 2) = endOf interval cost (n + 1) + interval + cost := by
  rw [endOf_succ, endOf_succ, Nat.succ_mul]
  omega

theorem endOf_le (le : m ≤ n) : endOf interval cost m ≤ endOf interval cost n :=
  Nat.add_le_add (Nat.mul_le_mul_right cost le)
    (Nat.mul_le_mul_right interval (Nat.sub_le_sub_right le 1))

theorem le_endOf_succ (passes : 1 ≤ interval + cost) (n : Nat) :
    n ≤ endOf interval cost (n + 1) := by
  rw [endOf_succ]
  exact (Nat.le_mul_of_pos_right n (by omega)).trans (Nat.le_add_right _ _)

theorem exists_deadline (passes : 1 ≤ interval + cost) (timeout : Nat) :
    ∃ m, IsDeadline interval timeout cost m := by
  have some : ∃ n, 1 ≤ n ∧ timeout ≤ endOf interval cost n :=
    ⟨timeout + 1, by omega, le_endOf_succ passes timeout⟩
  exact ⟨Nat.find some, Nat.find_spec some, fun n h => Nat.find_min' some h⟩

namespace IsDeadline

theorem early (deadline : IsDeadline interval timeout cost m) (first : 1 ≤ n) (before : n < m) :
    endOf interval cost n < timeout := by
  refine Nat.lt_of_not_le fun late => ?_
  exact Nat.not_le_of_lt before (deadline.2 ⟨first, late⟩)

theorem le_succ (deadline : IsDeadline interval timeout cost m) (passes : 1 ≤ interval + cost) :
    m ≤ timeout + 1 :=
  deadline.2 ⟨by omega, le_endOf_succ passes timeout⟩

theorem endOf_le (deadline : IsDeadline interval timeout cost m) :
    endOf interval cost m ≤ timeout + interval + cost := by
  obtain ⟨⟨first, -⟩, -⟩ := id deadline
  match m with
  | 1 =>
    rw [endOf_succ]
    omega
  | n + 2 =>
    have before := deadline.early (n := n + 1) (by omega) (by omega)
    rw [endOf_add_two]
    omega

end IsDeadline

theorem judge_eq_askAgain {holds : Bool} {elapsed : Nat} :
    judge timeout holds elapsed = .askAgain ↔ holds = false ∧ elapsed < timeout := by
  cases holds <;> simp [judge]

structure Decides (interval timeout cost : Nat) (holds : Nat → Bool) (stop : Nat) : Prop where
  first : 1 ≤ stop
  undecided : ∀ n, 1 ≤ n → n < stop → judge timeout (holds n) (endOf interval cost n) = .askAgain
  decided : holds stop = true ∨ timeout ≤ endOf interval cost stop

theorem Decides.judge_eq (decides : Decides interval timeout cost holds stop) :
    judge timeout (holds stop) (endOf interval cost stop) =
      if holds stop then .held else .expired := by
  rcases decides.decided with held | late
  · simp [judge, held]
  · simp [judge, late]

theorem poll_verdict (decides : Decides interval timeout cost holds stop) (before : calls < stop)
    (enough : stop ≤ calls + fuel) :
    poll interval timeout cost holds fuel calls (calls * (cost + interval)) =
      ⟨holds stop, stop, endOf interval cost stop⟩ := by
  -- The clock shows whole rounds whenever a question begins.
  induction fuel generalizing calls with
  | zero => omega
  | succ fuel ih =>
    rw [poll, ← endOf_succ]
    by_cases last : calls + 1 = stop
    · subst last
      rw [decides.judge_eq]
      cases holds (calls + 1) <;> rfl
    · have next : endOf interval cost (calls + 1) + interval =
          (calls + 1) * (cost + interval) := by
        rw [endOf_succ, Nat.succ_mul]
        omega
      rw [decides.undecided (calls + 1) (by omega) (by omega), next]
      exact ih (by omega) (by omega)

def holdsAt (holdsFrom : Option Nat) (n : Nat) : Bool := holdsFrom.any (· ≤ n)

def stopAt (holdsFrom : Option Nat) (m : Nat) : Nat := holdsFrom.elim m (min m)

section Until

variable {holdsFrom : Option Nat}

theorem decides_stopAt (deadline : IsDeadline interval timeout cost m)
    (first : ∀ n, holdsFrom = some n → 1 ≤ n) :
    Decides interval timeout cost (holdsAt holdsFrom) (stopAt holdsFrom m) where
  first := by
    have := deadline.1.1
    cases holdsFrom with
    | none => exact this
    | some n => exact le_min this (first n rfl)
  undecided n positive before := by
    cases holdsFrom with
    | none => exact judge_eq_askAgain.2 ⟨rfl, deadline.early positive before⟩
    | some k =>
      have early : n < m := before.trans_le (min_le_left m k)
      have false : n < k := before.trans_le (min_le_right m k)
      exact judge_eq_askAgain.2 ⟨by simpa [holdsAt] using false, deadline.early positive early⟩
  decided := by
    cases holdsFrom with
    | none => exact .inr deadline.1.2
    | some k =>
      rcases Nat.le_total k m with holds | late
      · exact .inl (by simp [holdsAt, stopAt, holds])
      · rw [stopAt, Option.elim, min_eq_left late]
        exact .inr deadline.1.2

theorem stopAt_le (holdsFrom : Option Nat) (m : Nat) : stopAt holdsFrom m ≤ m := by
  cases holdsFrom with
  | none => exact le_rfl
  | some n => exact min_le_left m n

theorem stopAt_of_le (le : n ≤ m) : stopAt (some n) m = n := min_eq_right le

theorem stopAt_of_late (late : ∀ n, holdsFrom = some n → m < n) : stopAt holdsFrom m = m := by
  cases holdsFrom with
  | none => rfl
  | some n => exact min_eq_left (late n rfl).le

theorem holdsAt_of_late (late : ∀ n, holdsFrom = some n → m < n) :
    holdsAt holdsFrom m = false := by
  cases holdsFrom with
  | none => rfl
  | some n => exact decide_eq_false (Nat.not_le_of_lt (late n rfl))

theorem poll_eq (deadline : IsDeadline interval timeout cost m)
    (first : ∀ n, holdsFrom = some n → 1 ≤ n) (enough : stopAt holdsFrom m ≤ fuel) :
    poll interval timeout cost (holdsAt holdsFrom) fuel 0 0 =
      ⟨holdsAt holdsFrom (stopAt holdsFrom m), stopAt holdsFrom m,
        endOf interval cost (stopAt holdsFrom m)⟩ := by
  have decides := decides_stopAt deadline first
  have verdict := poll_verdict decides decides.first (by simpa using enough)
  rwa [Nat.zero_mul] at verdict

theorem waitUntil_eq (passes : 1 ≤ interval + cost) (deadline : IsDeadline interval timeout cost m)
    (first : ∀ n, holdsFrom = some n → 1 ≤ n) :
    waitUntil interval timeout cost holdsFrom =
      ⟨holdsAt holdsFrom (stopAt holdsFrom m), stopAt holdsFrom m,
        endOf interval cost (stopAt holdsFrom m)⟩ := by
  refine poll_eq deadline first ?_
  have := (stopAt_le holdsFrom m).trans (deadline.le_succ passes)
  omega

end Until

end EventTracking.Waiting
