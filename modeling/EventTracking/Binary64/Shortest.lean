import EventTracking.Binary64

set_option autoImplicit false

namespace EventTracking.Binary64

structure Decimal where
  digits : Nat
  power : Int
  deriving DecidableEq, Repr

-- The magnitudes that read back as `x`, with `x` itself, all over one denominator.
structure Interval where
  low : Nat
  mid : Nat
  high : Nat
  den : Nat
  closed : Bool

-- The gap below a power of two is half the gap above it.
def interval (x : Binary64) : Interval :=
  let m := x.significand
  let below := if m = Nat.pow 2 52 ∧ Nat.pow 2 53 ≤ x.code then 1 else 2
  let q := x.exponent - 2
  let at_ (n : Nat) := (scale n q).1
  ⟨at_ (4 * m - below), at_ (4 * m), at_ (4 * m + 2), (scale 1 q).2, m % 2 == 0⟩

namespace Interval

private def align (i : Interval) (d : Nat) (k : Int) (num : Nat) : Nat × Nat :=
  if 0 ≤ k then (d * Nat.pow 10 k.toNat * i.den, num) else (d * i.den, num * Nat.pow 10 (-k).toNat)

def contains (i : Interval) (d : Nat) (k : Int) : Bool :=
  let (a, low) := i.align d k i.low
  let (b, high) := i.align d k i.high
  if i.closed then low ≤ a && b ≤ high else low < a && b < high

def distance (i : Interval) (d : Nat) (k : Int) : Nat :=
  let (a, mid) := i.align d k i.mid
  (a - mid) + (mid - a)

def floorAt (i : Interval) (k : Int) : Nat :=
  if 0 ≤ k then i.mid / (i.den * Nat.pow 10 k.toNat) else i.mid * Nat.pow 10 (-k).toNat / i.den

def pick? (i : Interval) (k : Int) : Option Nat :=
  let d := i.floorAt k
  match i.contains d k, i.contains (d + 1) k with
  | false, false => none
  | true, false => some d
  | false, true => some (d + 1)
  | true, true =>
    let below := i.distance d k
    let above := i.distance (d + 1) k
    if below < above then some d
    else if above < below then some (d + 1)
    else if d % 2 = 0 then some d else some (d + 1)

def leading (i : Interval) : Int :=
  let digitsOf (n : Nat) : Int := (Nat.toDigits 10 n).length
  let guess := digitsOf i.mid - digitsOf i.den
  if i.floorAt guess = 0 then guess - 1 else guess

def search (i : Interval) : Nat → Int → Decimal
  | 0, k => ⟨i.floorAt k, k⟩
  | more + 1, k =>
    match i.pick? k with
    | some d => ⟨d, k⟩
    | none => i.search more (k - 1)

end Interval

def Decimal.trim : Nat → Decimal → Decimal
  | 0, d => d
  | fuel + 1, d =>
    if d.digits ≠ 0 ∧ d.digits % 10 = 0 then trim fuel ⟨d.digits / 10, d.power + 1⟩ else d

def shortest (x : Binary64) : Decimal :=
  if x.isZero then ⟨0, 0⟩ else
  let i := x.interval
  (i.search 17 i.leading).trim 20

end EventTracking.Binary64
