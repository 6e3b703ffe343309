import EventTracking.Json.Basic

set_option autoImplicit false

namespace EventTracking.Json

structure Numeral where
  negative : Bool
  whole : List Nat
  fraction : Option (List Nat)
  exponent : Option (Bool × List Nat)
  deriving Repr

namespace Numeral

def maxSignificand : Nat := Nat.pow 2 64 - 1

-- Appends digits to a significand up to the first that does not fit; returns what is left.
def gather : Nat → List Nat → Nat × List Nat
  | n, [] => (n, [])
  | n, d :: rest => if maxSignificand < n * 10 + d then (n, d :: rest) else gather (n * 10 + d) rest

def ofDigits (digits : List Nat) : Nat :=
  digits.foldl (fun n d => n * 10 + d) 0

def maxPower : Nat := 308

def scaled? : Nat → Binary64 → Int → Option Binary64
  | 0, x, _ => some x
  | fuel + 1, x, e =>
    if e.natAbs ≤ maxPower then do
      let power ← Binary64.ofNat? (Nat.pow 10 e.natAbs)
      if 0 ≤ e then x.mul? power else x.div? power
    else if x.isZero then some x
    else if 0 ≤ e then none
    else do
      let power ← Binary64.ofNat? (Nat.pow 10 maxPower)
      scaled? fuel (← x.div? power) (e + maxPower)

-- The largest exponent that is read as a number.
def maxExponent : Nat := Nat.pow 2 31 - 1

def magnitude? (significand : Nat) (shift : Int) : Option (Bool × List Nat) → Option Binary64
  | none => do scaled? 5 (← Binary64.ofNat? significand) shift
  | some (negativeExponent, digits) =>
    let e := ofDigits digits
    if maxExponent < e then
      if significand ≠ 0 ∧ !negativeExponent then none else some (Binary64.zero false)
    else do
      scaled? 5 (← Binary64.ofNat? significand) (if negativeExponent then shift - e else shift + e)

def value? (n : Numeral) : Option Json :=
  let (significand, left) := gather 0 n.whole
  let signed (x : Binary64) : Json := .float (if n.negative then x.neg else x)
  match left, n.fraction, n.exponent with
  | [], none, none =>
    if !n.negative then some (.int significand)
    else if significand = 0 ∨ Nat.pow 2 63 < significand then
      (Binary64.ofNat? significand).map signed
    else some (.int (-significand))
  | left, none, e => (magnitude? significand left.length e).map signed
  | left, some fraction, e =>
    let (significand, unread) := gather significand fraction
    let shift : Int := left.length - (fraction.length - unread.length : Nat)
    (magnitude? significand shift e).map signed

end Numeral

end EventTracking.Json
