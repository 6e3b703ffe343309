set_option autoImplicit false

namespace EventTracking

structure Binary64 where
  negative : Bool
  code : Nat
  finite : code < 2047 * Nat.pow 2 52 := by decide
  deriving DecidableEq, Repr

namespace Binary64

instance : Inhabited Binary64 := ⟨⟨false, 0, by decide⟩⟩

def zero (negative : Bool) : Binary64 := ⟨negative, 0, by decide⟩

def isZero (x : Binary64) : Bool := x.code == 0

def same (x y : Binary64) : Bool :=
  x == y || (x.isZero && y.isZero)

theorem same_iff (x y : Binary64) :
    x.same y = true ↔ x = y ∨ (x.code = 0 ∧ y.code = 0) := by
  simp [same, isZero]

theorem same_refl (x : Binary64) : x.same x = true := by simp [same]

theorem same_symm {x y : Binary64} (h : x.same y = true) : y.same x = true := by
  grind [same_iff]

theorem same_trans {x y z : Binary64} (h : x.same y = true) (k : y.same z = true) :
    x.same z = true := by
  grind [same_iff]

def bits (x : Binary64) : Nat :=
  x.code + if x.negative then Nat.pow 2 63 else 0

def significand (x : Binary64) : Nat :=
  if x.code < Nat.pow 2 52 then x.code else x.code % Nat.pow 2 52 + Nat.pow 2 52

def exponent (x : Binary64) : Int :=
  if x.code < Nat.pow 2 52 then -1074 else (x.code / Nat.pow 2 52 : Nat) - 1075

def scale (n : Nat) (q : Int) : Nat × Nat :=
  if 0 ≤ q then (n * Nat.pow 2 q.toNat, 1) else (n, Nat.pow 2 (-q).toNat)

def ratio (x : Binary64) : Nat × Nat :=
  scale x.significand x.exponent

def roundDiv (num den : Nat) : Nat :=
  let q := num / den
  let r := num % den
  if 2 * r < den then q
  else if den < 2 * r then q + 1
  else if q % 2 = 0 then q else q + 1

def exponentFor (num den : Nat) : Int :=
  let guess : Int := (num.log2 : Int) - den.log2 - 53
  let (n, d) :=
    if 0 ≤ guess then (num, den * Nat.pow 2 guess.toNat) else (num * Nat.pow 2 (-guess).toNat, den)
  max (-1074) (if n / d < Nat.pow 2 53 then guess else guess + 1)

def nearest? (negative : Bool) (num den : Nat) : Option Binary64 :=
  if num = 0 then some (zero negative) else
  let q := exponentFor num den
  let (n, d) := if 0 ≤ q then (num, den * Nat.pow 2 q.toNat) else (num * Nat.pow 2 (-q).toNat, den)
  let m := roundDiv n d
  let code := if m < Nat.pow 2 52 then m else (q + 1074).toNat * Nat.pow 2 52 + m
  if h : code < 2047 * Nat.pow 2 52 then some ⟨negative, code, h⟩ else none

def ofNat? (n : Nat) : Option Binary64 := nearest? false n 1

def mul? (x y : Binary64) : Option Binary64 :=
  nearest? (x.negative != y.negative) (x.ratio.1 * y.ratio.1) (x.ratio.2 * y.ratio.2)

def div? (x y : Binary64) : Option Binary64 :=
  nearest? (x.negative != y.negative) (x.ratio.1 * y.ratio.2) (x.ratio.2 * y.ratio.1)

def neg (x : Binary64) : Binary64 := { x with negative := !x.negative }

def toFloat (x : Binary64) : Float := Float.ofBits (UInt64.ofNat x.bits)

end Binary64

end EventTracking
