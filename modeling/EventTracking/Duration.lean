import EventTracking.Binary64

set_option autoImplicit false

namespace EventTracking

abbrev Duration := Nat

namespace Duration

def perSecond : Nat := Nat.pow 10 9

def maximum : Duration := Nat.pow 2 64 * perSecond - 1

-- The clock holds the end of every shorter wait: it has room for twice that, and never shows half
-- of its room.
def clockRange : Duration := Nat.pow 2 62 * perSecond

def ofMillis (ms : Nat) : Duration := ms * Nat.pow 10 6

def add? (a b : Duration) : Option Duration :=
  if a + b ≤ maximum then some (a + b) else none

def toSeconds (d : Duration) : Float :=
  (UInt64.ofNat (d / perSecond)).toFloat + (UInt64.ofNat (d % perSecond)).toFloat / 1e9

def ofSeconds (x : Float) : Duration :=
  if x ≤ 0 then 0 else
  let code := x.toBits.toNat
  if h : code < 2047 * Nat.pow 2 52 then
    let (num, den) := (⟨false, code, h⟩ : Binary64).ratio
    Binary64.roundDiv (num * perSecond) den
  else 0

private def fractionText (n : Nat) (width : Nat) : String :=
  let digits := String.ofList (Nat.toDigits 10 n)
  let padded := "".pushn '0' (width - digits.length) ++ digits
  let kept := (padded.toList.reverse.dropWhile (· == '0')).reverse
  if kept.isEmpty then "" else "." ++ String.ofList kept

def text (d : Duration) : String :=
  if perSecond ≤ d then toString (d / perSecond) ++ fractionText (d % perSecond) 9 ++ "s"
  else if 1000000 ≤ d then toString (d / 1000000) ++ fractionText (d % 1000000) 6 ++ "ms"
  else if 1000 ≤ d then toString (d / 1000) ++ fractionText (d % 1000) 3 ++ "µs"
  else toString d ++ "ns"

end Duration

end EventTracking
