import EventTracking.Retry.Policy
import Mathlib

set_option autoImplicit false

namespace EventTracking

open Float.Model (UnpackedFloat Format totalExponent)
open Float.Model.UnpackedFloat

namespace Rounding

def AtMost (k : Nat) : UnpackedFloat → Prop
  | .zero sign => sign = .positive
  | .finite sign m e _ => sign = .positive ∧ -1074 ≤ e ∧ e ≤ k ∧ m ≤ 2 ^ (k - e).toNat
  | .infinity _ | .notANumber => False

section Shifting

variable {em : ExtendedMantissa}

theorem mantissa_shiftRight (em : ExtendedMantissa) (n : Nat) :
    (em >>> n).mantissa = em.mantissa / 2 ^ n := by
  change (n.repeat ExtendedMantissa.shiftRightOne em).mantissa = _
  induction n with
  | zero => simp [Nat.repeat]
  | succ n ih =>
    rw [Nat.repeat, ExtendedMantissa.shiftRightOne, ih, Nat.div_div_eq_div_mul, pow_succ]

theorem roundBit_shiftRight (em : ExtendedMantissa) (n : Nat) :
    (em >>> (n + 1)).roundBit = (em.mantissa / 2 ^ n % 2 != 0) := by
  rw [← mantissa_shiftRight]
  rfl

theorem roundedMantissa_le (em : ExtendedMantissa) : em.roundedMantissa ≤ em.mantissa + 1 := by
  obtain ⟨m, r, s⟩ := em
  cases r <;> cases s <;>
    simp only [ExtendedMantissa.roundedMantissa, ExtendedMantissa.accuracy,
      Accuracy.roundToNearestEven] <;> omega

theorem roundedMantissa_eq (even : em.roundBit = false) : em.roundedMantissa = em.mantissa := by
  obtain ⟨m, r, s⟩ := em
  obtain rfl : r = false := even
  cases s <;> rfl

theorem mantissa_ofMantissaAndAccuracy (m : Nat) (accuracy : Accuracy) :
    (ExtendedMantissa.ofMantissaAndAccuracy m accuracy).mantissa = m := by
  fun_cases ExtendedMantissa.ofMantissaAndAccuracy <;> rfl

end Shifting

section Bounds

variable {k m : Nat} {e : Int} {accuracy : Accuracy}

def target (m : Nat) (e : Int) : Int := Format.binary64.targetExponent (totalExponent m e)

theorem target_eq (m : Nat) (e : Int) : target m e = max (m.log2 + 1 + e - 53) (-1074) := rfl

def excess (m : Nat) (e : Int) : Nat := (target m e - e).toNat

def firstRounding (m : Nat) (e : Int) (accuracy : Accuracy) : Nat :=
  (ExtendedMantissa.ofMantissaAndAccuracy m accuracy >>> excess m e).roundedMantissa

theorem roundWithAccuracy_cases (m : Nat) (e : Int) (accuracy : Accuracy) :
    let r := firstRounding m e accuracy
    let rest := excess r (e + excess m e)
    (roundWithAccuracy Format.binary64 .positive m e accuracy = .zero .positive) ∨
      ∃ pos, roundWithAccuracy Format.binary64 .positive m e accuracy =
        .finite .positive (r / 2 ^ rest) (e + excess m e + rest) pos := by
  intro r rest
  have final : (ExtendedMantissa.ofMantissaAndAccuracy r .exact >>> rest).mantissa =
      r / 2 ^ rest := by
    rw [mantissa_shiftRight, mantissa_ofMantissaAndAccuracy]
  by_cases none : (ExtendedMantissa.ofMantissaAndAccuracy r .exact >>> rest).mantissa = 0
  · exact .inl (dif_pos none)
  · refine .inr ⟨Nat.pos_of_ne_zero (final ▸ none), ?_⟩
    have whole : roundWithAccuracy Format.binary64 .positive m e accuracy =
        .finite .positive (ExtendedMantissa.ofMantissaAndAccuracy r .exact >>> rest).mantissa
          (e + excess m e + rest) (Nat.pos_of_ne_zero none) := dif_neg none
    rw [whole]
    simp only [final]

theorem atMost_of_firstRounding (within : e + excess m e ≤ k)
    (rounded : firstRounding m e accuracy ≤ 2 ^ (k - (e + excess m e)).toNat) :
    AtMost k (roundWithAccuracy Format.binary64 .positive m e accuracy) := by
  have lowest : -1074 ≤ e + excess m e := by
    have := target_eq m e
    simp only [excess]
    omega
  rcases roundWithAccuracy_cases m e accuracy with none | ⟨pos, whole⟩
  · rw [none]
    rfl
  · rw [whole]
    generalize firstRounding m e accuracy = r at *
    generalize e + excess m e = e₁ at *
    generalize excess r e₁ = rest at *
    obtain ⟨d, rfl⟩ : ∃ d : Nat, e₁ = k - d := ⟨(k - e₁).toNat, by omega⟩
    have same : ((k : Int) - (k - d)).toNat = d := by omega
    rw [same] at rounded
    have long : 2 ^ rest ≤ r := (Nat.div_pos_iff.1 pos).2
    have short : rest ≤ d := (Nat.pow_le_pow_iff_right (by decide)).1 (long.trans rounded)
    refine ⟨rfl, by omega, by omega, ?_⟩
    have left : ((k : Int) - (k - d + rest)).toNat = d - rest := by omega
    rw [left, ← Nat.pow_div short (by decide)]
    exact Nat.div_le_div_right rounded

theorem atMost_roundWithAccuracy (within : e ≤ k) (small : m < 2 ^ (k - e).toNat) :
    AtMost k (roundWithAccuracy Format.binary64 .positive m e accuracy) := by
  have bits : (m.log2 : Int) + e ≤ k := by
    by_cases zero : m = 0
    · subst zero
      simpa using within
    · have := (Nat.log2_lt zero).2 small
      omega
  have target : target m e ≤ k := by
    rw [target_eq]
    omega
  have shift : e + excess m e ≤ k := by
    rw [excess]
    omega
  refine atMost_of_firstRounding shift ((roundedMantissa_le _).trans ?_)
  rw [mantissa_shiftRight, mantissa_ofMantissaAndAccuracy]
  have split : (k - e).toNat = excess m e + (k - (e + excess m e)).toNat := by omega
  rw [split, pow_add, mul_comm] at small
  exact Nat.div_lt_of_lt_mul (mul_comm _ (2 ^ excess m e) ▸ small)

theorem atMost_roundWithAccuracy_near (low : e + 53 ≤ k)
    (near : m < 2 ^ (k - e).toNat + 2 ^ (k - 53 - e).toNat) :
    AtMost k (roundWithAccuracy Format.binary64 .positive m e .exact) := by
  by_cases small : m < 2 ^ (k - e).toNat
  · exact atMost_roundWithAccuracy (by omega) small
  · obtain ⟨d, rfl⟩ : ∃ d : Nat, e = k - 53 - d := ⟨(k - 53 - e).toNat, by omega⟩
    have upper : ((k : Int) - (k - 53 - d)).toNat = 53 + d := by omega
    have lower : ((k : Int) - 53 - (k - 53 - d)).toNat = d := by omega
    rw [upper] at near small
    rw [lower] at near
    have bits : m.log2 = 53 + d := by
      have positive := Nat.two_pow_pos (53 + d)
      refine (Nat.log2_eq_iff (by omega)).2 ⟨by omega, near.trans_le ?_⟩
      have : 2 ^ d ≤ 2 ^ (53 + d) := Nat.pow_le_pow_right (by decide) (by omega)
      omega
    have excess : excess m (k - 53 - d) = d + 1 := by
      rw [Rounding.excess, target_eq, bits]
      omega
    -- Rounding looks at the last bit of `m / 2 ^ d`, and this is the power of two.
    have above : m / 2 ^ d = 2 ^ 53 := by
      refine Nat.div_eq_of_lt_le ?_ ?_
      · rw [← pow_add]; omega
      · rw [Nat.succ_mul, ← pow_add]; omega
    have exact :
        (ExtendedMantissa.ofMantissaAndAccuracy m .exact >>> (d + 1)).roundBit = false := by
      rw [roundBit_shiftRight, mantissa_ofMantissaAndAccuracy, above]
      rfl
    refine atMost_of_firstRounding (by omega) ?_
    rw [firstRounding, excess, roundedMantissa_eq exact, mantissa_shiftRight,
      mantissa_ofMantissaAndAccuracy, pow_succ, ← Nat.div_div_eq_div_mul, above]
    have left : ((k : Int) - (k - 53 - d + (d + 1 : Nat))).toNat = 52 := by omega
    rw [left]
    norm_num

end Bounds

section Packing

variable {k : Nat} {u : UnpackedFloat}

theorem packComponents_toNat (s : Sign) (e : BitVec 11) (m : BitVec 52) :
    (packComponents Format.binary64 s e m).toNat =
      s.toBitVec.toNat * 2 ^ 63 + e.toNat * 2 ^ 52 + m.toNat := by
  have small := m.isLt
  have few := e.isLt
  simp only [packComponents, BitVec.toNat_append, Nat.shiftLeft_eq]
  rw [Nat.mul_comm _ (2 ^ 52), ← Nat.two_pow_add_eq_or_of_lt small, Nat.mul_comm _ (2 ^ 11),
    ← Nat.two_pow_add_eq_or_of_lt few]
  ring

theorem pack_le (most : AtMost k u) (range : k ≤ 971) :
    (pack Format.binary64 u).toNat ≤ (1023 + k) * 2 ^ 52 := by
  cases u with
  | infinity | notANumber => exact most.elim
  | zero s =>
    obtain rfl : s = .positive := most
    exact Nat.zero_le _
  | finite s m e pos =>
    obtain ⟨rfl, low, high, bound⟩ := most
    obtain ⟨d, rfl⟩ : ∃ d : Nat, e = k - d := ⟨(k - e).toNat, by omega⟩
    have same : ((k : Int) - (k - d)).toNat = d := by omega
    rw [same] at bound
    have biased : ((k : Int) - d + Format.binary64.exponentBias +
        Format.binary64.mantissaBitsWithoutImplicit).toNat = 1075 + k - d := by
      change ((k : Int) - d + 1023 + 52).toNat = _
      omega
    have plain (x : BitVec 52) :
        (packComponents Format.binary64 .positive 0#_ x).toNat < 2 ^ 52 := by
      rw [packComponents_toNat]
      simpa [Sign.toBitVec] using x.isLt
    rw [pack]
    simp only [biased]
    have finite : ¬ 2 ^ 11 ≤ 1075 + k - d + 1 := by omega
    rw [if_neg finite]
    by_cases normal : m.log2 + 1 = Format.binary64.mantissaBits
    · have bits : m.log2 = 52 := Nat.succ.inj (normal.trans (by rfl))
      obtain ⟨least, most⟩ := (Nat.log2_eq_iff (Nat.ne_of_gt pos)).1 bits
      have exponent : 52 ≤ d := (Nat.pow_le_pow_iff_right (by decide)).1 (least.trans bound)
      have exact : (BitVec.ofNat 11 (1075 + k - d)).toNat = 1075 + k - d :=
        Nat.mod_eq_of_lt (by omega)
      rw [if_pos normal, packComponents_toNat, exact]
      simp only [Sign.toBitVec, BitVec.toNat_ofNat]
      -- With the largest exponent only the power of two itself has room.
      by_cases tight : d = 52
      · subst tight
        obtain rfl : m = 2 ^ 52 := by omega
        omega
      · omega
    · rw [if_neg normal]
      exact (plain _).le.trans (by omega)

theorem unpackMantissa_toNat (b : BitVec 64) :
    (@unpackMantissa Format.binary64 b).toNat = b.toNat % 2 ^ 52 := by
  simp [unpackMantissa]

theorem unpackExponent_toNat (b : BitVec 64) :
    (@unpackExponent Format.binary64 b).toNat = b.toNat / 2 ^ 52 % 2 ^ 11 := by
  simp [unpackExponent, Nat.shiftRight_eq_div_pow]

theorem unpackSign_toNat (b : BitVec 64) :
    (@unpackSign Format.binary64 b).toNat = b.toNat / 2 ^ 63 := by
  have := b.isLt
  simp [unpackSign, Nat.shiftRight_eq_div_pow]
  omega

variable {x : Binary64}

theorem significand_subnormal (small : x.code < 2 ^ 52) : x.significand = x.code := if_pos small

theorem exponent_subnormal (small : x.code < 2 ^ 52) : x.exponent = -1074 := if_pos small

theorem significand_normal (large : ¬ x.code < 2 ^ 52) :
    x.significand = x.code % 2 ^ 52 + 2 ^ 52 := if_neg large

theorem exponent_normal (large : ¬ x.code < 2 ^ 52) :
    x.exponent = (x.code / 2 ^ 52 : Nat) - 1075 := if_neg large

section Reading

variable {b : BitVec 64}

theorem code_few (x : Binary64) : x.code / 2 ^ 52 < 2047 := by
  have range : x.code < 2047 * 2 ^ 52 := x.finite
  exact Nat.div_lt_of_lt_mul (by omega)

theorem sign_code (same : b.toNat = x.code) :
    Sign.ofBitVec (@unpackSign Format.binary64 b) = .positive := by
  have range : x.code < 2047 * 2 ^ 52 := x.finite
  have clear : @unpackSign Format.binary64 b = 0#1 := by
    apply BitVec.eq_of_toNat_eq
    rw [unpackSign_toNat, same]
    exact Nat.div_eq_of_lt (by omega)
  rw [clear]
  rfl

theorem unpackExponent_code (same : b.toNat = x.code) :
    (@unpackExponent Format.binary64 b).toNat = x.code / 2 ^ 52 := by
  have few := code_few x
  rw [unpackExponent_toNat, same, Nat.mod_eq_of_lt (by omega)]

theorem unpackExponent_ne_ones (same : b.toNat = x.code) :
    @unpackExponent Format.binary64 b ≠ -1#11 := by
  intro all
  have exponent := unpackExponent_code same
  rw [all] at exponent
  exact absurd exponent.symm (Nat.ne_of_lt (code_few x))

theorem unpack_subnormal (same : b.toNat = x.code) (small : x.code < 2 ^ 52) :
    (x.code = 0 ∧ unpack Format.binary64 b = .zero .positive) ∨
      ∃ pos, unpack Format.binary64 b = .finite .positive x.significand x.exponent pos := by
  have least : @unpackExponent Format.binary64 b = 0#11 := by
    apply BitVec.eq_of_toNat_eq
    rw [unpackExponent_code same, Nat.div_eq_of_lt small]
    rfl
  have mantissa := unpackMantissa_toNat b
  rw [same, Nat.mod_eq_of_lt small] at mantissa
  simp only [unpack, if_neg (unpackExponent_ne_ones same), sign_code same]
  rw [if_pos least, least]
  by_cases zero : @unpackMantissa Format.binary64 b = 0#52
  · rw [zero] at mantissa
    exact .inl ⟨mantissa.symm, dif_pos zero⟩
  · rw [dif_neg zero]
    have pos : 0 < x.significand := by
      rw [significand_subnormal small, ← mantissa]
      exact Nat.pos_of_ne_zero fun none => zero (BitVec.eq_of_toNat_eq none)
    refine .inr ⟨pos, ?_⟩
    congr 1
    · rw [significand_subnormal small, mantissa]
    · rw [exponent_subnormal small]
      rfl

theorem unpack_normal (same : b.toNat = x.code) (large : ¬ x.code < 2 ^ 52) :
    ∃ pos, unpack Format.binary64 b = .finite .positive x.significand x.exponent pos := by
  have exponent := unpackExponent_code same
  have normal : @unpackExponent Format.binary64 b ≠ 0#11 := by
    intro least
    rw [least] at exponent
    have : 0 < x.code / 2 ^ 52 := Nat.div_pos (by omega) (by decide)
    exact absurd exponent (Nat.ne_of_lt this)
  simp only [unpack, if_neg (unpackExponent_ne_ones same), sign_code same]
  rw [if_neg normal]
  -- The leading bit, which the code leaves out, is put in front again.
  have whole : (1#1 ++ @unpackMantissa Format.binary64 b).toNat = x.significand := by
    rw [significand_normal large, BitVec.toNat_append, Nat.shiftLeft_eq, ← same,
      ← unpackMantissa_toNat, Nat.mul_comm, ← Nat.two_pow_add_eq_or_of_lt (BitVec.isLt _)]
    exact Nat.add_comm _ _
  have pos : 0 < x.significand := by
    rw [significand_normal large]
    exact Nat.add_pos_right _ (by decide)
  refine ⟨pos, ?_⟩
  congr 1
  rw [exponent, exponent_normal large]
  change ((x.code / 2 ^ 52 : Nat) : Int) - (1023 + 52) = _
  rfl

theorem unpack_cases (same : b.toNat = x.code) :
    (x.code = 0 ∧ unpack Format.binary64 b = .zero .positive) ∨
      ∃ pos, unpack Format.binary64 b = .finite .positive x.significand x.exponent pos := by
  by_cases small : x.code < 2 ^ 52
  · exact unpack_subnormal same small
  · exact .inr (unpack_normal same small)

theorem atMost_unpack (same : b.toNat = x.code)
    (bound : x.code ≤ (1023 + k) * 2 ^ 52) : AtMost k (unpack Format.binary64 b) := by
  rcases unpack_cases same with ⟨-, whole⟩ | ⟨pos, whole⟩
  · rw [whole]
    rfl
  · rw [whole]
    by_cases subnormal : x.code < 2 ^ 52
    · rw [AtMost, exponent_subnormal subnormal, significand_subnormal subnormal]
      refine ⟨rfl, le_rfl, by omega, subnormal.le.trans ?_⟩
      exact Nat.pow_le_pow_right (by decide) (by omega)
    · rw [AtMost, exponent_normal subnormal, significand_normal subnormal]
      have bits : x.code / 2 ^ 52 ≤ 1023 + k := Nat.div_le_of_le_mul (by omega)
      obtain ⟨d, split⟩ : ∃ d, 1023 + k = x.code / 2 ^ 52 + d := Nat.exists_eq_add_of_le bits
      have left : ((k : Int) - ((x.code / 2 ^ 52 : Nat) - 1075)).toNat = 52 + d := by omega
      refine ⟨rfl, by omega, by omega, left ▸ ?_⟩
      have short := Nat.mod_lt x.code (Nat.two_pow_pos 52)
      cases d with
      | zero => omega
      | succ d =>
        have : 2 ^ 53 ≤ 2 ^ (52 + (d + 1)) := Nat.pow_le_pow_right (by decide) (by omega)
        omega

theorem unpack_large (large : 2047 * 2 ^ 52 ≤ b.toNat) :
    (unpack Format.binary64 b).isFinite = false ∨
      (unpack Format.binary64 b).le (.zero .positive) = true := by
  by_cases all : @unpackExponent Format.binary64 b = -1#11
  · left
    simp only [unpack, if_pos all]
    split <;> rfl
  · right
    -- The exponent is not all ones, so it is the sign bit that makes the code so large.
    have set : @unpackSign Format.binary64 b ≠ 0#1 := by
      intro clear
      have positive := unpackSign_toNat b
      rw [clear] at positive
      have small : b.toNat < 2 ^ 63 := by
        have : b.toNat / 2 ^ 63 = 0 := positive.symm
        omega
      refine all (BitVec.eq_of_toNat_eq ((unpackExponent_toNat b).trans ?_))
      change _ = 2047
      omega
    have sign : Sign.ofBitVec (@unpackSign Format.binary64 b) = .negative := if_neg set
    simp only [unpack, if_neg all, sign]
    split
    · split <;> rfl
    · rfl

end Reading

end Packing

section Floats

variable {j k n : Nat} {x y : Float}

def UpTo (k : Nat) (x : Float) : Prop := x.toBits.toNat ≤ (1023 + k) * 2 ^ 52

theorem UpTo.atMost (bound : UpTo k x) (range : k ≤ 971) : AtMost k x.toModel.unpack := by
  have finite : x.toBits.toNat < 2047 * Nat.pow 2 52 :=
    bound.trans_lt (Nat.mul_lt_mul_of_pos_right (by omega) (by decide))
  exact atMost_unpack (x := ⟨false, x.toBits.toNat, finite⟩) rfl bound

theorem upTo_pack {u : UnpackedFloat} (most : AtMost k u) (range : k ≤ 971) :
    UpTo k (.ofModel (.pack u)) := pack_le most range

theorem AtMost.mono {u : UnpackedFloat} (most : AtMost j u) (le : j ≤ k) : AtMost k u := by
  cases u with
  | infinity | notANumber => exact most
  | zero s => exact most
  | finite s m e pos =>
    obtain ⟨positive, low, high, bound⟩ := most
    exact ⟨positive, low, by omega, bound.trans (Nat.pow_le_pow_right (by decide) (by omega))⟩

theorem normalize_cases (m : Nat) (e : Int) :
    UnpackedFloat.normalize Format.binary64 m e .positive = .zero .positive ∨
      ∃ a : Nat, UnpackedFloat.normalize Format.binary64 m e .positive =
        roundWithAccuracy Format.binary64 .positive (m * 2 ^ a) (e - a) .exact := by
  unfold UnpackedFloat.normalize
  split
  · next negative =>
    rw [Int.compare_eq_lt] at negative
    omega
  · exact .inl rfl
  · refine .inr ⟨(e - target m e).toNat, ?_⟩
    rw [← Nat.shiftLeft_eq]
    rfl

theorem upTo_toFloat (small : n < 2 ^ k) (range : k ≤ 64) : UpTo k (UInt64.ofNat n).toFloat := by
  have fits : n < 2 ^ 64 := small.trans_le (Nat.pow_le_pow_right (by decide) range)
  have exact : (UInt64.ofNat n).toNat = n := Nat.mod_eq_of_lt fits
  refine upTo_pack (u := ofUInt64 Format.binary64 (UInt64.ofNat n)) ?_ (by omega)
  rw [ofUInt64, exact]
  change AtMost k (UnpackedFloat.normalize Format.binary64 (n : Int) 0 .positive)
  rcases normalize_cases n 0 with zero | ⟨a, rounded⟩
  · rw [zero]
    rfl
  · have left : ((k : Int) - (0 - a)).toNat = k + a := by omega
    rw [rounded]
    refine atMost_roundWithAccuracy (by omega) ?_
    rw [left, pow_add]
    exact Nat.mul_lt_mul_of_pos_right small (Nat.two_pow_pos a)

theorem aligned {m : Nat} {e least : Int} (le : least ≤ e) (within : e ≤ k)
    (bound : m ≤ 2 ^ (k - e).toNat) :
    (decreaseExponent m e least).1 ≤ 2 ^ (k - least).toNat := by
  have split : (k - least).toNat = (k - e).toNat + (e - least).toNat := by omega
  rw [decreaseExponent, Nat.shiftLeft_eq, split, pow_add]
  exact Nat.mul_le_mul_right _ bound

theorem atMost_add {u v : UnpackedFloat} (first : AtMost k u) (second : AtMost j v)
    (far : j + 54 ≤ k) : AtMost k (add Format.binary64 u v) := by
  match u, v with
  | .infinity _, _ | .notANumber, _ => exact first.elim
  | .zero _, .infinity _ | .zero _, .notANumber => exact second.elim
  | .finite _ _ _ _, .infinity _ | .finite _ _ _ _, .notANumber => exact second.elim
  | .zero s, .zero t =>
    obtain rfl : s = .positive := first
    obtain rfl : t = .positive := second
    rfl
  | .zero _, .finite _ _ _ _ => exact second.mono (by omega)
  | .finite _ _ _ _, .zero _ => exact first
  | .finite s m e pos, .finite t n f pos' =>
    obtain ⟨rfl, -, high, bound⟩ := first
    obtain ⟨rfl, -, high', bound'⟩ := second
    have one := aligned (min_le_left e f) high bound
    have other := aligned (min_le_right e f) high' bound'
    change AtMost k (UnpackedFloat.normalize Format.binary64
      ((decreaseExponent m e (min e f)).1 + (decreaseExponent n f (min e f)).1 : Nat)
        (min e f) .positive)
    have least : min e f ≤ j := (min_le_right e f).trans high'
    -- From here on the mantissas stand at one exponent, and only their bounds matter.
    generalize (decreaseExponent m e (min e f)).1 = m' at *
    generalize (decreaseExponent n f (min e f)).1 = n' at *
    generalize min e f = g at *
    rcases normalize_cases (m' + n') g with zero | ⟨a, rounded⟩
    · rw [zero]
      rfl
    · rw [rounded]
      refine atMost_roundWithAccuracy_near (by omega) ?_
      have power (i : Nat) (h : g ≤ i) : 2 ^ ((i : Int) - (g - a)).toNat =
          2 ^ ((i : Int) - g).toNat * 2 ^ a := by
        rw [← pow_add]
        congr 1
        omega
      have half : 2 ^ ((j : Int) - g).toNat < 2 ^ ((k - 53 : Nat) - g).toNat :=
        Nat.pow_lt_pow_right (by decide) (by omega)
      have near : m' + n' < 2 ^ ((k : Int) - g).toNat + 2 ^ ((k - 53 : Nat) - g).toNat := by
        omega
      have cast : (k : Int) - 53 = (k - 53 : Nat) := by omega
      rw [cast, power k (by omega), power (k - 53) (by omega), ← Nat.add_mul]
      exact Nat.mul_lt_mul_of_pos_right near (Nat.two_pow_pos a)

theorem atMost_div {u : UnpackedFloat} (bound : AtMost 30 u) :
    AtMost 1 (div Format.binary64 u (.finite .positive (10 ^ 9 * 2 ^ 23) (-23) (by decide))) := by
  match u with
  | .infinity _ | .notANumber => exact bound.elim
  | .zero s =>
    obtain rfl : s = .positive := bound
    rfl
  | .finite s m e pos =>
    obtain ⟨rfl, -, high, bound⟩ := bound
    have bits : (m.log2 : Int) ≤ 30 - e := by
      have : m.log2 ≤ ((30 : Nat) - e).toNat :=
        (Nat.pow_le_pow_iff_right (by decide)).1 ((Nat.log2_self_le (Nat.ne_of_gt pos)).trans bound)
      omega
    let t := min (e - -23) (Format.binary64.targetExponent
      (totalExponent m e - totalExponent (10 ^ 9 * 2 ^ 23) (-23)))
    have billion : totalExponent (10 ^ 9 * 2 ^ 23) (-23) = 30 := rfl
    have early : t ≤ -52 := by
      refine (min_le_right _ _).trans (max_le ?_ (by decide))
      rw [billion, totalExponent]
      change (m.log2 : Int) + 1 + e - 30 - 53 ≤ -52
      omega
    have within : t ≤ e + 23 := (min_le_left _ _).trans (by omega)
    change AtMost 1 (roundWithAccuracy Format.binary64 .positive
      (m <<< (e - -23 - t).toNat / (10 ^ 9 * 2 ^ 23)) t _)
    refine atMost_roundWithAccuracy (by omega) (Nat.div_lt_of_lt_mul ?_)
    have split : ((30 : Nat) - e).toNat + (e - -23 - t).toNat = 52 + ((1 : Nat) - t).toNat := by
      omega
    calc m <<< (e - -23 - t).toNat ≤ 2 ^ (((30 : Nat) - e).toNat + (e - -23 - t).toNat) := by
          rw [Nat.shiftLeft_eq, pow_add]
          exact Nat.mul_le_mul_right _ bound
      _ = 2 ^ 52 * 2 ^ ((1 : Nat) - t).toNat := by rw [split, pow_add]
      _ < 10 ^ 9 * 2 ^ 23 * 2 ^ ((1 : Nat) - t).toNat :=
          Nat.mul_lt_mul_of_pos_right (by decide) (Nat.two_pow_pos _)

theorem upTo_toSeconds {d : Duration} (range : d ≤ Duration.maximum) : UpTo 64 d.toSeconds := by
  have whole : d / Duration.perSecond < 2 ^ 64 := by
    refine Nat.div_lt_of_lt_mul (range.trans_lt ?_)
    decide
  have part : d % Duration.perSecond < 2 ^ 30 :=
    (Nat.mod_lt d (by decide)).trans (by decide)
  have first := (upTo_toFloat whole le_rfl).atMost (by decide)
  have second := (upTo_toFloat part (by decide)).atMost (by decide)
  have quotient : UpTo 1 ((UInt64.ofNat (d % Duration.perSecond)).toFloat / 1e9) :=
    upTo_pack (atMost_div second) (by decide)
  exact upTo_pack (atMost_add first (quotient.atMost (by decide)) (by decide)) (by decide)

theorem roundDiv_le (num den : Nat) : Binary64.roundDiv num den ≤ num / den + 1 := by
  fun_cases Binary64.roundDiv <;> omega

theorem ofSeconds_le {x : Float} (bound : x.toBits.toNat < 1087 * 2 ^ 52) :
    Duration.ofSeconds x ≤ Duration.maximum := by
  have finite : x.toBits.toNat < 2047 * Nat.pow 2 52 := bound.trans (by decide)
  let c : Binary64 := ⟨false, x.toBits.toNat, finite⟩
  have small : c.significand < 2 ^ 53 ∧ c.exponent ≤ 11 := by
    by_cases subnormal : c.code < 2 ^ 52
    · rw [significand_subnormal subnormal, exponent_subnormal subnormal]
      omega
    · have bits : c.code / 2 ^ 52 < 1087 := Nat.div_lt_of_lt_mul bound
      rw [significand_normal subnormal, exponent_normal subnormal]
      omega
  -- The largest number below `2 ^ 64` is less by 2048, so the last rounding does not get there.
  have most : c.ratio.1 * Duration.perSecond / c.ratio.2 ≤
      (2 ^ 53 - 1) * 2 ^ 11 * Duration.perSecond := by
    rw [Binary64.ratio, Binary64.scale]
    split
    · have power : 2 ^ c.exponent.toNat ≤ 2 ^ 11 := Nat.pow_le_pow_right (by decide) (by omega)
      rw [Nat.div_one]
      exact Nat.mul_le_mul_right _ (Nat.mul_le_mul (by omega) power)
    · refine (Nat.div_le_self _ _).trans (Nat.mul_le_mul_right _ ?_)
      exact (Nat.le_pred_of_lt small.1).trans (Nat.le_mul_of_pos_right _ (by decide))
  rw [Duration.ofSeconds]
  split
  · exact Nat.zero_le _
  · dsimp only
    rw [dif_pos finite]
    refine (roundDiv_le _ _).trans ((Nat.succ_le_succ most).trans ?_)
    decide

theorem code_le_cases {x y : Binary64} (le : x.code ≤ y.code) : x.exponent < y.exponent ∨
    x.exponent = y.exponent ∧ x.significand ≤ y.significand := by
  by_cases small : y.code < 2 ^ 52
  · have smaller := le.trans_lt small
    rw [exponent_subnormal small, exponent_subnormal smaller, significand_subnormal small,
      significand_subnormal smaller]
    exact .inr ⟨rfl, le⟩
  · rw [exponent_normal small, significand_normal small]
    by_cases smaller : x.code < 2 ^ 52
    · rw [exponent_subnormal smaller, significand_subnormal smaller]
      omega
    · rw [exponent_normal smaller, significand_normal smaller]
      omega

theorem code_lt {x limit : Float} (finite : x.isFinite = true) (positive : ¬ x ≤ 0)
    (range : limit.toBits.toNat < 2047 * 2 ^ 52) (less : ¬ limit ≤ x) :
    x.toBits.toNat < limit.toBits.toNat := by
  have small : x.toBits.toNat < 2047 * 2 ^ 52 := by
    refine Nat.lt_of_not_le fun large => ?_
    rcases unpack_large (b := x.toBits.toBitVec) large with other | below
    · exact Bool.false_ne_true (other.symm.trans finite)
    · exact positive (decide_eq_true below)
  refine Nat.lt_of_not_le fun above => less (decide_eq_true ?_)
  change UnpackedFloat.le (unpack Format.binary64 limit.toBits.toBitVec)
    (unpack Format.binary64 x.toBits.toBitVec) = true
  rcases unpack_cases (x := ⟨false, x.toBits.toNat, small⟩) (b := x.toBits.toBitVec) rfl with
    ⟨-, zero⟩ | ⟨pos, whole⟩
  · refine absurd (decide_eq_true ?_) positive
    change UnpackedFloat.le (unpack Format.binary64 x.toBits.toBitVec) (.zero .positive) = true
    rw [zero]
    rfl
  · rcases unpack_cases (x := ⟨false, limit.toBits.toNat, range⟩) (b := limit.toBits.toBitVec) rfl
      with ⟨-, zero⟩ | ⟨pos', whole'⟩
    · rw [zero, whole]
      rfl
    · rw [whole, whole', UnpackedFloat.le, UnpackedFloat.compare, Option.any_some]
      rcases code_le_cases (x := ⟨false, limit.toBits.toNat, range⟩)
        (y := ⟨false, x.toBits.toNat, small⟩) above with lower | ⟨same, lower⟩
      · rw [Int.compare_eq_lt.2 lower]
        rfl
      · rw [same, Int.compare_eq_eq.2 rfl, Ordering.eq_then]
        exact Nat.isLE_compare.2 lower

end Floats

end Rounding

namespace Retry.Policy

theorem delayFor_le_maximum (p : Policy) (n : Nat) (range : p.maxTimeout ≤ Duration.maximum) :
    p.delayFor n ≤ Duration.maximum := by
  unfold delayFor
  dsimp only
  split
  · exact range
  · next below =>
    generalize p.minTimeout.toSeconds * power p.factor (min n maxExponent) = seconds at *
    obtain ⟨finite, less⟩ : seconds.isFinite = true ∧ ¬ p.maxTimeout.toSeconds ≤ seconds := by
      simpa using below
    by_cases positive : seconds ≤ 0
    · rw [Duration.ofSeconds, if_pos positive]
      exact Nat.zero_le _
    · have bound : p.maxTimeout.toSeconds.toBits.toNat ≤ 1087 * 2 ^ 52 :=
        Rounding.upTo_toSeconds range
      have lower := Rounding.code_lt finite positive (by omega) less
      exact Rounding.ofSeconds_le (lower.trans_le bound)

end Retry.Policy

end EventTracking
