import EventTracking.Json.Source
import Mathlib.Data.List.TakeDrop
import Mathlib.Data.List.TakeWhile

set_option autoImplicit false

namespace EventTracking

theorem bind_eq_ok {α β ε : Type} {x : Except ε α} {f : α → Except ε β} {b : β} :
    x >>= f = .ok b ↔ ∃ a, x = .ok a ∧ f a = .ok b := by
  cases x <;> simp [bind, Except.bind]

end EventTracking

namespace EventTracking.Json.Source

theorem hexValue4?_byNumber :
    ∀ n < 32, hexValue4? '0' '0' (Nat.digitChar (n / 16)) (Nat.digitChar (n % 16)) = some n := by
  decide

theorem scanString_escape (held : List Char) (c : Char) (rest : List Char) :
    scanString ⟨some held, none⟩ (escape c ++ rest) = scanString ⟨some (c :: held), none⟩ rest := by
  unfold escape
  split
  case h_8 other quote backslash newline return_ tab back feed =>
    split
    case isTrue control =>
      have value : hexValue4? '0' '0' _ _ = some c.toNat := hexValue4?_byNumber c.toNat control
      have low : ¬ (0xd800 ≤ c.toNat ∧ c.toNat ≤ 0xdbff) := by omega
      have high : ¬ (0xdc00 ≤ c.toNat ∧ c.toNat ≤ 0xdfff) := by omega
      change scanString _ ('\\' :: 'u' :: '0' :: '0' :: Nat.digitChar (c.toNat / 16) ::
        Nat.digitChar (c.toNat % 16) :: rest) = _
      rw [scanString, value]
      simp [Scan.pushUnit, Scan.push, Scan.settle, low, high, Char.ofNat_toNat]
    case isFalse plain =>
      rw [List.singleton_append, scanString, if_neg plain]
      · rfl
      all_goals grind
  all_goals simp [scanString, simpleEscape?, Scan.push, Scan.settle]

theorem scanString_quoted (held cs rest : List Char) :
    scanString ⟨some held, none⟩ (cs.flatMap escape ++ '"' :: rest) =
      (some (String.ofList (held.reverse ++ cs)), .ok rest) := by
  induction cs generalizing held with
  | nil => simp [scanString, Scan.text?, Scan.settle]
  | cons c cs ih =>
    rw [List.flatMap_cons, List.append_assoc, scanString_escape, ih]
    simp

-- A number ends before these characters.
def Ends (rest : List Char) : Prop := ∀ c ∈ rest.head?, c = ',' ∨ c = ']' ∨ c = '\x7d'

theorem Ends.stops {p : Char → Bool} {rest : List Char} (ends : Ends rest)
    (none : ∀ c, c = ',' ∨ c = ']' ∨ c = '\x7d' → p c = false) : ∀ c ∈ rest.head?, p c = false :=
  fun c hc => none c (ends c hc)

theorem scanDigits_eq_ok {cs left : List Char} {digits : List Nat} :
    scanDigits cs = .ok (digits, left) ↔
      cs.takeWhile Char.isDigit ≠ [] ∧ digitsOf (cs.takeWhile Char.isDigit) = digits ∧
        cs.dropWhile Char.isDigit = left := by
  unfold scanDigits
  rw [List.span_eq_takeWhile_dropWhile]
  by_cases none : cs.takeWhile Char.isDigit = [] <;> simp [none]

theorem takeWhile_append_ends (cs : List Char) {rest : List Char} {p : Char → Bool}
    (stops : ∀ c ∈ rest.head?, p c = false) :
    (cs ++ rest).takeWhile p = cs.takeWhile p ∧
      (cs ++ rest).dropWhile p = cs.dropWhile p ++ rest := by
  induction cs with
  | nil =>
    cases rest with
    | nil => exact ⟨rfl, rfl⟩
    | cons c rest => simp [stops c rfl]
  | cons c cs ih =>
    cases h : p c with
    | false => simp [h]
    | true => simpa [h] using ih

def Local {α : Type} (scan : List Char → Except Fault (α × List Char)) : Prop :=
  ∀ cs left rest a, Ends rest → scan cs = .ok (a, left) → scan (cs ++ rest) = .ok (a, left ++ rest)

namespace Local

variable {α β : Type} {scan part missing : List Char → Except Fault (α × List Char)}

theorem pure (a : α) : Local fun cs => .ok (a, cs) := by
  intro cs left rest b _ scanned
  cases scanned
  rfl

theorem bind {next : α → List Char → Except Fault (β × List Char)} (here : Local scan)
    (there : ∀ a, Local (next a)) : Local fun cs => scan cs >>= fun r => next r.1 r.2 := by
  intro cs left rest b ends scanned
  obtain ⟨r, first, second⟩ := bind_eq_ok.1 scanned
  exact bind_eq_ok.2 ⟨_, here _ _ _ _ ends first, there r.1 _ _ _ _ ends second⟩

theorem marked (isMark : Char → Bool) (there : Local part) (gone : Local missing)
    (comma : isMark ',' = false) (bracket : isMark ']' = false) (brace : isMark '\x7d' = false)
    (found : ∀ c cs, isMark c = true → scan (c :: cs) = part cs)
    (other : ∀ cs, (∀ c ∈ cs.head?, isMark c = false) → scan cs = missing cs) : Local scan := by
  intro cs left rest a ends scanned
  cases cs with
  | cons c cs =>
    rw [List.cons_append]
    cases mark : isMark c with
    | true =>
      rw [found _ _ mark] at scanned ⊢
      exact there _ _ _ _ ends scanned
    | false =>
      rw [other _ (by simpa using mark)] at scanned ⊢
      exact gone _ _ _ _ ends scanned
  | nil =>
    rw [other _ (by simp)] at scanned
    rw [List.nil_append, other _ (ends.stops ?_)]
    · exact gone _ _ _ _ ends scanned
    · rintro c (rfl | rfl | rfl) <;> assumption

end Local

theorem local_scanDigits : Local scanDigits := by
  intro cs left rest digits ends scanned
  have stops : ∀ c ∈ rest.head?, c.isDigit = false :=
    ends.stops (by rintro c (rfl | rfl | rfl) <;> rfl)
  obtain ⟨same, behind⟩ := takeWhile_append_ends cs stops
  rw [scanDigits_eq_ok] at scanned ⊢
  rw [same, behind, scanned.2.2]
  exact ⟨scanned.1, scanned.2.1, rfl⟩

theorem local_scanSign : Local fun cs => .ok (scanSign cs) := by
  refine Local.marked (· == '-') (.pure true) (.pure false) rfl rfl rfl ?_ ?_
  · intro c cs mark
    obtain rfl := eq_of_beq mark
    rfl
  · intro cs unmarked
    unfold scanSign
    split
    · simp at unmarked
    · rfl

theorem local_scanExponentSign : Local fun cs => .ok (scanExponentSign cs) := by
  refine Local.marked (· == '+') (.pure false) local_scanSign rfl rfl rfl ?_ ?_
  · intro c cs mark
    obtain rfl := eq_of_beq mark
    rfl
  · intro cs unmarked
    unfold scanExponentSign
    split
    · simp at unmarked
    · rfl

theorem local_scanFraction : Local scanFraction := by
  have digits : Local fun cs => scanDigits cs >>= fun r => .ok (some r.1, r.2) :=
    local_scanDigits.bind fun digits => .pure (some digits)
  refine Local.marked (· == '.') digits (.pure none) rfl rfl rfl ?_ ?_
  · intro c cs mark
    obtain rfl := eq_of_beq mark
    rfl
  · intro cs unmarked
    unfold scanFraction
    split
    · simp at unmarked
    · rfl

theorem local_scanExponentAt : Local scanExponentAt :=
  local_scanExponentSign.bind fun negative =>
    local_scanDigits.bind fun digits => .pure (some (negative, digits))

theorem local_scanExponent : Local scanExponent := by
  refine Local.marked (fun c => c == 'e' || c == 'E') local_scanExponentAt (.pure none)
    rfl rfl rfl ?_ ?_
  · intro c cs mark
    rcases Bool.or_eq_true_iff.1 mark with small | large
    · obtain rfl := eq_of_beq small
      rfl
    · obtain rfl := eq_of_beq large
      rfl
  · intro cs unmarked
    unfold scanExponent
    split
    · simp at unmarked
    · simp at unmarked
    · rfl

theorem local_scanNumeral : Local scanNumeral := by
  have behind (negative : Bool) (whole : List Nat) : Local fun cs =>
      if whole.head? = some 0 ∧ whole.length ≠ 1 then .error (.both .malformed)
      else scanFraction cs >>= fun fraction => scanExponent fraction.2 >>= fun exponent =>
        .ok (Numeral.mk negative whole fraction.1 exponent.1, exponent.2) := by
    split
    · intro cs left rest a _ scanned
      cases scanned
    · exact local_scanFraction.bind fun fraction =>
        local_scanExponent.bind fun exponent => .pure (Numeral.mk negative whole fraction exponent)
  exact local_scanSign.bind fun negative => local_scanDigits.bind (behind negative)

theorem ofNumber_append {cs left rest : List Char} {v : Json} (ends : Ends rest)
    (read : ofNumber cs = (.scalar v, .ok left)) :
    ofNumber (cs ++ rest) = (.scalar v, .ok (left ++ rest)) := by
  unfold ofNumber at read ⊢
  cases scanned : scanNumeral cs with
  | error f =>
    rw [scanned] at read
    cases read
  | ok r =>
    rw [scanned] at read
    rw [local_scanNumeral _ _ _ _ ends scanned]
    dsimp only at read ⊢
    cases value : r.1.value? with
    | none => simp [value] at read
    | some w =>
      rw [value] at read
      cases read
      rfl

end EventTracking.Json.Source

namespace EventTracking.Json.Numeral

theorem le_foldl (n : Nat) (digits : List Nat) :
    n ≤ digits.foldl (fun n d => n * 10 + d) n := by
  induction digits generalizing n with
  | nil => exact Nat.le_refl n
  | cons d digits ih =>
    have grown : n ≤ n * 10 + d := by omega
    exact Nat.le_trans grown (ih _)

theorem gather_eq {n : Nat} {digits : List Nat}
    (fits : digits.foldl (fun n d => n * 10 + d) n ≤ maxSignificand) :
    gather n digits = (digits.foldl (fun n d => n * 10 + d) n, []) := by
  induction digits generalizing n with
  | nil => rfl
  | cons d digits ih =>
    have next : n * 10 + d ≤ maxSignificand := Nat.le_trans (le_foldl _ digits) fits
    rw [gather, if_neg (Nat.not_lt.2 next)]
    exact ih fits

end EventTracking.Json.Numeral

namespace EventTracking.Json.Source

theorem gather_digitsOf {n : Nat} (fits : n ≤ Numeral.maxSignificand) :
    Numeral.gather 0 (digitsOf (Nat.toDigits 10 n)) = (n, []) := by
  have value : (digitsOf (Nat.toDigits 10 n)).foldl (fun n d => n * 10 + d) 0 = n := by
    have read := Nat.ofDigitChars_ten_toDigits (n := n)
    rw [Nat.ofDigitChars_eq_foldl] at read
    simpa [digitsOf, List.foldl_map, Nat.mul_comm] using read
  rw [Numeral.gather_eq (by omega), value]

theorem head?_digitsOf {n : Nat} (positive : 0 < n) :
    (digitsOf (Nat.toDigits 10 n)).head? ≠ some 0 := by
  induction n using Nat.strongRecOn with
  | ind n ih =>
    by_cases small : n < 10
    · rw [Nat.toDigits_of_lt_base small]
      have value := Nat.toNat_digitChar_sub_48_of_lt_ten small
      intro zero
      have zero : n.digitChar.toNat - 48 = 0 := Option.some.inj zero
      omega
    · have fewer := ih (n / 10) (by omega) (by omega)
      rw [Nat.toDigits_of_base_le (by omega) (by omega)]
      cases h : Nat.toDigits 10 (n / 10) with
      | nil => exact absurd h Nat.toDigits_ne_nil
      | cons c cs => simpa [h, digitsOf] using fewer

theorem scanDigits_toDigits (n : Nat) :
    scanDigits (Nat.toDigits 10 n) = .ok (digitsOf (Nat.toDigits 10 n), []) := by
  have all : ∀ c ∈ Nat.toDigits 10 n, c.isDigit = true :=
    fun c hc => Nat.isDigit_of_mem_toDigits (by decide) (by decide) hc
  rw [scanDigits_eq_ok, List.takeWhile_eq_self_iff.2 all, List.dropWhile_eq_nil_iff.2 all]
  exact ⟨Nat.toDigits_ne_nil, rfl, rfl⟩

theorem scanNumeral_of_digits {cs : List Char} {negative : Bool} {n : Nat}
    (sign : scanSign cs = (negative, Nat.toDigits 10 n)) :
    scanNumeral cs = .ok (⟨negative, digitsOf (Nat.toDigits 10 n), none, none⟩, []) := by
  have leading : ¬ ((digitsOf (Nat.toDigits 10 n)).head? = some 0 ∧
      (digitsOf (Nat.toDigits 10 n)).length ≠ 1) := by
    rintro ⟨zero, long⟩
    cases n with
    | zero => exact long rfl
    | succ n => exact head?_digitsOf (Nat.succ_pos n) zero
  unfold scanNumeral
  rw [sign]
  simp only [scanDigits_toDigits, bind, Except.bind, if_neg leading]
  rfl

theorem ofNumber_int {n : Int} (least : minInt ≤ n) (most : n ≤ maxInt) :
    ofNumber (toString n).toList = (.scalar (.int n), .ok []) := by
  rw [Int.toString_eq_repr, Int.repr_eq_if]
  split
  case isTrue positive =>
    rw [Nat.toList_repr]
    have sign : scanSign (Nat.toDigits 10 n.toNat) = (false, Nat.toDigits 10 n.toNat) := by
      cases h : Nat.toDigits 10 n.toNat with
      | nil => rfl
      | cons c cs =>
        have digit : c.isDigit = true :=
          Nat.isDigit_of_mem_toDigits (by decide) (by decide) (h ▸ List.mem_cons_self)
        unfold scanSign
        split
        · next same => cases same; cases digit
        · rfl
    have fits : n.toNat ≤ Numeral.maxSignificand := by
      have max : maxInt = (Numeral.maxSignificand : Int) := by decide
      omega
    rw [ofNumber, scanNumeral_of_digits sign]
    have same : (n.toNat : Int) = n := Int.toNat_of_nonneg positive
    simp [Numeral.value?, gather_digitsOf fits, same]
  case isFalse negative =>
    rw [String.toList_append, Nat.toList_repr]
    have low : (-n).toNat ≤ Nat.pow 2 63 := by
      have min : minInt = -((Nat.pow 2 63 : Nat) : Int) := by decide
      omega
    have fits : (-n).toNat ≤ Numeral.maxSignificand := Nat.le_trans low (by decide)
    have sign : scanSign ("-".toList ++ Nat.toDigits 10 (-n).toNat) =
        (true, Nat.toDigits 10 (-n).toNat) := rfl
    rw [ofNumber, scanNumeral_of_digits sign]
    have same : -((-n).toNat : Int) = n := by omega
    have some_ : ¬ ((-n).toNat = 0 ∨ Nat.pow 2 63 < (-n).toNat) := by omega
    simp only [Numeral.value?, gather_digitsOf fits, Bool.not_true, Bool.false_eq_true, if_false,
      if_neg some_, same]

end EventTracking.Json.Source
