import EventTracking.Json.Numeral
import EventTracking.Json.ReadError

set_option autoImplicit false

namespace EventTracking.Json

-- A problem of form: what it is for one who reads the value, and for one who skips over it.
structure Fault where
  read : ReadError
  skip : ReadError
  deriving Repr

def Fault.both (e : ReadError) : Fault := ⟨e, e⟩

inductive Source where
  | scalar (v : Json)
  -- Well formed, but without a value: a number too large, a lone surrogate, too deep a nesting.
  | valueless
  -- Not well formed from here on.
  | broken (fault : Fault)
  -- The elements, and what is wrong behind the last one.
  | array (items : List Source) (ending : Option Fault)
  -- The entries, and what is wrong behind the last one. A key may be without a value, too.
  | object (entries : List (Option String × Source)) (ending : Option Fault)
  deriving Repr, Inhabited

namespace Source

def isBlankChar (c : Char) : Bool :=
  c == ' ' || c == '\n' || c == '\t' || c == '\r'

def skipBlank (cs : List Char) : List Char := cs.dropWhile isBlankChar

def misplaced : List Char → Fault
  | [] => .both .ended
  | _ => .both .malformed

-- The characters behind something well formed, or what is wrong.
abbrev Rest := Except Fault (List Char)

def hexValue? (c : Char) : Option Nat :=
  if '0' ≤ c ∧ c ≤ '9' then some (c.toNat - '0'.toNat)
  else if 'a' ≤ c ∧ c ≤ 'f' then some (c.toNat - 'a'.toNat + 10)
  else if 'A' ≤ c ∧ c ≤ 'F' then some (c.toNat - 'A'.toNat + 10)
  else none

def hexValue4? (a b c d : Char) : Option Nat := do
  return (((← hexValue? a) * 16 + (← hexValue? b)) * 16 + (← hexValue? c)) * 16 + (← hexValue? d)

structure Scan where
  held : Option (List Char) := some []
  lead : Option Nat := none

namespace Scan

def settle (s : Scan) : Scan :=
  match s.lead with
  | none => s
  | some _ => ⟨none, none⟩

def push (s : Scan) (c : Char) : Scan :=
  let s := s.settle
  { s with held := s.held.map (c :: ·) }

def pushUnit (s : Scan) (n : Nat) : Scan :=
  match s.lead with
  | some lead =>
    if 0xdc00 ≤ n ∧ n ≤ 0xdfff then
      let c := Char.ofNat (0x10000 + (lead - 0xd800) * 0x400 + (n - 0xdc00))
      ⟨s.held.map (c :: ·), none⟩
    else ⟨none, none⟩
  | none =>
    if 0xd800 ≤ n ∧ n ≤ 0xdbff then { s with lead := some n }
    else if 0xdc00 ≤ n ∧ n ≤ 0xdfff then ⟨none, none⟩
    else s.push (Char.ofNat n)

def fault (s : Scan) (e : ReadError) : Fault :=
  ⟨if s.held.isNone then .malformed else e, e⟩

def text? (s : Scan) : Option String := s.settle.held.map fun cs => String.ofList cs.reverse

end Scan

def simpleEscape? : Char → Option Char
  | '"' => some '"'
  | '\\' => some '\\'
  | '/' => some '/'
  | 'b' => some '\x08'
  | 'f' => some '\x0c'
  | 'n' => some '\n'
  | 'r' => some '\r'
  | 't' => some '\t'
  | _ => none

def scanString (s : Scan) : List Char → Option String × Rest
  | [] => (none, .error (s.fault .ended))
  | '"' :: rest => (s.text?, .ok rest)
  | '\\' :: 'u' :: a :: b :: c :: d :: rest =>
    match hexValue4? a b c d with
    | some n => scanString (s.pushUnit n) rest
    | none => (none, .error (s.fault .malformed))
  | '\\' :: 'u' :: rest =>
    -- Four digits are taken at once, so fewer than four bytes are too few whatever they are.
    let bytes := (String.ofList rest).utf8ByteSize
    (none, .error (s.fault (if bytes < 4 then .ended else .malformed)))
  | ['\\'] => (none, .error (s.fault .ended))
  | '\\' :: e :: rest =>
    match simpleEscape? e with
    | some c => scanString (s.push c) rest
    | none => (none, .error (s.settle.fault .malformed))
  | c :: rest =>
    if c.toNat < 0x20 then (none, .error (s.settle.fault .malformed))
    else scanString (s.push c) rest

def ofString : Option String × Rest → Source × Rest
  | (_, .error f) => (.broken f, .error f)
  | (some s, rest) => (.scalar (.str s), rest)
  | (none, rest) => (.valueless, rest)

def breakOff (f : Fault) : Source × Rest := (.broken f, .error f)

def digitsOf (cs : List Char) : List Nat := cs.map fun c => c.toNat - '0'.toNat

-- Digits that have to be there: one who skips over the number does not tell an end of the text
-- from a wrong character.
def scanDigits (cs : List Char) : Except Fault (List Nat × List Char) :=
  let (digits, rest) := cs.span Char.isDigit
  if digits.isEmpty then
    .error ⟨if rest.isEmpty then .ended else .malformed, .malformed⟩
  else .ok (digitsOf digits, rest)

def scanSign : List Char → Bool × List Char
  | '-' :: cs => (true, cs)
  | cs => (false, cs)

def scanFraction : List Char → Except Fault (Option (List Nat) × List Char)
  | '.' :: cs => do
    let (digits, cs) ← scanDigits cs
    return (some digits, cs)
  | cs => return (none, cs)

def scanExponentSign : List Char → Bool × List Char
  | '+' :: cs => (false, cs)
  | cs => scanSign cs

def scanExponentAt (cs : List Char) : Except Fault (Option (Bool × List Nat) × List Char) := do
  let (negative, cs) := scanExponentSign cs
  let (digits, cs) ← scanDigits cs
  return (some (negative, digits), cs)

def scanExponent : List Char → Except Fault (Option (Bool × List Nat) × List Char)
  | 'e' :: cs => scanExponentAt cs
  | 'E' :: cs => scanExponentAt cs
  | cs => return (none, cs)

def scanNumeral (cs : List Char) : Except Fault (Numeral × List Char) := do
  let (negative, cs) := scanSign cs
  let (whole, cs) ← scanDigits cs
  if whole.head? = some 0 ∧ whole.length ≠ 1 then
    throw (.both .malformed)
  let (fraction, cs) ← scanFraction cs
  let (exponent, cs) ← scanExponent cs
  return (⟨negative, whole, fraction, exponent⟩, cs)

def ofNumber (cs : List Char) : Source × Rest :=
  match scanNumeral cs with
  | .error f => breakOff f
  | .ok (n, rest) =>
    match n.value? with
    | some v => (.scalar v, .ok rest)
    | none => (.valueless, .ok rest)

def ofWord (v : Json) : List Char → List Char → Source × Rest
  | [], cs => (.scalar v, .ok cs)
  | _ :: _, [] => breakOff (.both .ended)
  | w :: word, c :: cs => if w = c then ofWord v word cs else breakOff (.both .malformed)

def maxDepth : Nat := 127

-- A container that stands too deep has no value, but one who skips over it does not mind.
def withinDepth (depth : Nat) : Source × Rest → Source × Rest
  | (s, rest) =>
    if depth < maxDepth then (s, rest)
    else match rest with
      | .ok rest => (.valueless, .ok rest)
      | .error f => breakOff ⟨.malformed, f.skip⟩

mutual

def scan (depth : Nat) : Nat → List Char → Source × Rest
  | 0, _ => breakOff (.both .malformed)
  | fuel + 1, cs =>
    match skipBlank cs with
    | [] => breakOff (.both .ended)
    | '"' :: cs => ofString (scanString {} cs)
    | '[' :: cs =>
      withinDepth depth <|
        match skipBlank cs with
        | ']' :: rest => (.array [] none, .ok rest)
        | [] => (.array [] (some (.both .ended)), .error (.both .ended))
        | cs => match scanItems (depth + 1) fuel cs with
          | (items, ending, rest) => (.array items ending, rest)
    | '\x7b' :: cs =>
      withinDepth depth <|
        match skipBlank cs with
        | '\x7d' :: rest => (.object [] none, .ok rest)
        | cs => match scanEntries (depth + 1) fuel cs with
          | (entries, ending, rest) => (.object entries ending, rest)
    | 'n' :: cs => ofWord .null ['u', 'l', 'l'] cs
    | 't' :: cs => ofWord (.bool true) ['r', 'u', 'e'] cs
    | 'f' :: cs => ofWord (.bool false) ['a', 'l', 's', 'e'] cs
    | c :: cs => if c == '-' || c.isDigit then ofNumber (c :: cs) else breakOff (.both .malformed)

def scanItems (depth : Nat) : Nat → List Char → List Source × Option Fault × Rest
  | 0, _ => ([], some (.both .malformed), .error (.both .malformed))
  | fuel + 1, cs =>
    match scan depth fuel cs with
    | (item, .error f) => ([item], some f, .error f)
    | (item, .ok rest) =>
      match skipBlank rest with
      | ',' :: rest =>
        match scanItems depth fuel rest with
        | (items, ending, rest) => (item :: items, ending, rest)
      | ']' :: rest => ([item], none, .ok rest)
      | rest => ([item], some (misplaced rest), .error (misplaced rest))

def scanEntries (depth : Nat) :
    Nat → List Char → List (Option String × Source) × Option Fault × Rest
  | 0, _ => ([], some (.both .malformed), .error (.both .malformed))
  | fuel + 1, cs =>
    match skipBlank cs with
    | '"' :: cs =>
      match scanString {} cs with
      | (_, .error f) => ([], some f, .error f)
      | (key, .ok rest) =>
        match skipBlank rest with
        | ':' :: rest =>
          match scan depth fuel rest with
          | (value, .error f) => ([(key, value)], some f, .error f)
          | (value, .ok rest) =>
            match skipBlank rest with
            | ',' :: rest =>
              match scanEntries depth fuel rest with
              | (entries, ending, rest) => ((key, value) :: entries, ending, rest)
            | '\x7d' :: rest => ([(key, value)], none, .ok rest)
            | rest => ([(key, value)], some (misplaced rest), .error (misplaced rest))
        | rest =>
          let f := misplaced rest
          ([(key, .broken f)], some f, .error f)
    | cs => ([], some (misplaced cs), .error (misplaced cs))

end

def ofText (text : String) : Source × Bool :=
  let cs := text.toList
  match scan 0 (2 * cs.length + 2) cs with
  | (s, .ok rest) => (s, !(skipBlank rest).isEmpty)
  | (s, .error _) => (s, false)

mutual

def ofJson : Json → Source
  | .arr items => .array (ofItems items) none
  | .obj entries => .object (ofEntries entries) none
  | v => .scalar v

def ofItems : List Json → List Source
  | [] => []
  | v :: rest => ofJson v :: ofItems rest

def ofEntries : List (String × Json) → List (Option String × Source)
  | [] => []
  | (k, v) :: rest => (some k, ofJson v) :: ofEntries rest

end

def checkEnding : Option Fault → Except ReadError Unit
  | none => .ok ()
  | some f => .error f.read

mutual

def json : Source → Except ReadError Json
  | scalar v => .ok v
  | valueless => .error .malformed
  | broken f => .error f.read
  | array items ending => do
    let items ← jsonItems items
    checkEnding ending
    return .arr items
  | object entries ending => do
    let entries ← jsonEntries entries
    checkEnding ending
    return .ofEntries entries

def jsonItems : List Source → Except ReadError (List Json)
  | [] => .ok []
  | s :: rest => do
    let v ← json s
    let rest ← jsonItems rest
    return v :: rest

def jsonEntries : List (Option String × Source) → Except ReadError (List (String × Json))
  | [] => .ok []
  | (none, _) :: _ => .error .malformed
  | (some k, s) :: rest => do
    let v ← json s
    let rest ← jsonEntries rest
    return (k, v) :: rest

end

mutual

def skip : Source → Except ReadError Unit
  | scalar _ => .ok ()
  | valueless => .ok ()
  | broken f => .error f.skip
  | array items ending => do
    skipItems items
    match ending with
    | none => .ok ()
    | some f => .error f.skip
  | object entries ending => do
    skipEntries entries
    match ending with
    | none => .ok ()
    | some f => .error f.skip

def skipItems : List Source → Except ReadError Unit
  | [] => .ok ()
  | s :: rest => do skip s; skipItems rest

def skipEntries : List (Option String × Source) → Except ReadError Unit
  | [] => .ok ()
  | (_, s) :: rest => do skip s; skipEntries rest

end

def found : Json → Found
  | .null => .null
  | .bool b => .bool b
  | .int n => .int n
  | .float x => .float x
  | .str s => .str s
  | .arr _ => .sequence
  | .obj _ => .map

def mismatch (expected : Expected) : Source → ReadError
  | scalar v => .invalidType (found v) expected
  | valueless => .malformed
  | broken f => f.read
  | array _ _ => .invalidType .sequence expected
  | object _ _ => .invalidType .map expected

def string : Source → Except ReadError String
  | scalar (.str s) => .ok s
  | s => .error (s.mismatch .string)

def integer : Source → Except ReadError Int
  | scalar (.int n) =>
    if -Nat.pow 2 63 ≤ n ∧ n < Nat.pow 2 63 then .ok n else .error (.invalidValue (.int n) .integer)
  | s => .error (s.mismatch .integer)

def list {α : Type} (read : Source → Except ReadError α) : Source → Except ReadError (List α)
  | array items ending => do
    let items ← items.mapM read
    checkEnding ending
    return items
  | s => .error (s.mismatch .sequence)

end Source

def readText {α : Type} (read : Source → Except ReadError α) (text : String) :
    Except ReadError α := do
  let (source, more) := Source.ofText text
  let a ← read source
  if more then throw .malformed
  return a

def ofText? (text : String) : Except ReadError Json := readText Source.json text

end EventTracking.Json
