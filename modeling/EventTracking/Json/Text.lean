import EventTracking.Binary64.Shortest
import EventTracking.Json.Basic

set_option autoImplicit false

namespace EventTracking

-- Floating point numbers have at least one decimal and are written positionally from `1e-5` up
-- to below `1e16`; beyond that one digit stands before the point, and the exponent has a sign.
def Binary64.text (x : Binary64) : String :=
  let d := x.shortest
  let digits := String.ofList (Nat.toDigits 10 d.digits)
  let zeros (n : Int) := "".pushn '0' n.toNat
  let point : Int := digits.length + d.power
  let magnitude :=
    if x.isZero then "0.0"
    else if 0 ≤ d.power ∧ point ≤ 16 then digits ++ zeros d.power ++ ".0"
    else if 0 < point ∧ point ≤ 16 then
      (digits.take point.toNat).toString ++ "." ++ (digits.drop point.toNat).toString
    else if -5 < point ∧ point ≤ 0 then "0." ++ zeros (-point) ++ digits
    else
      let mantissa :=
        if digits.length = 1 then digits
        else (digits.take 1).toString ++ "." ++ (digits.drop 1).toString
      let exponent := point - 1
      mantissa ++ (if exponent < 0 then "e-" else "e+") ++ toString exponent.natAbs
  if x.negative then "-" ++ magnitude else magnitude

namespace Json

private def hexDigit (n : Nat) : Char := (Nat.digitChar n)

def escape (c : Char) : List Char :=
  match c with
  | '"' => ['\\', '"']
  | '\\' => ['\\', '\\']
  | '\n' => ['\\', 'n']
  | '\r' => ['\\', 'r']
  | '\t' => ['\\', 't']
  | '\x08' => ['\\', 'b']
  | '\x0c' => ['\\', 'f']
  | c =>
    if c.toNat < 0x20 then
      ['\\', 'u', '0', '0', hexDigit (c.toNat / 16), hexDigit (c.toNat % 16)]
    else [c]

def quoted (s : String) : String :=
  "\"" ++ String.ofList (s.toList.flatMap escape) ++ "\""

def scalarText : Json → String
  | null => "null"
  | bool true => "true"
  | bool false => "false"
  | int n => toString n
  | float x => x.text
  | str s => quoted s
  | arr _ => "[]"
  | obj _ => "\x7b\x7d"

mutual

def text : Json → String
  | arr items => "[" ++ itemsText items ++ "]"
  | obj entries => "\x7b" ++ entriesText entries ++ "\x7d"
  | v => v.scalarText

def itemsText : List Json → String
  | [] => ""
  | [v] => text v
  | v :: rest => text v ++ "," ++ itemsText rest

def entriesText : List (String × Json) → String
  | [] => ""
  | [(k, v)] => quoted k ++ ":" ++ text v
  | (k, v) :: rest => quoted k ++ ":" ++ text v ++ "," ++ entriesText rest

end

def objectText (entries : List (String × Json)) : String :=
  "\x7b" ++ entriesText entries ++ "\x7d"

def listText (texts : List String) : String :=
  "[" ++ ",".intercalate texts ++ "]"

private def newline (depth : Nat) : String := "\n".pushn ' ' (2 * depth)

mutual

def linesAt (depth : Nat) : Json → String
  | arr (v :: rest) => "[" ++ itemsLinesAt (depth + 1) (v :: rest) ++ newline depth ++ "]"
  | obj (e :: rest) => "\x7b" ++ entriesLinesAt (depth + 1) (e :: rest) ++ newline depth ++ "\x7d"
  | v => v.scalarText

def itemsLinesAt (depth : Nat) : List Json → String
  | [] => ""
  | [v] => newline depth ++ linesAt depth v
  | v :: rest => newline depth ++ linesAt depth v ++ "," ++ itemsLinesAt depth rest

def entriesLinesAt (depth : Nat) : List (String × Json) → String
  | [] => ""
  | [(k, v)] => newline depth ++ quoted k ++ ": " ++ linesAt depth v
  | (k, v) :: rest =>
    newline depth ++ quoted k ++ ": " ++ linesAt depth v ++ "," ++ entriesLinesAt depth rest

end

def lines (v : Json) : String := v.linesAt 0

end Json

end EventTracking
