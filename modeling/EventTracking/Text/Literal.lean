import EventTracking.Text.Markless

set_option autoImplicit false

namespace EventTracking.Text

private def byNumber (c : Char) : List Char :=
  ['\\', 'u', '\x7b'] ++ Nat.toDigits 16 c.toNat ++ ['\x7d']

def showChar (c : Char) : List Char :=
  match c with
  | '"' => ['\\', '"']
  | '\\' => ['\\', '\\']
  | '\n' => ['\\', 'n']
  | '\r' => ['\\', 'r']
  | '\t' => ['\\', 't']
  | '\x00' => ['\\', '0']
  | c =>
    if c.toNat < 0x20 || c.toNat == 0x7f then byNumber c
    else if c.toNat < 0x7f then [c]
    else if isMarkless c then byNumber c
    else [c]

def literal (s : String) : String :=
  "\"" ++ String.ofList (s.toList.flatMap showChar) ++ "\""

def listLiteral (items : List String) : String :=
  "[" ++ ", ".intercalate (items.map literal) ++ "]"

end EventTracking.Text
