import EventTracking.Binary64
import EventTracking.Entries

set_option autoImplicit false

namespace EventTracking

inductive Json where
  | null
  | bool (b : Bool)
  | int (n : Int)
  | float (x : Binary64)
  | str (s : String)
  | arr (items : List Json)
  | obj (entries : List (String × Json))
  deriving Repr, Inhabited

namespace Json

def ofEntries (entries : List (String × Json)) : Json :=
  obj (Entries.ofList entries)

def ofFields (fields : Fields Json) : Json := obj fields.entries

def find? (key : String) : Json → Option Json
  | obj entries => Entries.find? key entries
  | _ => none

def str? : Json → Option String
  | str s => some s
  | _ => none

def bool? : Json → Option Bool
  | bool b => some b
  | _ => none

def isStr (v : Json) : Bool := v.str?.isSome

-- The least and the greatest integer that a number can hold exactly.
def minInt : Int := -Nat.pow 2 63
def maxInt : Int := Nat.pow 2 64 - 1

mutual

def same : Json → Json → Bool
  | null, null => true
  | bool a, bool b => a == b
  | int a, int b => a == b
  | float a, float b => a.same b
  | str a, str b => a == b
  | arr a, arr b => sameItems a b
  | obj a, obj b => sameEntries a b
  | _, _ => false

def sameItems : List Json → List Json → Bool
  | [], [] => true
  | a :: as, b :: bs => same a b && sameItems as bs
  | _, _ => false

def sameEntries : List (String × Json) → List (String × Json) → Bool
  | [], [] => true
  | (k, a) :: as, (l, b) :: bs => k == l && same a b && sameEntries as bs
  | _, _ => false

end

instance : BEq Json := ⟨same⟩

end Json

def Fields.same (a b : Fields Json) : Bool := Json.sameEntries a.entries b.entries

end EventTracking
