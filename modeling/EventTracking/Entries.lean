set_option autoImplicit false

namespace EventTracking

variable {α : Type}

namespace Entries

def Sorted (entries : List (String × α)) : Prop :=
  entries.Pairwise fun a b => a.1 < b.1

def find? (key : String) (entries : List (String × α)) : Option α :=
  (entries.find? fun e => e.1 == key).map (·.2)

def insert (key : String) (value : α) : List (String × α) → List (String × α)
  | [] => [(key, value)]
  | e :: rest =>
    if key < e.1 then (key, value) :: e :: rest
    else if key = e.1 then (key, value) :: rest
    else e :: insert key value rest

def erase (key : String) (entries : List (String × α)) : List (String × α) :=
  entries.filter fun e => e.1 != key

def ofList (entries : List (String × α)) : List (String × α) :=
  entries.foldl (fun acc e => insert e.1 e.2 acc) []

theorem lt_of_not_lt_of_ne {a b : String} (h : ¬ a < b) (k : a ≠ b) : b < a := by
  rcases String.le_total a b with l | l
  · exact absurd (String.le_antisymm l (String.not_lt.mp h)) k
  · rcases Decidable.em (b < a) with m | m
    · exact m
    · exact absurd (String.le_antisymm (String.not_lt.mp m) l) k

theorem mem_insert {key : String} {value : α} {entries : List (String × α)} {e : String × α}
    (h : e ∈ insert key value entries) : e = (key, value) ∨ e ∈ entries := by
  induction entries with
  | nil => simp_all [insert]
  | cons head tail ih =>
    simp only [insert] at h
    split at h
    · simp_all
    · split at h <;> grind

theorem sorted_insert {key : String} {value : α} {entries : List (String × α)}
    (h : Sorted entries) : Sorted (insert key value entries) := by
  induction entries with
  | nil => simp [insert, Sorted]
  | cons head tail ih =>
    obtain ⟨above, rest⟩ := List.pairwise_cons.mp h
    simp only [insert]
    split
    case isTrue below =>
      refine List.pairwise_cons.mpr ⟨?_, h⟩
      intro e he
      rcases List.mem_cons.mp he with rfl | he
      · exact below
      · exact String.lt_trans below (above e he)
    case isFalse notBelow =>
      split
      case isTrue here =>
        refine List.pairwise_cons.mpr ⟨?_, rest⟩
        intro e he
        exact here ▸ above e he
      case isFalse elsewhere =>
        refine List.pairwise_cons.mpr ⟨?_, ih rest⟩
        intro e he
        rcases mem_insert he with rfl | he
        · exact lt_of_not_lt_of_ne notBelow elsewhere
        · exact above e he

theorem sorted_erase {key : String} {entries : List (String × α)} (h : Sorted entries) :
    Sorted (erase key entries) :=
  List.Pairwise.filter _ h

theorem sorted_ofList (entries : List (String × α)) : Sorted (ofList entries) := by
  suffices h : ∀ acc : List (String × α), Sorted acc →
      Sorted (entries.foldl (fun acc e => insert e.1 e.2 acc) acc) from
    h [] List.Pairwise.nil
  induction entries with
  | nil => exact fun _ h => h
  | cons e rest ih => exact fun acc h => ih _ (sorted_insert h)

theorem find?_cons (k : String) (e : String × α) (rest : List (String × α)) :
    find? k (e :: rest) = if k = e.1 then some e.2 else find? k rest := by
  by_cases h : k = e.1
  · simp [find?, h]
  · have : (e.1 == k) = false := by simpa using fun x => h x.symm
    simp [find?, h, this]

theorem find?_insert (k key : String) (value : α) (entries : List (String × α)) :
    find? k (insert key value entries) = if k = key then some value else find? k entries := by
  induction entries with
  | nil => simp [insert, find?_cons]
  | cons head tail ih =>
    simp only [insert]
    split
    · rw [find?_cons]
    · split <;> simp only [find?_cons, ih] <;> grind

theorem find?_erase (k key : String) (entries : List (String × α)) :
    find? k (erase key entries) = if k = key then none else find? k entries := by
  induction entries with
  | nil => simp [erase, find?]
  | cons head tail ih =>
    simp only [erase, List.filter_cons] at ih ⊢
    split <;> simp only [find?_cons, ih] <;> grind

end Entries

structure Fields (α : Type) where
  entries : List (String × α)
  sorted : Entries.Sorted entries

namespace Fields

instance : EmptyCollection (Fields α) := ⟨⟨[], List.Pairwise.nil⟩⟩

instance : Inhabited (Fields α) := ⟨∅⟩

@[ext] theorem ext {a b : Fields α} (h : a.entries = b.entries) : a = b := by
  cases a; cases b; cases h; rfl

def ofList (entries : List (String × α)) : Fields α :=
  ⟨Entries.ofList entries, Entries.sorted_ofList entries⟩

def find? (fields : Fields α) (key : String) : Option α :=
  Entries.find? key fields.entries

def contains (fields : Fields α) (key : String) : Bool :=
  (fields.find? key).isSome

def insert (fields : Fields α) (key : String) (value : α) : Fields α :=
  ⟨Entries.insert key value fields.entries, Entries.sorted_insert fields.sorted⟩

def erase (fields : Fields α) (key : String) : Fields α :=
  ⟨Entries.erase key fields.entries, Entries.sorted_erase fields.sorted⟩

theorem find?_insert (fields : Fields α) (k key : String) (value : α) :
    (fields.insert key value).find? k = if k = key then some value else fields.find? k :=
  Entries.find?_insert k key value fields.entries

theorem find?_erase (fields : Fields α) (k key : String) :
    (fields.erase key).find? k = if k = key then none else fields.find? k :=
  Entries.find?_erase k key fields.entries

end Fields

end EventTracking
