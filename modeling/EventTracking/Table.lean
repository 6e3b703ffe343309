set_option autoImplicit false

namespace EventTracking

structure Table (κ α : Type) where
  entries : List (κ × α) := []
  distinct : (entries.map (·.1)).Nodup := by exact List.nodup_nil

namespace Table

variable {κ α : Type}

instance : EmptyCollection (Table κ α) := ⟨{}⟩

instance : Inhabited (Table κ α) := ⟨∅⟩

def keys (t : Table κ α) : List κ := t.entries.map (·.1)

def size (t : Table κ α) : Nat := t.entries.length

def filter (p : κ → Bool) (t : Table κ α) : Table κ α :=
  ⟨t.entries.filter fun e => p e.1, t.distinct.sublist (List.filter_sublist.map _)⟩

variable [DecidableEq κ]

def find? (t : Table κ α) (key : κ) : Option α := (t.entries.find? fun e => e.1 == key).map (·.2)

def contains (t : Table κ α) (key : κ) : Bool := (t.find? key).isSome

def insert (t : Table κ α) (key : κ) (value : α) : Table κ α where
  entries := (key, value) :: (t.filter (· != key)).entries
  distinct := by
    have others : key ∉ (t.filter (· != key)).keys := by simp [keys, filter]
    exact List.nodup_cons.2 ⟨others, (t.filter (· != key)).distinct⟩

@[simp]
theorem find?_empty (key : κ) : (∅ : Table κ α).find? key = none := rfl

theorem find?_filter (p : κ → Bool) (t : Table κ α) (key : κ) :
    (t.filter p).find? key = if p key then t.find? key else none := by
  obtain ⟨entries, _⟩ := t
  simp only [find?, filter]
  induction entries with
  | nil => simp
  | cons e rest ih =>
    have ih := ih (by simp_all)
    grind

theorem find?_insert (t : Table κ α) (key k : κ) (value : α) :
    (t.insert key value).find? k = if k = key then some value else t.find? k := by
  have behind := find?_filter (· != key) t k
  simp only [find?] at behind
  by_cases here : k = key
  · simp [find?, insert, here]
  · have other : (key == k) = false := by simpa using fun same => here same.symm
    simpa [find?, insert, other, here] using behind

theorem mem_keys {t : Table κ α} {key : κ} : key ∈ t.keys ↔ t.contains key = true := by
  simp [keys, contains, find?]

end Table

end EventTracking
